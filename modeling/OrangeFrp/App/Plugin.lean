import OrangeFrp.App.SaveTunnels

/-!
# The frps plugin (`frp-game-server/src/app.rs`)

frps asks before it lets a client log in or attach a proxy. The handler takes the
fields out of the JSON request, a missing one being empty, and looks at the first user
with the account.

* `proxy_accepted_iff`: a proxy is accepted exactly when it is a tunnel of the user who
  shows the secret, and no other tunnel of the configuration has its port.
* `frpsPlugin_accepted`: nobody logs in or attaches a proxy without the secret of an
  account whose quota is not exhausted.
-/
namespace OrangeFrp.App

open OrangeFrp.Core OrangeFrp.Storage

/-- The `op` of the query. -/
inductive PluginOperation where
  | login
  | newProxy
  | closeProxy
  | unsupported
  deriving DecidableEq

inductive PluginResponse where
  | accepted
  | rejected (reason : String)
  deriving DecidableEq

/-- Equal lengths and equal bytes: the same string.
mirrors crates/frp-game-server/src/app.rs:1602-1604 -/
def secureEqual (left right : Str) : Bool := utf8Len left = utf8Len right && left = right

def eqIgnoreAsciiCase (a b : Str) : Bool := a.map Char.toLower = b.map Char.toLower

/-- mirrors crates/frp-game-server/src/app.rs:1983-2000 -/
def pluginLoginResponse (c : ServerConfig) (account secret : Str) : PluginResponse :=
  match c.users.find? fun u => u.account = account with
  | none => .rejected "invalid user"
  | some user =>
    if secureEqual secret user.secret = false then .rejected "invalid user secret"
    else if (trafficSummary user).exhausted then .rejected "traffic quota exhausted"
    else .accepted

/-- mirrors crates/frp-game-server/src/app.rs:2017-2022 -/
def allows (account proxyName proxyType : Str) (remotePort : Port) (t : Tunnel) : Bool :=
  (t.proxyName = proxyName || account ++ '.' :: t.proxyName = proxyName) &&
    eqIgnoreAsciiCase t.protocol proxyType && t.backendPort = remotePort

/-- mirrors crates/frp-game-server/src/app.rs:2002-2031 -/
def pluginProxyResponse (c : ServerConfig) (account secret proxyName proxyType : Str)
    (remotePort : Port) : PluginResponse :=
  match c.users.find? fun u => u.account = account with
  | none => .rejected "invalid user"
  | some user =>
    if secureEqual secret user.secret = false || (trafficSummary user).exhausted then
      .rejected "user is not authorized"
    else if user.tunnels.any (allows account proxyName proxyType remotePort) then .accepted
    else .rejected "proxy is not registered in Orange FRP"

/-- `value.get(..).get(..)…`, then `as_str`, or the empty string. -/
def textAt (path : List String) (value : Value) : Str :=
  ((path.foldl (fun v key => v.bind (·.get key.toList)) (some value)).bind Value.asStr).getD []

/-- mirrors crates/frp-game-server/src/app.rs:1960-1964 -/
def portAt (key : String) (value : Value) : Port :=
  match (value.get key.toList).bind Value.asU64 with
  | some n => if n < UInt16.size then UInt16.ofNat n else 0
  | none => 0

/-- mirrors crates/frp-game-server/src/app.rs:1919-1981 -/
def frpsPlugin (c : ServerConfig) (operation : PluginOperation) (request : Value) : PluginResponse :=
  let content := (request.get "content".toList).getD .null
  match operation with
  | .login =>
    pluginLoginResponse c (textAt ["user"] content) (textAt ["metas", "orange_secret"] content)
  | .newProxy =>
    pluginProxyResponse c (textAt ["user", "user"] content)
      (textAt ["user", "metas", "orange_secret"] content) (textAt ["proxy_name"] content)
      (textAt ["proxy_type"] content) (portAt "remote_port" content)
  | .closeProxy => .accepted
  | .unsupported => .rejected "unsupported operation"

/-! ## Who is let in -/

/-- The quota still has something left, or there is none. -/
def HasQuota (u : ServerUser) : Prop :=
  u.trafficLimitBytes = 0 ∨ u.trafficUsedBytes < u.trafficLimitBytes

theorem exhausted_iff (u : ServerUser) : (trafficSummary u).exhausted = false ↔ HasQuota u := by
  simp only [trafficSummary, HasQuota, Bool.and_eq_false_iff, decide_eq_false_iff_not]
  omega

theorem secureEqual_iff {left right : Str} : secureEqual left right = true ↔ left = right := by
  simp only [secureEqual, Bool.and_eq_true, decide_eq_true_eq]
  exact ⟨And.right, fun h => ⟨h ▸ rfl, h⟩⟩

section
variable {P : Primitives} {c : ServerConfig} {account secret proxyName proxyType : Str} {port : Port}

/-- With distinct accounts the first user with an account is the user with it. -/
theorem find_account_iff (hn : (c.users.map (·.account)).Nodup) {u : ServerUser} :
    c.users.find? (fun u => u.account = account) = some u ↔ u ∈ c.users ∧ u.account = account := by
  refine ⟨?_, ?_⟩
  · exact fun h => ⟨List.mem_of_find?_eq_some h, by simpa using List.find?_some h⟩
  · intro hx
    obtain ⟨hu, rfl⟩ := hx
    cases hf : c.users.find? (fun v => v.account = u.account) with
    | none => exact absurd (decide_eq_true rfl) (List.find?_eq_none.1 hf u hu)
    | some v =>
      have hv : v.account = u.account := by simpa using List.find?_some hf
      rw [List.inj_on_of_nodup_map hn (List.mem_of_find?_eq_some hf) hu hv]

theorem login_accepted_iff : pluginLoginResponse c account secret = .accepted ↔
    ∃ u, c.users.find? (fun u => u.account = account) = some u ∧ u.secret = secret ∧ HasQuota u := by
  unfold pluginLoginResponse
  cases c.users.find? fun u => u.account = account with
  | none => simp
  | some u =>
    simp only [Option.some.injEq, exists_eq_left', ← exhausted_iff, ← secureEqual_iff]
    rw [secureEqual_iff, eq_comm (a := u.secret), ← secureEqual_iff]
    cases secureEqual secret u.secret <;> cases (trafficSummary u).exhausted <;> simp

theorem proxy_response_iff : pluginProxyResponse c account secret proxyName proxyType port = .accepted ↔
    ∃ u, c.users.find? (fun u => u.account = account) = some u ∧ u.secret = secret ∧ HasQuota u ∧
      ∃ t ∈ u.tunnels, allows account proxyName proxyType port t = true := by
  unfold pluginProxyResponse
  cases c.users.find? fun u => u.account = account with
  | none => simp
  | some u =>
    simp only [Option.some.injEq, exists_eq_left', ← exhausted_iff, ← List.any_eq_true]
    rw [eq_comm (a := u.secret), ← secureEqual_iff]
    cases secureEqual secret u.secret <;> cases (trafficSummary u).exhausted <;>
      cases u.tunnels.any (allows account proxyName proxyType port) <;> simp

theorem allows_iff {t : Tunnel} : allows account proxyName proxyType port t = true ↔
    (proxyName = t.proxyName ∨ proxyName = account ++ '.' :: t.proxyName) ∧
      t.protocol.map Char.toLower = proxyType.map Char.toLower ∧ t.backendPort = port := by
  simp only [allows, eqIgnoreAsciiCase, Bool.and_eq_true, Bool.or_eq_true, decide_eq_true_eq,
    and_assoc, eq_comm (a := proxyName)]

/-- A tunnel has one owner. -/
theorem owner_unique (hv : Valid P c) {u v : ServerUser} {t : Tunnel} (hu : u ∈ c.users)
    (hv' : v ∈ c.users) (htu : t ∈ u.tunnels) (htv : t ∈ v.tunnels) : u = v := by
  have hn : (c.users.flatMap (·.tunnels)).Nodup :=
    (newIn_empty.1 hv.distinct.tunnels.ids).of_map
  by_contra hne
  have : Std.Symm (Function.onFun List.Disjoint fun x : ServerUser => x.tunnels) :=
    ⟨fun _ _ h _ hx hy => h hy hx⟩
  exact (List.nodup_flatMap.1 hn).2.forall hu hv' hne htu htv

end

/-- **Who may attach a proxy.** Exactly the user with the account and the secret, with
quota left, under a name of one of its tunnels and with its protocol and port; and that
tunnel and that user are the only ones with the port. -/
theorem proxy_accepted_iff {P : Primitives} {c : ServerConfig} (hv : Valid P c)
    (account secret proxyName proxyType : Str) (port : Port) :
    (pluginProxyResponse c account secret proxyName proxyType port = .accepted ↔
      ∃ u ∈ c.users, u.account = account ∧ u.secret = secret ∧ HasQuota u ∧ ∃ t ∈ u.tunnels,
        t.backendPort = port ∧ t.protocol.map Char.toLower = proxyType.map Char.toLower ∧
          (proxyName = t.proxyName ∨ proxyName = account ++ '.' :: t.proxyName)) ∧
    (pluginProxyResponse c account secret proxyName proxyType port = .accepted →
      ∃ u ∈ c.users, u.account = account ∧ u.secret = secret ∧ ∃ t ∈ u.tunnels, t.backendPort = port ∧
        ∀ v ∈ c.users, ∀ o ∈ v.tunnels, o.backendPort = port → v = u ∧ o = t) := by
  have hacc := newIn_empty.1 hv.distinct.accounts
  have hiff := @proxy_response_iff c account secret proxyName proxyType port
  simp only [find_account_iff hacc, allows_iff] at hiff
  refine ⟨hiff.trans ⟨?_, ?_⟩, fun h => ?_⟩
  · intro hx
    obtain ⟨u, ⟨hu, ha⟩, hs, hq, t, ht, hname, hproto, hport⟩ := hx
    exact ⟨u, hu, ha, hs, hq, t, ht, hport, hproto, hname⟩
  · intro hx
    obtain ⟨u, hu, ha, hs, hq, t, ht, hport, hproto, hname⟩ := hx
    exact ⟨u, ⟨hu, ha⟩, hs, hq, t, ht, hname, hproto, hport⟩
  · obtain ⟨u, ⟨hu, ha⟩, hs, -, t, ht, -, -, hport⟩ := hiff.1 h
    refine ⟨u, hu, ha, hs, t, ht, hport, fun v hv' o ho he => ?_⟩
    obtain rfl : o = t := eq_of_tunnel_column (newIn_empty.1 hv.distinct.tunnels.backendPorts)
      (mem_tunnels hv' ho) (mem_tunnels hu ht) (he.trans hport.symm)
    exact ⟨owner_unique hv hv' hu ho ht, rfl⟩

/-- **No entry without the secret** of an account that has quota left. -/
theorem frpsPlugin_accepted {c : ServerConfig} {operation : PluginOperation} {request : Value}
    (h : frpsPlugin c operation request = .accepted) :
    operation = .closeProxy ∨ ∃ u ∈ c.users, HasQuota u ∧
      (u.secret = textAt ["content", "metas", "orange_secret"] request ∨
        u.secret = textAt ["content", "user", "metas", "orange_secret"] request) := by
  have hpath : ∀ path, textAt path ((request.get "content".toList).getD .null) =
      textAt ("content" :: path) request ∨ path = [] := by
    intro path
    cases path with
    | nil => exact .inr rfl
    | cons key path =>
      refine .inl ?_
      simp only [textAt, List.foldl_cons, Option.bind_some]
      cases request.get "content".toList <;> rfl
  cases operation with
  | closeProxy => exact .inl rfl
  | unsupported => cases h
  | login =>
    obtain ⟨u, hf, hs, hq⟩ := login_accepted_iff.1 h
    rw [(hpath _).resolve_right (by simp)] at hs
    exact .inr ⟨u, List.mem_of_find?_eq_some hf, hq, .inl hs⟩
  | newProxy =>
    obtain ⟨u, hf, hs, hq, -⟩ := proxy_response_iff.1 h
    rw [(hpath _).resolve_right (by simp)] at hs
    exact .inr ⟨u, List.mem_of_find?_eq_some hf, hq, .inr hs⟩

/-- The prefixed name of the user's own tunnel, with the protocol in small letters. -/
theorem own_proxy_accepted : pluginProxyResponse twoTunnels ['u'] (List.replicate 36 'u')
      (['u', '.'] ++ fgPrefix ++ ['a']) ['t', 'c', 'p'] 20000 = .accepted ∧
    ∀ v ∈ twoTunnels.users, ∀ o ∈ v.tunnels, o.backendPort = 20000 →
      v = twoTunnelsUser ∧ o = sampleTunnel ['a'] 1 20000 := by
  have h := proxy_accepted_iff twoTunnels_valid ['u'] (List.replicate 36 'u')
    (['u', '.'] ++ fgPrefix ++ ['a']) ['t', 'c', 'p'] 20000
  have hacc : pluginProxyResponse twoTunnels ['u'] (List.replicate 36 'u')
      (['u', '.'] ++ fgPrefix ++ ['a']) ['t', 'c', 'p'] 20000 = .accepted :=
    h.1.2 ⟨twoTunnelsUser, by decide +kernel, by decide +kernel, by decide +kernel, .inl rfl,
      sampleTunnel ['a'] 1 20000, by decide +kernel, by decide +kernel, by decide +kernel,
      .inr (by decide +kernel)⟩
  obtain ⟨u, hu, -, -, t, ht, hp, honly⟩ := h.2 hacc
  obtain ⟨rfl, rfl⟩ := honly twoTunnelsUser (by decide +kernel) (sampleTunnel ['a'] 1 20000)
    (by decide +kernel) rfl
  exact ⟨hacc, honly⟩

end OrangeFrp.App
