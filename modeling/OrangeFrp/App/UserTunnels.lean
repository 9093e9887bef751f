import OrangeFrp.Storage.Valid

/-!
# Checking one user's tunnel list (`frp-game-server/src/app.rs`)

`normalize_user_tunnels` runs `normalize_tunnels` on the submitted list, then
goes through it once more: it recomputes every proxy name, compares ports and
names with the other users' tunnels (but not their ids), keeps the backend
port of a known id and allocates one for a new id.

* `normalizeUserTunnels_ok`: everything an accepted list satisfies
  (`AcceptedFor`).
-/
namespace OrangeFrp.App

open OrangeFrp.Core OrangeFrp.Storage

/-- mirrors crates/frp-game-server/src/app.rs:1536-1540 -/
def idFormatOk (id : Str) : Bool :=
  utf8Len id ≤ 64 && id.all fun ch => ch.isAlphanum || ch == '-' || ch == '_'

/-- One comparison with a tunnel of another user.
mirrors crates/frp-game-server/src/app.rs:1560-1571 -/
def checkOther (tunnel : Tunnel) (account : Str) (other : Tunnel) : Except String Unit := do
  bailIf (other.protocol = tunnel.protocol ∧ other.remotePort = tunnel.remotePort)
    (String.ofList tunnel.protocol ++ " 远程端口 " ++ toString tunnel.remotePort ++ " 已被用户 " ++
      String.ofList account ++ " 的隧道 " ++ String.ofList other.name ++ " 占用。")
  bailIf (other.proxyName = tunnel.proxyName) ("隧道标识冲突：" ++ String.ofList tunnel.proxyName)

def checkOthers (tunnel : Tunnel) : List (Str × Tunnel) → Except String Unit
  | [] => .ok ()
  | (account, other) :: rest => do
    checkOther tunnel account other
    checkOthers tunnel rest

/-- The mutable variables of the loop. -/
structure Loop where
  usedPorts : List Port
  tunnelIds : List Str
  proxyNames : List Str

/-- What the loop reads but does not change. -/
structure Context where
  reserved : List Port
  backendPorts : List Port
  existing : List Tunnel
  others : List (Str × Tunnel)

/-- `existing_backends.get(&tunnel.id)`; a later entry of the map replaces an
earlier one. -/
def Context.existingBackend (k : Context) (id : Str) : Option Port :=
  (k.existing.reverse.find? fun t => t.id = id).map (·.backendPort)

/-- mirrors crates/frp-game-server/src/app.rs:1574-1578 -/
def Context.backendFor (k : Context) (usedPorts : List Port) (id : Str) :
    Except String (Port × List Port) :=
  match k.existingBackend id with
  | some port => .ok (port, usedPorts)
  | none => allocateBackendPort usedPorts

/-- mirrors crates/frp-game-server/src/app.rs:1535-1579 -/
def checkUserTunnel (k : Context) (l : Loop) (t : Tunnel) (d : Draws) :
    Except String (Tunnel × Loop × Draws) := do
  bailIf (idFormatOk t.id = false) "隧道 ID 格式不正确。"
  let named := renameTunnel t d
  let t := named.1
  bailIf (t.id ∈ l.tunnelIds ∨ t.proxyName ∈ l.proxyNames) ("隧道 ID 重复：" ++ String.ofList t.id)
  bailIf (t.remotePort ∈ k.reserved) ("远程端口 " ++ toString t.remotePort ++ " 是服务端保留端口。")
  bailIf (t.remotePort ∈ k.backendPorts)
    ("远程端口 " ++ toString t.remotePort ++ " 与 FRPS 本机后端端口冲突。")
  checkOthers t k.others
  let port ← k.backendFor l.usedPorts t.id
  return ({ t with backendPort := port.1 },
    { usedPorts := port.2, tunnelIds := t.id :: l.tunnelIds, proxyNames := t.proxyName :: l.proxyNames },
    named.2)

def checkUserTunnels (k : Context) :
    Loop → List Tunnel → Draws → Except String (List Tunnel × Draws)
  | _, [], d => .ok ([], d)
  | l, t :: ts, d => do
    let one ← checkUserTunnel k l t d
    let rest ← checkUserTunnels k one.2.1 ts one.2.2
    return (one.1 :: rest.1, rest.2)

/-- The users other than the one at the index. -/
def othersOf (c : ServerConfig) (userIndex : Nat) : List ServerUser := c.users.eraseIdx userIndex

def userContext (c : ServerConfig) (userIndex : Nat) (current : ServerUser) : Context where
  reserved := c.reserved
  backendPorts := c.tunnels.map (·.backendPort)
  existing := current.tunnels
  others := (othersOf c userIndex).flatMap fun u => u.tunnels.map fun t => (u.account, t)

/-- The ports a new backend port must avoid.
mirrors crates/frp-game-server/src/app.rs:1518-1531 -/
def usedPorts (c : ServerConfig) (current : ServerUser) (normalized : List Tunnel) : List Port :=
  normalized.map (·.remotePort) ++ (c.users.flatMap fun u => u.tunnels.flatMap fun t =>
    if u.id ≠ current.id then [t.backendPort, t.remotePort] else [t.backendPort]) ++ c.reserved

/-- mirrors crates/frp-game-server/src/app.rs:1493-1581; `config.users[user_index]`
is `current`. -/
def normalizeUserTunnels (c : ServerConfig) (userIndex : Nat) (current : ServerUser)
    (tunnels : List Tunnel) (d : Draws) : Except String (List Tunnel × Draws) := do
  bailIf (tunnels.length > current.tunnelLimit ∧ tunnels.length > current.tunnels.length)
    ("超出隧道数量限制：最多可创建 " ++ toString current.tunnelLimit ++ " 条隧道。")
  bailIf (tunnels.length > MAX_TUNNELS_PER_USER)
    ("隧道数量超过系统最大值 " ++ toString MAX_TUNNELS_PER_USER ++ "。")
  let normalized ← (normalizeTunnels tunnels d).mapError FrpGameError.text
  checkUserTunnels (userContext c userIndex current)
    { usedPorts := usedPorts c current normalized.1, tunnelIds := [], proxyNames := [] }
    normalized.1 normalized.2

/-! ## What one round of the loop establishes -/

theorem checkOthers_ok_iff {t : Tunnel} {others : List (Str × Tunnel)} {r : Unit} :
    checkOthers t others = .ok r ↔
      ∀ o ∈ others, o.2.publicKey ≠ t.publicKey ∧ o.2.proxyName ≠ t.proxyName := by
  induction others with
  | nil => simp [checkOthers]
  | cons o others ih =>
    obtain ⟨account, other⟩ := o
    simp only [checkOthers, checkOther, bind_eq_ok, bailIf_eq_ok, ih, List.forall_mem_cons,
      Tunnel.publicKey, ne_eq, Prod.mk.injEq]
    refine ⟨?_, ?_⟩
    · rintro ⟨_, ⟨_, h₁, h₂⟩, h₃⟩; exact ⟨⟨h₁, h₂⟩, h₃⟩
    · rintro ⟨⟨h₁, h₂⟩, h₃⟩; exact ⟨(), ⟨(), h₁, h₂⟩, h₃⟩

/-- Where a tunnel's backend port comes from. -/
inductive BackendFrom (k : Context) (used : List Port) (t : Tunnel) : Prop
  | kept (old : Tunnel) (hm : old ∈ k.existing) (hid : old.id = t.id)
      (hp : old.backendPort = t.backendPort)
  | fresh (hn : ∀ old ∈ k.existing, old.id ≠ t.id) (hu : t.backendPort ∉ used) (h0 : t.backendPort ≠ 0)

structure RoundOk (k : Context) (l : Loop) (t : Tunnel) : Prop where
  format : idFormatOk t.id = true
  name : NameFor t.id t.proxyName
  newId : t.id ∉ l.tunnelIds
  newName : t.proxyName ∉ l.proxyNames
  reserved : t.remotePort ∉ k.reserved
  notBackend : t.remotePort ∉ k.backendPorts
  others : ∀ o ∈ k.others, o.2.publicKey ≠ t.publicKey ∧ o.2.proxyName ≠ t.proxyName
  backend : BackendFrom k l.usedPorts t

theorem checkUserTunnel_ok {k : Context} {l : Loop} {t : Tunnel} {d : Draws}
    {r : Tunnel × Loop × Draws} (h : checkUserTunnel k l t d = .ok r) :
    RoundOk k l r.1 ∧ r.1 = { t with proxyName := r.1.proxyName, backendPort := r.1.backendPort } ∧
      r.2.1.tunnelIds = r.1.id :: l.tunnelIds ∧ r.2.1.proxyNames = r.1.proxyName :: l.proxyNames ∧
      (∀ p ∈ l.usedPorts, p ∈ r.2.1.usedPorts) ∧
      ((∀ old ∈ k.existing, old.id ≠ t.id) → r.1.backendPort ∈ r.2.1.usedPorts) := by
  unfold checkUserTunnel at h
  simp only [bailIf_bind_eq_ok] at h
  obtain ⟨hformat, hnew, hres, hback, h⟩ := h
  obtain ⟨_, hothers, h⟩ := bind_eq_ok.1 h
  obtain ⟨port, hport, h⟩ := bind_eq_ok.1 h
  cases h
  push Not at hnew
  have hothers' := checkOthers_ok_iff.1 hothers
  have hname := renameTunnel_nameFor t d
  unfold Context.backendFor at hport
  split at hport
  · rename_i p hp
    cases hport
    simp only [Context.existingBackend, Option.map_eq_some_iff] at hp
    obtain ⟨old, hfind, rfl⟩ := hp
    have hid := List.find?_some hfind
    rw [decide_eq_true_eq] at hid
    have hmem : old ∈ k.existing := by simpa using List.mem_of_find?_eq_some hfind
    exact ⟨⟨by simpa [renameTunnel] using hformat, hname, hnew.1, hnew.2, hres, hback, hothers',
      .kept old hmem hid rfl⟩, rfl, rfl, rfl, fun _ hp => hp, fun hn => absurd hid (hn old hmem)⟩
  · rename_i hp
    have hnone : ∀ old ∈ k.existing, old.id ≠ t.id := by
      intro old hold e
      simp only [Context.existingBackend, Option.map_eq_none_iff] at hp
      have := List.find?_eq_none.1 hp old (by simpa using hold)
      simp [renameTunnel, e] at this
    obtain ⟨hfresh, h0, hused⟩ := allocateBackendPort_ok hport
    exact ⟨⟨by simpa [renameTunnel] using hformat, hname, hnew.1, hnew.2, hres, hback, hothers',
      .fresh hnone hfresh h0⟩, rfl, rfl, rfl, fun p hp => by rw [hused]; exact List.mem_cons_of_mem _ hp,
      fun _ => by rw [hused]; exact List.mem_cons_self⟩

/-! ## What an accepted list satisfies -/

/-- The tunnel's id is not one of the stored list, so its backend port is new. -/
def IsNew (existing : List Tunnel) (t : Tunnel) : Prop := ∀ old ∈ existing, old.id ≠ t.id

structure LoopOk (k : Context) (l : Loop) (ts : List Tunnel) : Prop where
  format : ∀ t ∈ ts, idFormatOk t.id = true
  name : ∀ t ∈ ts, NameFor t.id t.proxyName
  ids : NewIn (ts.map (·.id)) l.tunnelIds
  names : NewIn (ts.map (·.proxyName)) l.proxyNames
  reserved : ∀ t ∈ ts, t.remotePort ∉ k.reserved
  notBackend : ∀ t ∈ ts, t.remotePort ∉ k.backendPorts
  others : ∀ t ∈ ts, ∀ o ∈ k.others, o.2.publicKey ≠ t.publicKey ∧ o.2.proxyName ≠ t.proxyName
  backend : ∀ t ∈ ts, BackendFrom k l.usedPorts t
  fresh : ts.Pairwise fun t u =>
    IsNew k.existing t → IsNew k.existing u → t.backendPort ≠ u.backendPort

theorem BackendFrom.mono {k : Context} {used used' : List Port} {t : Tunnel}
    (h : BackendFrom k used' t) (hsub : ∀ p ∈ used, p ∈ used') : BackendFrom k used t := by
  cases h with
  | kept old hm hid hp => exact .kept old hm hid hp
  | fresh hn hu h0 => exact .fresh hn (fun hp => hu (hsub _ hp)) h0

/-- The two lists differ in proxy names and backend ports at most. -/
def SameSubmitted (t u : Tunnel) : Prop :=
  u = { t with proxyName := u.proxyName, backendPort := u.backendPort }

theorem checkUserTunnels_ok {k : Context} {l : Loop} {ts : List Tunnel} {d : Draws}
    {r : List Tunnel × Draws} (h : checkUserTunnels k l ts d = .ok r) :
    LoopOk k l r.1 ∧ List.Forall₂ SameSubmitted ts r.1 := by
  induction ts generalizing l d r with
  | nil =>
    simp only [checkUserTunnels, Except.ok.injEq] at h
    subst h
    exact ⟨⟨by simp, by simp, newIn_nil _, newIn_nil _, by simp, by simp, by simp, by simp, .nil⟩, .nil⟩
  | cons t ts ih =>
    simp only [checkUserTunnels] at h
    obtain ⟨⟨t', l', d'⟩, hone, h⟩ := bind_eq_ok.1 h
    obtain ⟨⟨ts', d''⟩, hrest, h⟩ := bind_eq_ok.1 h
    cases h
    obtain ⟨h₁, hsame, hids, hnames, hmono, hnew⟩ := checkUserTunnel_ok hone
    simp only at h₁ hsame hids hnames hmono hnew
    obtain ⟨h₂, hsames⟩ := ih hrest
    simp only at h₂ hsames
    refine ⟨⟨?_, ?_, ?_, ?_, ?_, ?_, ?_, ?_, ?_⟩, .cons hsame hsames⟩
    · exact List.forall_mem_cons.2 ⟨h₁.format, h₂.format⟩
    · exact List.forall_mem_cons.2 ⟨h₁.name, h₂.name⟩
    · exact newIn_cons.2 ⟨h₁.newId, by rw [← hids]; exact h₂.ids⟩
    · exact newIn_cons.2 ⟨h₁.newName, by rw [← hnames]; exact h₂.names⟩
    · exact List.forall_mem_cons.2 ⟨h₁.reserved, h₂.reserved⟩
    · exact List.forall_mem_cons.2 ⟨h₁.notBackend, h₂.notBackend⟩
    · exact List.forall_mem_cons.2 ⟨h₁.others, h₂.others⟩
    · exact List.forall_mem_cons.2 ⟨h₁.backend, fun u hu => (h₂.backend u hu).mono hmono⟩
    · refine List.pairwise_cons.2 ⟨fun u hu ht hun => ?_, h₂.fresh⟩
      -- the later port avoids every port allocated before it
      have hid : t'.id = t.id := by rw [hsame]
      have hmem : t'.backendPort ∈ l'.usedPorts := hnew fun old ho => hid ▸ ht old ho
      cases h₂.backend u hu with
      | kept old hm hid' _ => exact absurd hid' (hun old hm)
      | fresh _ hu' _ => exact fun e => hu' (e ▸ hmem)

/-- **What `normalize_user_tunnels` guarantees of the list it returns.** -/
structure AcceptedFor (c : ServerConfig) (userIndex : Nat) (current : ServerUser)
    (ts : List Tunnel) : Prop where
  wellFormed : TunnelsOk ts
  limit : ts.length ≤ max current.tunnelLimit current.tunnels.length
  count : ts.length ≤ MAX_TUNNELS_PER_USER
  format : ∀ t ∈ ts, idFormatOk t.id = true
  name : ∀ t ∈ ts, NameFor t.id t.proxyName
  ids : (ts.map (·.id)).Nodup
  names : (ts.map (·.proxyName)).Nodup
  reserved : ∀ t ∈ ts, t.remotePort ∉ c.reserved
  notBackend : ∀ t ∈ ts, ∀ o ∈ c.tunnels, t.remotePort ≠ o.backendPort
  others : ∀ t ∈ ts, ∀ u ∈ othersOf c userIndex, ∀ o ∈ u.tunnels,
    o.publicKey ≠ t.publicKey ∧ o.proxyName ≠ t.proxyName
  backend : ∀ t ∈ ts, BackendFrom (userContext c userIndex current) (usedPorts c current ts) t
  fresh : ts.Pairwise fun t u =>
    IsNew current.tunnels t → IsNew current.tunnels u → t.backendPort ≠ u.backendPort

theorem SameSubmitted.tunnelOk {t u : Tunnel} (h : SameSubmitted t u) (hn : NameFor u.id u.proxyName)
    (ht : TunnelOk t) : TunnelOk u := by
  rw [h]
  obtain ⟨h₁, -, h₂, h₃, h₄, h₅, h₆⟩ := ht
  refine ⟨h₁, hn.not_blank, h₂, h₃, h₄, h₅, h₆⟩

theorem map_eq_of_sameSubmitted {α : Type} (f : Tunnel → α)
    (hf : ∀ (t : Tunnel) (n : Str) (p : Port), f { t with proxyName := n, backendPort := p } = f t)
    {ts us : List Tunnel} (h : List.Forall₂ SameSubmitted ts us) : us.map f = ts.map f := by
  induction h with
  | nil => rfl
  | cons h _ ih => rw [List.map_cons, List.map_cons, ih, h, hf]

theorem tunnelsOk_of_sameSubmitted {ts us : List Tunnel} (h : List.Forall₂ SameSubmitted ts us)
    (hn : ∀ u ∈ us, NameFor u.id u.proxyName) (hts : TunnelsOk ts) : TunnelsOk us where
  each := by
    have he := hts.each
    clear hts
    induction h with
    | nil => simp
    | cons h _ ih =>
      rw [List.forall_mem_cons] at hn he ⊢
      exact ⟨h.tunnelOk hn.1 he.1, ih hn.2 he.2⟩
  names := by rw [map_eq_of_sameSubmitted (·.name) (fun _ _ _ => rfl) h]; exact hts.names
  ports := by rw [map_eq_of_sameSubmitted Tunnel.publicKey (fun _ _ _ => rfl) h]; exact hts.ports

theorem normalizeUserTunnels_ok {c : ServerConfig} {userIndex : Nat} {current : ServerUser}
    {tunnels : List Tunnel} {d : Draws} {r : List Tunnel × Draws}
    (h : normalizeUserTunnels c userIndex current tunnels d = .ok r) :
    AcceptedFor c userIndex current r.1 := by
  unfold normalizeUserTunnels at h
  simp only [bailIf_bind_eq_ok] at h
  obtain ⟨hlimit, hcount, h⟩ := h
  obtain ⟨⟨ns, d₁⟩, hn, h⟩ := bind_eq_ok.1 h
  rw [mapError_eq_ok] at hn
  obtain ⟨hok, hlen⟩ := normalizeTunnels_wellFormed hn
  obtain ⟨hl, hsame⟩ := checkUserTunnels_ok h
  simp only at hl hsame
  have hports : usedPorts c current r.1 = usedPorts c current ns := by
    unfold usedPorts
    rw [map_eq_of_sameSubmitted (·.remotePort) (fun _ _ _ => rfl) hsame]
  refine ⟨tunnelsOk_of_sameSubmitted hsame hl.name hok, ?_, ?_, hl.format, hl.name, newIn_empty.1 hl.ids,
    newIn_empty.1 hl.names, hl.reserved, ?_, ?_, by rw [hports]; exact hl.backend, hl.fresh⟩
  · rw [← hsame.length_eq, hlen]; omega
  · rw [← hsame.length_eq, hlen]; omega
  · intro t ht o ho e
    exact hl.notBackend t ht (List.mem_map.2 ⟨o, ho, e.symm⟩)
  · intro t ht u hu o ho
    exact hl.others t ht (u.account, o)
      (List.mem_flatMap.2 ⟨u, hu, List.mem_map.2 ⟨o, ho, rfl⟩⟩)

end OrangeFrp.App
