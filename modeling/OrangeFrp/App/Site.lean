import OrangeFrp.App.Admin
import OrangeFrp.App.SaveTunnels
import OrangeFrp.Storage.Kept
import OrangeFrp.Controller.Accounting
import OrangeFrp.Core.LTS

/-!
# A site over its lifetime

The data directory, the administrators' commands with the configurations they
have read, and the serving process with its configuration in memory. Between the
read and the save of a command anything else may happen. A `tunnels` request is
one event: nothing is saved between its two saves, and its handler is not dropped
before it answers (`App.Service` takes it apart).

Nothing but a normalized configuration is ever written or taken into memory, so
every reachable state has well-formed configurations (`site_wellFormed`).

* `WellFormed`: what a configuration looks like, in terms of its own columns.
* `Site.step_kept`: every event of a site.
-/
namespace OrangeFrp.App

open OrangeFrp.Core OrangeFrp.Core.Table OrangeFrp.Storage OrangeFrp.Controller

/-- A well-formed configuration. -/
structure WellFormed (c : ServerConfig) : Prop where
  serverPorts : (∀ p ∈ c.reserved, p ≠ 0) ∧ c.reserved.Nodup
  accounts : ∀ u ∈ c.users, trim u.account = u.account ∧ u.account ≠ []
  accounts_distinct : (c.users.map (·.account)).Nodup
  ids_distinct : (c.users.map (·.id)).Nodup
  secrets : ∀ u ∈ c.users, u.secret.length = 36 ∧ u.secret.all Char.isAlphanum = true
  secrets_distinct : (c.users.map (·.secret)).Nodup
  tunnelIds : (c.tunnels.map (·.id)).Nodup
  proxyNames : (c.tunnels.map (·.proxyName)).Nodup
  publicPorts : (c.tunnels.map fun t => (t.protocol, t.remotePort)).Nodup
  backendPorts : (c.tunnels.map (·.backendPort)).Nodup
  protocols : ∀ t ∈ c.tunnels, t.protocol = tcp ∨ t.protocol = udp
  apart : ∀ t ∈ c.tunnels, t.remotePort ∉ c.reserved ∧ t.backendPort ∉ c.reserved ∧
    ∀ o ∈ c.tunnels, t.remotePort ≠ o.backendPort
  limit : ∀ u ∈ c.users, u.tunnels.length ≤ 256
  sorted : c.users.Pairwise fun u v => u.account ≤ v.account

theorem secret_length {s : Str} (hl : utf8Len s = 36) (ha : s.all Char.isAlphanum = true) :
    s.length = 36 := by
  have hsize : ∀ c ∈ s, c.utf8Size = 1 := by
    intro c hc
    have hn := List.all_eq_true.1 ha c hc
    rw [isAlphanum_iff] at hn
    rw [Char.utf8Size, if_pos]
    rw [UInt32.le_iff_toNat_le]
    show c.toNat ≤ 127
    omega
  have hsum : (s.map fun c => c.utf8Size).sum = s.length := by
    rw [List.map_congr_left hsize, List.map_const', List.sum_replicate_nat, Nat.mul_one]
  rw [← hsum]
  exact hl

/-- Every normalized configuration is well-formed. -/
theorem valid_wellFormed {P : Primitives} {c : ServerConfig} (h : Valid P c) : WellFormed c := by
  obtain ⟨⟨h₁, h₂, h₃⟩, ⟨h₄, h₅, h₆⟩, -⟩ := checkSettings_ok P h.settings
  have hd := h.distinct
  refine ⟨⟨?_, ?_⟩, fun u hu => ⟨(h.users u hu).account_trim, (h.users u hu).account_ne⟩,
    newIn_empty.1 hd.accounts, newIn_empty.1 hd.ids, fun u hu => ⟨secret_length
      (h.users u hu).secret_length (h.users u hu).secret_alnum, (h.users u hu).secret_alnum⟩,
    newIn_empty.1 hd.secrets, newIn_empty.1 hd.tunnels.ids, newIn_empty.1 hd.tunnels.names,
    newIn_empty.1 hd.tunnels.publicPorts, newIn_empty.1 hd.tunnels.backendPorts, h.protocols,
    fun t ht => ⟨hd.tunnels.remote t ht, (hd.tunnels.backend t ht).2, h.disjoint t ht⟩,
    fun u hu => (h.users u hu).count, h.sorted⟩
  · simp [ServerConfig.reserved, h₁, h₂, h₃]
  · simp [ServerConfig.reserved, h₄, h₅, h₆]

section
variable {P : Primitives}

/-- **The stored configuration is well-formed.** -/
theorem kept_wellFormed {db : Db} {c : ServerConfig} (hk : Kept P db) (hl : loadConfig db = .ok c) :
    WellFormed c := by
  obtain ⟨c₀, hv, h⟩ := hk.loaded hl
  have hw := valid_wellFormed hv
  have hres : c.reserved = c₀.reserved := congrArg
    (fun s : SettingsRow => [s.apiPort, s.frpsBindPort, s.pluginPort]) h.settings
  have hts := h.tunnels
  refine ⟨hres ▸ hw.serverPorts, fun u hu => ?_,
    (h.column (·.account)).nodup_iff.2 hw.accounts_distinct,
    (h.column (·.id)).nodup_iff.2 hw.ids_distinct, fun u hu => ?_,
    (h.column (·.secret)).nodup_iff.2 hw.secrets_distinct,
    (hts.map _).nodup_iff.2 hw.tunnelIds, (hts.map _).nodup_iff.2 hw.proxyNames,
    (hts.map _).nodup_iff.2 hw.publicPorts, (hts.map _).nodup_iff.2 hw.backendPorts,
    fun t ht => hw.protocols t (hts.mem_iff.1 ht), fun t ht => ?_, fun u hu => ?_, h.sorted⟩
  · obtain ⟨v, hv', he, -⟩ := h.users u hu
    have hacc : u.account = v.account := congrArg UserRow.account he
    rw [hacc]
    exact hw.accounts v hv'
  · obtain ⟨v, hv', he, -⟩ := h.users u hu
    have hsec : u.secret = v.secret := congrArg UserRow.secret he
    rw [hsec]
    exact hw.secrets v hv'
  · obtain ⟨h₁, h₂, h₃⟩ := hw.apart t (hts.mem_iff.1 ht)
    exact ⟨hres ▸ h₁, hres ▸ h₂, fun o ho => h₃ o (hts.mem_iff.1 ho)⟩
  · obtain ⟨v, hv', -, ht⟩ := h.users u hu
    rw [ht.length_eq]
    exact hw.limit v hv'

/-- Every spec that `start_task` can meet has one of the two protocols. -/
theorem WellFormed.startable {c : ServerConfig} (h : WellFormed c) {w : World} (ho : w.Orders c) :
    ∀ s ∈ w.order, s.protocol = tcp ∨ s.protocol = udp := by
  intro s hs
  obtain ⟨u, hu, t, ht, rfl⟩ := mem_specs.1 ((mem_order h.proxyNames ho s).1 hs)
  exact h.protocols t (List.mem_flatMap.2 ⟨u, hu, ht⟩)

end

/-! ## The site -/

/-- The state of the serving process. -/
structure Process (τ : Type) where
  config : ServerConfig
  controller : Option (TrafficController τ)

structure Site (τ : Type) where
  disk : Disk
  /-- what the commands under way have read -/
  commands : List ServerConfig
  server : Option (Process τ)

/-- What can happen on a site. -/
inductive SiteEvent where
  | initializeStore (e : Entropy)
  | create (new : NewServer) (now : Int) (e : Entropy)
  | commandRead (e : Entropy)
  | commandSave (position : Nat) (command : Command) (now : Int) (drawn e : Entropy)
  | serve (apiOnly : Bool) (world : World) (e : Entropy)
  | request (userIndex : Nat) (action : Action) (env : Env)
  | flush (pending : Pending) (e : Entropy)
  | stop

section
variable {τ : Type} [Double τ] (P : Primitives)

/-- The start of the service.
mirrors crates/frp-game-server/src/app.rs:2072-2093 -/
def commandServe (apiOnly : Bool) (c : ServerConfig) (world : World) : Option (Process τ) :=
  if apiOnly then some ⟨c, none⟩
  else
    match (TrafficController.new c world.now).reconcile c world with
    | (k, .ok ()) => some ⟨c, some k⟩
    | (_, .error _) => none

/-- The system after an event; an event that cannot happen leads nowhere. -/
def Site.step (s : Site τ) : SiteEvent → Option (Site τ)
  | .initializeStore e =>
    match initializeStore P s.disk e with
    | .ok (disk, _) => some { s with disk := disk }
    | .error _ => some s
  | .create new now e => some { s with disk := (create P s.disk (newConfig new now) e).1 }
  | .commandRead e =>
    match Storage.read P s.disk e with
    | (disk, .ok (c, _)) => some { s with disk := disk, commands := c :: s.commands }
    | (disk, .error _) => some { s with disk := disk }
  | .commandSave position command now drawn e => do
    let c ← s.commands[position]?
    let s := { s with commands := s.commands.eraseIdx position }
    match Command.apply P c now drawn command with
    | .error _ => some s
    | .ok c => some { s with disk := (save P s.disk c e).1 }
  | .serve apiOnly world e =>
    if s.server.isSome then none
    else
      match Storage.read P s.disk e with
      | (disk, .ok (c, _)) => some { s with disk := disk, server := commandServe apiOnly c world }
      | (disk, .error _) => some { s with disk := disk }
  | .request userIndex action env => do
    let server ← s.server
    let current ← server.config.users[userIndex]?
    let t := (tunnelsRequest P ⟨s.disk, server.config, server.controller⟩ userIndex current action env).1
    some { s with disk := t.disk, server := some ⟨t.config, t.controller⟩ }
  | .flush pending e => do
    let server ← s.server
    let t := flushPending P s.disk server.config pending e
    some { s with disk := t.1, server := some { server with config := t.2.1 } }
  | .stop => some { s with server := none }

/-- A site starts with a database that holds no configuration. -/
def site : LTS (Site τ) SiteEvent :=
  .ofFn (fun s => s.disk.db.settings = none ∧ s.commands = [] ∧ s.server = none) (Site.step P)

end

/-! ## What every step keeps -/

section
variable {τ : Type} [Double τ] {P : Primitives}

structure SiteKept (P : Primitives) (s : Site τ) : Prop where
  disk : Kept P s.disk.db
  server : ∀ p, s.server = some p → Valid P p.config

theorem rollback_kept {s : Server τ} {disk : Disk} {stored : ServerConfig} {k : TrafficController τ}
    {error : String} {env : Env} (hk : Kept P disk.db) (hv : Valid P s.config) :
    Kept P (rollback P s disk stored k error env).1.disk.db ∧
      Valid P (rollback P s disk stored k error env).1.config := by
  unfold rollback
  dsimp only
  split
  · rename_i disk' original e' hs
    exact ⟨(save_kept hk hs).1, (save_kept hk hs).2 original e' rfl⟩
  · rename_i disk' error' hs
    exact ⟨(save_kept hk hs).1, hv⟩

theorem saveTunnels_kept {s : Server τ} {i : Nat} {a : ServerUser} {env : Env}
    (submitted : Option (List Tunnel)) (hk : Kept P s.disk.db) (hv : Valid P s.config) :
    Kept P (saveTunnels P s i a submitted env).1.disk.db ∧
      Valid P (saveTunnels P s i a submitted env).1.config := by
  rcases @saveTunnels_cases τ _ P s i a env submitted with
    h | ⟨ts, disk, error, -, hs, h⟩ | ⟨ts, disk, stored, ⟨-, e', hs⟩, h, -⟩ |
      ⟨ts, disk, stored, k, error, ⟨-, e', hs⟩, -, -, h⟩
  · rw [h]; exact ⟨hk, hv⟩
  · rw [h]; exact ⟨(save_kept hk hs).1, hv⟩
  · rw [h]; exact ⟨(save_kept hk hs).1, (save_kept hk hs).2 stored e' rfl⟩
  · rw [h]; exact rollback_kept (save_kept hk hs).1 hv

theorem tunnelsRequest_kept {s : Server τ} {i : Nat} {a : ServerUser} {env : Env} (action : Action)
    (hk : Kept P s.disk.db) (hv : Valid P s.config) :
    Kept P (tunnelsRequest P s i a action env).1.disk.db ∧
      Valid P (tunnelsRequest P s i a action env).1.config := by
  cases action with
  | list => exact ⟨hk, hv⟩
  | save submitted => exact saveTunnels_kept submitted hk hv
  | unknown => exact ⟨hk, hv⟩

theorem flushPending_kept {disk : Disk} {c : ServerConfig} (pending : Pending) (e : Entropy)
    (hk : Kept P disk.db) (hv : Valid P c) :
    Kept P (flushPending P disk c pending e).1.db ∧ Valid P (flushPending P disk c pending e).2.1 := by
  rcases flushPending_cases (P := P) disk c pending e with
    ⟨-, h⟩ | ⟨disk', error, hs, h⟩ | ⟨disk', stored, e', -, hs, h⟩
  · rw [h]; exact ⟨hk, hv⟩
  · rw [h]; exact ⟨(save_kept hk hs).1, hv⟩
  · rw [h]; exact ⟨(save_kept hk hs).1, (save_kept hk hs).2 stored e' rfl⟩

theorem commandServe_config {apiOnly : Bool} {c : ServerConfig} {world : World} {p : Process τ}
    (h : commandServe apiOnly c world = some p) : p.config = c := by
  unfold commandServe at h
  split at h
  · cases h; rfl
  split at h
  · cases h; rfl
  · cases h

/-- **Every event keeps it.** -/
theorem Site.step_kept {s t : Site τ} {l : SiteEvent} (h : SiteKept P s)
    (hst : Site.step P s l = some t) : SiteKept P t := by
  cases l with
  | initializeStore e =>
    simp only [Site.step] at hst
    split at hst
    · rename_i disk e' hi
      cases hst
      exact ⟨initialize_kept h.disk hi, h.server⟩
    · cases hst; exact h
  | create new now e =>
    cases hst
    exact ⟨create_kept h.disk, h.server⟩
  | commandRead e =>
    simp only [Site.step] at hst
    split at hst
    · rename_i disk c e' hr
      cases hst
      exact ⟨(read_kept h.disk hr).1, h.server⟩
    · rename_i disk error hr
      cases hst
      exact ⟨(read_kept h.disk hr).1, h.server⟩
  | commandSave position command now drawn e =>
    obtain ⟨c, -, hst⟩ := Option.bind_eq_some_iff.1 hst
    dsimp only at hst
    split at hst
    · cases hst; exact ⟨h.disk, h.server⟩
    · rename_i c' _
      cases hst
      exact ⟨(save_kept h.disk (r := (save P s.disk c' e).2) rfl).1, h.server⟩
  | serve apiOnly world e =>
    simp only [Site.step] at hst
    split at hst
    · cases hst
    split at hst
    · rename_i disk c e' hr
      cases hst
      refine ⟨(read_kept h.disk hr).1, fun p hp => ?_⟩
      rw [commandServe_config hp]
      exact (read_kept h.disk hr).2 c e' rfl
    · rename_i disk error hr
      cases hst
      exact ⟨(read_kept h.disk hr).1, h.server⟩
  | request userIndex action env =>
    obtain ⟨server, hserver, hst⟩ := Option.bind_eq_some_iff.1 hst
    obtain ⟨current, -, hst⟩ := Option.bind_eq_some_iff.1 hst
    cases hst
    obtain ⟨hd, hv⟩ := @tunnelsRequest_kept τ _ P ⟨s.disk, server.config, server.controller⟩
      userIndex current env action h.disk (h.server server hserver)
    exact ⟨hd, fun p hp => by cases hp; exact hv⟩
  | flush pending e =>
    obtain ⟨server, hserver, hst⟩ := Option.bind_eq_some_iff.1 hst
    cases hst
    obtain ⟨hd, hv⟩ := flushPending_kept pending e h.disk (h.server server hserver)
    exact ⟨hd, fun p hp => by cases hp; exact hv⟩
  | stop =>
    cases hst
    exact ⟨h.disk, fun p hp => by cases hp⟩

theorem site_inductive : (site P : LTS (Site τ) SiteEvent).Inductive (SiteKept P) where
  init := fun _ ⟨hd, _, hs⟩ => ⟨.inl hd, fun p hp => by rw [hs] at hp; cases hp⟩
  step := fun _ _ _ hi hst => Site.step_kept hi hst

/-- **Every reachable configuration is well-formed**, the stored one and the one in
memory. -/
theorem site_wellFormed {s : Site τ} (h : (site P).Reachable s) :
    (∀ c, loadConfig s.disk.db = .ok c → WellFormed c) ∧
      ∀ p, s.server = some p → WellFormed p.config ∧
        ∀ w : World, w.Orders p.config → ∀ spec ∈ w.order, spec.protocol = tcp ∨ spec.protocol = udp := by
  have hk := site_inductive.reachable s h
  refine ⟨fun c hl => kept_wellFormed hk.disk hl, fun p hp => ?_⟩
  have hw := valid_wellFormed (hk.server p hp)
  exact ⟨hw, fun w ho => hw.startable ho⟩

end

/-! ## A first day -/

def emptyWorld : World := ⟨0, [], fun _ => true⟩

/-- An installation, a user, the service, and a tunnel of the user. -/
def firstDay : List SiteEvent := [
  .create ⟨['h'], API_PORT, FRPS_PORT, ['f'], List.replicate 32 's', ['t']⟩ 1 zeros,
  .commandRead zeros,
  .commandSave 0 (.addUser ⟨[' ', 'a'], "password".toList, 0, 0, 5, List.replicate 36 'x'⟩) 2 zeros zeros,
  .serve true emptyWorld zeros,
  .request 0 (.save (some [sampleTunnel ['x'] 5 0])) ⟨3, .constant, zeros, zeros, emptyWorld, emptyWorld⟩]

def afterFirstDay : Option (Site Rat) :=
  LTS.exec (Site.step Primitives.copying) ⟨⟨Db.empty, none, []⟩, [], none⟩ firstDay

theorem firstDay_wellFormed : ∃ s c p, afterFirstDay = some s ∧ loadConfig s.disk.db = .ok c ∧
    s.server = some p ∧ c.tunnels.length = 1 ∧ WellFormed c ∧ WellFormed p.config := by
  have hsome : (afterFirstDay.bind fun s => s.server.bind fun _ =>
      (loadConfig s.disk.db).toOption.map (·.tunnels.length)) = some 1 := by decide +kernel
  obtain ⟨s, hs, hsome⟩ := Option.bind_eq_some_iff.1 hsome
  obtain ⟨p, hp, hsome⟩ := Option.bind_eq_some_iff.1 hsome
  obtain ⟨c, hc, hone⟩ := Option.map_eq_some_iff.1 hsome
  have hl : loadConfig s.disk.db = .ok c := by
    cases h : loadConfig s.disk.db with
    | error error => rw [h] at hc; cases hc
    | ok c' => rw [h] at hc; cases hc; rfl
  have h := site_wellFormed (P := Primitives.copying) ⟨_, firstDay, ⟨rfl, rfl, rfl⟩, LTS.run_of_exec hs⟩
  exact ⟨s, c, p, hs, hl, hp, hone, h.1 c hl, (h.2 p hp).1⟩

end OrangeFrp.App
