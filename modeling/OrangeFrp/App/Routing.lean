import OrangeFrp.App.Isolation
import OrangeFrp.App.Ledger
import OrangeFrp.App.Plugin
import OrangeFrp.App.Site

/-!
# Who pays for a proxy (`frp-game-server/src/app.rs`, `frp-game-server/src/controller.rs`)

frps attaches a proxy to the port that the plugin accepts, and the public listener whose
backend port this is relays to it, through the gate of the user in its spec. The plugin reads
the configuration in memory; the listeners are those of the last configuration that
`reconcile` was called with. The two are the same but for a save that could not be rolled
back, which leaves listeners of a configuration that memory does not have.

* `reconcile_routes`: what a call makes of listeners and gates.
* `Site.step_routed`: every event of a site.
* `proxy_routed`: whatever listener has the port of an accepted proxy, it is paid for by the
  user who was accepted.
-/
namespace OrangeFrp.App

open OrangeFrp.Core OrangeFrp.Storage OrangeFrp.Controller

/-! ## Owners of backend ports -/

/-- The user with the id has a tunnel with the backend port. -/
def Owns (c : ServerConfig) (userId : Str) (port : Port) : Prop :=
  ∃ u ∈ c.users, u.id = userId ∧ ∃ t ∈ u.tunnels, t.backendPort = port

/-- What a gate takes from a user. -/
def limitsOf (u : ServerUser) : Str × Nat × Nat := (u.id, u.trafficLimitBytes, u.speedLimitMbps)

/-- Two configurations with the same users and limits, in which no port changes hands. -/
structure Compatible (c₀ c : ServerConfig) : Prop where
  limits : c₀.users.map limitsOf = c.users.map limitsOf
  reserved : c₀.reserved = c.reserved
  owners : ∀ userId userId' port, Owns c₀ userId port → Owns c userId' port → userId = userId'

section
variable {P : Primitives} {c c' : ServerConfig}

theorem Owns.unique (hv : Valid P c) {userId userId' : Str} {port : Port} (h : Owns c userId port)
    (h' : Owns c userId' port) : userId = userId' := by
  obtain ⟨u, hu, rfl, t, ht, hp⟩ := h
  obtain ⟨v, hv', rfl, o, ho, hp'⟩ := h'
  have hto : t = o := eq_of_tunnel_column (newIn_empty.1 hv.distinct.tunnels.backendPorts)
    (mem_tunnels hu ht) (mem_tunnels hv' ho) (hp.trans hp'.symm)
  rw [owner_unique hv hu hv' ht (hto ▸ ho)]

theorem Compatible.refl (hv : Valid P c) : Compatible c c :=
  ⟨rfl, rfl, fun _ _ _ h h' => h.unique hv h'⟩

/-- Renaming gives no port away. -/
theorem owns_of_sameNames (h : List.Forall₂ SameButNames c.users c'.users) {userId : Str} {port : Port}
    (ho : Owns c' userId port) : Owns c userId port := by
  obtain ⟨v, hv, rfl, t, ht, rfl⟩ := ho
  obtain ⟨u, hu, hid, o, ho, hot⟩ := mem_of_sameButNames h hv ht
  exact ⟨u, hu, hid, o, ho, hot.backendPort_eq.symm⟩

theorem limits_of_sameNames (h : List.Forall₂ SameButNames c.users c'.users) :
    c'.users.map limitsOf = c.users.map limitsOf :=
  map_eq_of_sameButNames limitsOf (fun _ _ => rfl) h

theorem reserved_saved {disk disk' : Disk} {e e' : Entropy} (h : save P disk c e = (disk', .ok (c', e'))) :
    c'.reserved = c.reserved := by
  obtain ⟨disk₁, e₁, hs⟩ := save_saved h
  obtain ⟨c₁, hn, rfl⟩ := hs.normalized
  have hc₁ : c₁ = { c with users := c₁.users } := (normalize_valid P hn).2
  rw [hc₁]
  rfl

/-- An accepted list takes no port of another user. -/
theorem owns_candidate (hv : Valid P c) {i : Nat} {pre post : List ServerUser} {a : ServerUser} {ts : List Tunnel}
    {now : Int} (hat : At c i pre a post) (ha : AcceptedFor c i a ts) {userId userId' : Str} {port : Port}
    (h₀ : Owns (candidate c i a ts now) userId port) (h : Owns c userId' port) : userId = userId' := by
  obtain ⟨u, hu, rfl, t, ht, hp⟩ := h₀
  rcases (mem_candidate_users now hat).1 hu with rfl | hu
  · -- her own tunnel, old or new
    obtain ⟨v, hv', rfl, o, ho, hp'⟩ := h
    by_contra hne
    have hoa : o ∉ a.tunnels := fun hoa => hne (by rw [← owner_unique hv hat.mem hv' hoa ho]; rfl)
    exact (accepted_backend hv hat ha).2.1 t ht o (mem_tunnels hv' ho) (.inr hoa) (hp.trans hp'.symm)
  · exact Owns.unique hv ⟨u, hat.mem_other hu, rfl, t, ht, hp⟩ h

theorem compatible_candidate (hv : Valid P c) {i : Nat} {pre post : List ServerUser} {a : ServerUser}
    {ts : List Tunnel} {now : Int} (hat : At c i pre a post) (ha : AcceptedFor c i a ts) {disk disk' : Disk}
    {e e' : Entropy} (h : save P disk (candidate c i a ts now) e = (disk', .ok (c', e'))) : Compatible c' c where
  limits := (limits_of_sameNames (candidate_sameNames hv hat ha h)).trans (candidate_column now hat limitsOf rfl)
  reserved := (reserved_saved h).trans rfl
  owners _ _ _ h₀ h₁ := owns_candidate hv hat ha (owns_of_sameNames (candidate_sameNames hv hat ha h) h₀) h₁

end

/-! ## Listeners and gates -/

section
variable {τ : Type} [Double τ] {k : TrafficController τ} {c c' : ServerConfig}

/-- Every listener has the gate of the user in its spec. -/
def TasksGated (k : TrafficController τ) : Prop :=
  ∀ key task, k.tasks.lookup key = some task → k.gates.lookup task.spec.userId = some task.gate

omit [Double τ] in
theorem startTasks_gated {bind : TunnelSpec → Bool} {order : List TunnelSpec} (h : TasksGated k) :
    TasksGated (startTasks bind k order).1 := by
  induction order generalizing k with
  | nil => exact h
  | cons spec order ih =>
    unfold startTasks
    split
    · exact ih h
    split
    · exact h
    rename_i gate hgate
    cases hs : startTask k bind spec gate with
    | error error => exact h
    | ok k' =>
      have hk' := startTask_ok hs
      subst hk'
      refine ih fun key task hl => ?_
      by_cases hkey : key = spec.proxyName
      · subst hkey
        rw [AList.lookup_insert] at hl
        cases hl
        exact hgate
      · rw [AList.lookup_insert_ne hkey] at hl
        exact h key task hl

/-- The configuration that the listeners are from, and the gates of the one in memory. -/
structure Routed (P : Primitives) (c : ServerConfig) (k : TrafficController τ) : Prop where
  served : ∃ c₀, Valid P c₀ ∧ Compatible c₀ c ∧
    ∀ key task, k.tasks.lookup key = some task → (desired c₀).lookup key = some task.spec
  gates : GatesCurrent k c
  gated : TasksGated k

/-- **What a call makes of the listeners**, whether it gets to its end or not. -/
theorem reconcile_routes {P : Primitives} {w : World} (hg : GatesCurrent k c') (ht : TasksGated k)
    (hv : Valid P c') (ho : w.Orders c') {c : ServerConfig} (hc : Compatible c' c) :
    Routed P c (k.reconcile c' w).1 := by
  have hn := newIn_empty.1 hv.distinct.tunnels.names
  obtain ⟨hgates, hheap⟩ := reconcile_gates (k := k) (c := c') (w := w)
  rw [reconcileGates_same hg] at hgates hheap
  refine ⟨⟨c', hv, hc, fun key task hl => reconcile_origin hn ho hl⟩, hg.congr hgates hheap hc.limits.symm, ?_⟩
  refine startTasks_gated fun key task hl => ?_
  obtain ⟨hl, -⟩ := stopTasks_lookup.1 hl
  show (k.reconcileGates c' w.now).gates.lookup task.spec.userId = some task.gate
  rw [reconcileGates_same hg] at hl ⊢
  exact ht key task hl

end

/-! ## The site -/

section
variable {τ : Type} [Double τ] (P : Primitives)

/-- Whatever a step reconciles with, its maps come in one of their orders. -/
def InOrder (s : Site τ) : SiteEvent → Prop
  | .serve apiOnly world e => apiOnly = false →
      ∀ disk c e', Storage.read P s.disk e = (disk, .ok (c, e')) → world.Orders c
  | .request i action env => ∀ p a ts disk stored, s.server = some p → p.controller.isSome →
      p.config.users[i]? = some a → StoredBy P ⟨s.disk, p.config, p.controller⟩ i a action env ts disk stored →
        env.firstWorld.Orders stored ∧ ∀ disk' original e',
          save P disk { p.config with revision := stored.revision } env.second = (disk', .ok (original, e')) →
            env.secondWorld.Orders original
  | _ => True

end

section
variable {τ : Type} [Double τ] {P : Primitives}

def Site.Routed (P : Primitives) (s : Site τ) : Prop :=
  ∀ p k, s.server = some p → p.controller = some k → App.Routed P p.config k

theorem commandServe_routed {apiOnly : Bool} {c : ServerConfig} {world : World} {p : Process τ} (hv : Valid P c)
    (ho : apiOnly = false → world.Orders c) (h : commandServe apiOnly c world = some p) {k : TrafficController τ}
    (hk : p.controller = some k) : Routed P p.config k := by
  unfold commandServe at h
  split at h
  · cases h
    cases hk
  rename_i hfull
  split at h
  · rename_i k' hr
    cases h
    cases hk
    have hids := newIn_empty.1 hv.distinct.ids
    have hempty : TasksGated (TrafficController.new c world.now : TrafficController τ) := by
      intro key task hl
      rw [TrafficController.new, (foldl_allocate world.now hids _).2.2.1] at hl
      cases hl
    have hroutes := reconcile_routes (new_gatesCurrent hids world.now) hempty hv
      (ho (Bool.eq_false_iff.2 hfull)) (.refl hv)
    rw [hr] at hroutes
    exact hroutes
  · cases h

omit [Double τ] in
theorem flushPending_routed {disk : Disk} {c : ServerConfig} {k : TrafficController τ} (pending : Pending)
    (e : Entropy) (hv : Valid P c) (h : Routed P c k) : Routed P (flushPending P disk c pending e).2.1 k := by
  rcases flushPending_cases (P := P) disk c pending e with
    ⟨-, hf⟩ | ⟨disk', error, -, hf⟩ | ⟨disk', stored, e', -, hsave, hf⟩ <;> rw [hf]
  · exact h
  · exact h
  · obtain ⟨c₀, hv₀, hc, htasks⟩ := h.served
    have hnames := accounted_sameNames hv hsave
    have hlimits : stored.users.map limitsOf = c.users.map limitsOf :=
      (limits_of_sameNames hnames).trans (accounted_column limitsOf (fun _ _ _ => rfl) c pending)
    -- the accounted users have the tunnels they had
    have howns : ∀ userId port, Owns stored userId port → Owns c userId port := by
      intro userId port ho
      obtain ⟨v, hv', hid, t, ht, hp⟩ := owns_of_sameNames hnames ho
      obtain ⟨u, hu, rfl⟩ := List.mem_map.1 hv'
      rw [accountUser_fields] at hid ht
      exact ⟨u, hu, hid, t, ht, hp⟩
    exact ⟨⟨c₀, hv₀, ⟨hc.limits.trans hlimits.symm, hc.reserved.trans (reserved_saved hsave).symm,
      fun userId userId' port h₀ h₁ => hc.owners userId userId' port h₀ (howns _ _ h₁)⟩, htasks⟩,
      h.gates.congr rfl rfl hlimits, h.gated⟩

theorem request_routed {s : Server τ} {i : Nat} {a : ServerUser} {action : Action} {env : Env}
    (hv : Valid P s.config) (hi : s.config.users[i]? = some a)
    (ho : s.controller.isSome → ∀ ts disk stored, StoredBy P s i a action env ts disk stored →
      env.firstWorld.Orders stored ∧ ∀ disk' original e',
        save P disk { s.config with revision := stored.revision } env.second = (disk', .ok (original, e')) →
          env.secondWorld.Orders original)
    (h : ∀ k, s.controller = some k → Routed P s.config k) :
    ∀ k, (tunnelsRequest P s i a action env).1.controller = some k →
      Routed P (tunnelsRequest P s i a action env).1.config k := by
  obtain ⟨pre, post, hat⟩ := exists_at hi
  -- what is stored has the users and limits of memory
  have hstored : ∀ {ts disk stored}, StoredBy P s i a action env ts disk stored →
      Valid P stored ∧ Compatible stored s.config := by
    intro ts disk stored hst
    obtain ⟨tunnels, d, -, hnormal⟩ := hst.accepted
    obtain ⟨e, hsave⟩ := hst.saved
    exact ⟨save_valid hsave, compatible_candidate hv hat (normalizeUserTunnels_ok hnormal) hsave⟩
  have hfirst : ∀ {ts disk stored k}, StoredBy P s i a action env ts disk stored → s.controller = some k →
      ∀ {c}, Compatible stored c → Routed P c (k.reconcile stored env.firstWorld).1 := by
    intro ts disk stored k hst hk c hc
    obtain ⟨hv', hcompat⟩ := hstored hst
    exact reconcile_routes ((h k hk).gates.congr rfl rfl hcompat.limits) (h k hk).gated hv'
      (ho (Option.isSome_iff_exists.2 ⟨k, hk⟩) _ _ _ hst).1 hc
  rcases @ending_cases τ _ P s i a env action with
    ⟨-, disk, -, hs⟩ | ⟨ts, disk, stored, -, hst, hs⟩ | ⟨ts, disk, stored, k, disk', original, e', -, hst, hk, hback, hs⟩ |
      ⟨ts, disk, stored, k, disk', error, -, hst, hk, -, hs⟩ <;> rw [hs] <;> intro k' hk'
  · exact h k' hk'
  · obtain ⟨k, hk, rfl⟩ := Option.map_eq_some_iff.1 hk'
    exact hfirst hst hk (.refl (hstored hst).1)
  · cases hk'
    have hr := hfirst hst hk (hstored hst).2
    have hv' := save_valid hback
    have hnames := (original_replaces hv hback).2
    exact reconcile_routes (hr.gates.congr rfl rfl (limits_of_sameNames hnames)) hr.gated hv'
      ((ho (Option.isSome_iff_exists.2 ⟨k, hk⟩) _ _ _ hst).2 _ _ _ hback) (.refl hv')
  · cases hk'
    exact hfirst hst hk (hstored hst).2

/-- **Every event of a site** keeps the listeners with their users. -/
theorem Site.step_routed {s t : Site τ} {l : SiteEvent} (hkept : SiteKept P s) (h : s.Routed P)
    (hst : Site.step P s l = some t) (ho : InOrder P s l) : t.Routed P := by
  cases l with
  | initializeStore e =>
    simp only [Site.step] at hst
    split at hst <;> cases hst <;> exact h
  | create new now e => cases hst; exact h
  | commandRead e =>
    simp only [Site.step] at hst
    split at hst <;> cases hst <;> exact h
  | commandSave position command now drawn e =>
    obtain ⟨c, -, hst⟩ := Option.bind_eq_some_iff.1 hst
    dsimp only at hst
    split at hst <;> cases hst <;> exact h
  | serve apiOnly world e =>
    simp only [Site.step] at hst
    split at hst
    · cases hst
    split at hst
    · rename_i disk c e' hr
      cases hst
      intro p k hp hk
      exact commandServe_routed ((read_kept hkept.disk hr).2 c e' rfl) (fun hfull => ho hfull disk c e' hr) hp hk
    · cases hst
      exact h
  | request i action env =>
    obtain ⟨p, hp, hst⟩ := Option.bind_eq_some_iff.1 hst
    obtain ⟨a, hi, hst⟩ := Option.bind_eq_some_iff.1 hst
    cases hst
    intro p' k hp' hk
    cases hp'
    exact request_routed (s := ⟨s.disk, p.config, p.controller⟩) (hkept.server p hp) hi
      (fun hsome ts disk stored hst => ho p a ts disk stored hp hsome hi hst) (fun k hk => h p k hp hk) k hk
  | flush pending e =>
    obtain ⟨p, hp, hst⟩ := Option.bind_eq_some_iff.1 hst
    cases hst
    intro p' k hp' hk
    cases hp'
    exact flushPending_routed pending e (hkept.server p hp) (h p k hp hk)
  | stop =>
    cases hst
    exact fun p k hp => by cases hp

theorem routed_inductive : ((site P : LTS (Site τ) SiteEvent).restrict (InOrder P)).Inductive
    fun s => SiteKept P s ∧ s.Routed P where
  init s h := ⟨site_inductive.init s h, fun p k hp => by rw [h.2.2] at hp; cases hp⟩
  step _ _ _ h hst := ⟨Site.step_kept h.1 hst.1, Site.step_routed h.1 h.2 hst.1 hst.2⟩

omit [Double τ] in
/-- What stands behind a listener. -/
theorem Routed.listener {c : ServerConfig} {k : TrafficController τ} (h : Routed P c k) {key : Str}
    {task : ControllerTask} (ht : k.tasks.lookup key = some task) :
    ∃ u ∈ c.users, task.spec.userId = u.id ∧ k.gates.lookup u.id = some task.gate ∧
      ∃ g, k.heap[task.gate]? = some g ∧ g.limitBytes = u.trafficLimitBytes ∧
        g.bytesPerSecond = speedBytesPerSecond u.speedLimitMbps := by
  obtain ⟨c₀, hv₀, hc, htasks⟩ := h.served
  obtain ⟨hs, -⟩ := (lookup_desired (newIn_empty.1 hv₀.distinct.tunnels.names) key task.spec).1 (htasks key task ht)
  obtain ⟨u₀, hu₀, t₀, ht₀, hspec⟩ := mem_specs.1 hs
  have hmem : limitsOf u₀ ∈ c.users.map limitsOf := by
    rw [← hc.limits]
    exact List.mem_map_of_mem hu₀
  obtain ⟨u, hu, he⟩ := List.mem_map.1 hmem
  have hid : task.spec.userId = u.id := by
    rw [hspec]
    exact (congrArg Prod.fst he).symm
  obtain ⟨r, g, hr, hg, hlimit, hspeed⟩ := h.gates.current u hu
  have hgate := h.gated key task ht
  rw [hid, hr] at hgate
  cases hgate
  exact ⟨u, hu, hid, hr, g, hg, hlimit, hspeed⟩

/-- **Who pays for a proxy.** In every reachable state every listener runs through the gate of
a user in memory, with the limits of that user; no two have a public or a backend port in
common; and if its backend port is the one of a proxy that the plugin accepts, then the user is
the one who showed the secret. -/
theorem proxy_routed {s : Site τ} (h : ((site P : LTS (Site τ) SiteEvent).restrict (InOrder P)).Reachable s)
    {p : Process τ} {k : TrafficController τ} (hp : s.server = some p) (hk : p.controller = some k) :
    (∀ key task, k.tasks.lookup key = some task → task.spec.publicPort ∉ p.config.reserved ∧
      ∃ u ∈ p.config.users, task.spec.userId = u.id ∧ k.gates.lookup u.id = some task.gate ∧
        ∃ g, k.heap[task.gate]? = some g ∧ g.limitBytes = u.trafficLimitBytes ∧
          g.bytesPerSecond = speedBytesPerSecond u.speedLimitMbps) ∧
    (∀ key task key' task', k.tasks.lookup key = some task → k.tasks.lookup key' = some task' →
      (task.spec.protocol, task.spec.publicPort) = (task'.spec.protocol, task'.spec.publicPort) ∨
        task.spec.backendPort = task'.spec.backendPort → key = key') ∧
    ∀ account secret proxyName proxyType port,
      pluginProxyResponse p.config account secret proxyName proxyType port = .accepted →
        ∀ key task, k.tasks.lookup key = some task → task.spec.backendPort = port →
          ∃ u ∈ p.config.users, u.account = account ∧ u.secret = secret ∧ HasQuota u ∧ task.spec.userId = u.id := by
  obtain ⟨hkept, hrouted⟩ := routed_inductive.reachable s h
  have hr := hrouted p k hp hk
  have hv := hkept.server p hp
  obtain ⟨c₀, hv₀, hc, htasks⟩ := hr.served
  have hspec : ∀ key task, k.tasks.lookup key = some task → ∃ u ∈ c₀.users, ∃ t ∈ u.tunnels,
      task.spec = specOf c₀ u t ∧ t.proxyName = key := by
    intro key task ht
    obtain ⟨hs, hkey⟩ := (lookup_desired (newIn_empty.1 hv₀.distinct.tunnels.names) key task.spec).1
      (htasks key task ht)
    obtain ⟨u, hu, t, ht, he⟩ := mem_specs.1 hs
    exact ⟨u, hu, t, ht, he, by rw [← hkey, he]; rfl⟩
  refine ⟨fun key task ht => ⟨?_, hr.listener ht⟩, fun key task key' task' ht ht' hsame => ?_, ?_⟩
  · obtain ⟨u, hu, t, htu, he, -⟩ := hspec key task ht
    rw [he, ← hc.reserved]
    exact hv₀.distinct.tunnels.remote t (mem_tunnels hu htu)
  · obtain ⟨u, hu, t, htu, he, rfl⟩ := hspec key task ht
    obtain ⟨v, hv', o, ho, he', rfl⟩ := hspec key' task' ht'
    rw [he, he'] at hsame
    rcases hsame with hpublic | hbackend
    · rw [eq_of_tunnel_column (newIn_empty.1 hv₀.distinct.tunnels.publicPorts) (mem_tunnels hu htu)
        (mem_tunnels hv' ho) hpublic]
    · rw [eq_of_tunnel_column (newIn_empty.1 hv₀.distinct.tunnels.backendPorts) (mem_tunnels hu htu)
        (mem_tunnels hv' ho) hbackend]
  · intro account secret proxyName proxyType port hacc key task ht hport
    obtain ⟨u, hf, hs, hq, o, ho, hallow⟩ := proxy_response_iff.1 hacc
    obtain ⟨hu, haccount⟩ := (find_account_iff (newIn_empty.1 hv.distinct.accounts)).1 hf
    obtain ⟨v, hv', t, htv, he, -⟩ := hspec key task ht
    rw [he] at hport
    have howner : v.id = u.id := hc.owners v.id u.id port ⟨v, hv', rfl, t, htv, hport⟩
      ⟨u, hu, rfl, o, ho, (allows_iff.1 hallow).2.2⟩
    exact ⟨u, hu, haccount, hs, hq, by rw [he]; exact howner⟩

end

/-! ## The first tunnel, after a restart -/

/-- A start that finds every port free. -/
def freeWorld (s : Site Rat) : World :=
  match (Storage.read Primitives.copying s.disk zeros).2 with
  | .ok (c, _) => World.blocking c []
  | .error _ => emptyWorld

theorem freeWorld_inOrder (s : Site Rat) : InOrder Primitives.copying s (.serve false (freeWorld s) zeros) := by
  intro _ disk c e' hr
  unfold freeWorld
  rw [hr]
  exact World.blocking_orders c []

def bareSite : Site Rat := ⟨⟨Db.empty, none, []⟩, [], none⟩

def firstSaveRequest : SiteEvent :=
  .request 0 (.save (some [sampleTunnel ['x'] 5 0])) ⟨3, .constant, zeros, zeros, emptyWorld, emptyWorld⟩

/-- The listener of the tunnel is hers. -/
theorem firstTunnel_routed : ∃ (t : Site Rat) (p : Process Rat) (k : TrafficController Rat) (o : Tunnel)
    (task : ControllerTask), t.server = some p ∧ p.controller = some k ∧ k.tasks.lookup o.proxyName = some task ∧
      pluginProxyResponse p.config ['a'] (List.replicate 36 'x') o.proxyName ['t', 'c', 'p'] o.backendPort =
        .accepted ∧
      ∃ u ∈ p.config.users, u.account = ['a'] ∧ task.spec.userId = u.id := by
  have hexec : ((LTS.exec (Site.step Primitives.copying) bareSite (firstDay.take 4)).bind fun s₁ =>
      if (s₁.server.bind (·.controller)).isSome then none else
      (Site.step Primitives.copying s₁ firstSaveRequest).bind fun s₂ =>
      (Site.step Primitives.copying s₂ .stop).bind fun s₃ =>
      (Site.step Primitives.copying s₃ (.serve false (freeWorld s₃) zeros)).bind fun t =>
      t.server.bind fun p => p.controller.bind fun k => p.config.tunnels[0]?.bind fun o =>
        (k.tasks.lookup o.proxyName).map fun task => (task.spec.backendPort = o.backendPort ∧
          pluginProxyResponse p.config ['a'] (List.replicate 36 'x') o.proxyName ['t', 'c', 'p'] o.backendPort =
            .accepted : Bool)) = some true := by
    decide +kernel
  obtain ⟨s₁, h₁, hexec⟩ := Option.bind_eq_some_iff.1 hexec
  split at hexec
  · cases hexec
  rename_i hnone
  obtain ⟨s₂, h₂, hexec⟩ := Option.bind_eq_some_iff.1 hexec
  obtain ⟨s₃, h₃, hexec⟩ := Option.bind_eq_some_iff.1 hexec
  obtain ⟨t, ht, hexec⟩ := Option.bind_eq_some_iff.1 hexec
  obtain ⟨p, hp, hexec⟩ := Option.bind_eq_some_iff.1 hexec
  obtain ⟨k, hk, hexec⟩ := Option.bind_eq_some_iff.1 hexec
  obtain ⟨o, -, hexec⟩ := Option.bind_eq_some_iff.1 hexec
  obtain ⟨task, htask, hexec⟩ := Option.map_eq_some_iff.1 hexec
  obtain ⟨hport, hacc⟩ := of_decide_eq_true hexec
  have hreach₁ : ((site Primitives.copying : LTS (Site Rat) SiteEvent).restrict
      (InOrder Primitives.copying)).Reachable s₁ := by
    refine ⟨bareSite, firstDay.take 4, ⟨rfl, rfl, rfl⟩, (LTS.run_of_exec h₁).mono fun s l t hl hst => ⟨hst, ?_⟩⟩
    simp only [firstDay, List.take, List.mem_cons, List.not_mem_nil, or_false] at hl
    rcases hl with rfl | rfl | rfl | rfl
    · trivial
    · trivial
    · trivial
    · exact fun hfull => absurd hfull (by decide)
  have hreach₂ := hreach₁.step ⟨h₂, fun p a ts disk stored hp hsome _ _ => by
    rw [hp] at hnone
    exact absurd hsome hnone⟩
  have hreach₃ := hreach₂.step ⟨h₃, trivial⟩
  obtain ⟨u, hu, haccount, -, -, hid⟩ := (proxy_routed (hreach₃.step ⟨ht, freeWorld_inOrder s₃⟩) hp hk).2.2
    ['a'] (List.replicate 36 'x') o.proxyName ['t', 'c', 'p'] o.backendPort hacc o.proxyName task htask hport
  exact ⟨t, p, k, o, task, hp, hk, htask, hacc, u, hu, haccount, hid⟩

end OrangeFrp.App
