import OrangeFrp.Core.Assoc
import OrangeFrp.Controller.Gate

/-!
# Listeners and gates (`frp-game-server/src/controller.rs`)

`reconcile` brings the gates and the listener tasks in line with a
configuration: it updates or creates the gates, stops every task whose spec is
not wanted any more, and then starts the missing ones in the order of a hash
map, stopping at the first port that cannot be bound.

A gate is shared (`Arc<UserGate>`), so the map holds references into a heap of
gate states. A task carries a number of its own, so that a task that was
stopped and started again is a different one. Which ports can be bound, and
the order of the map, are parameters of a call.

* `reconcile_keeps`: a task whose spec is still wanted is left alone.
* `reconcile_ok`: when every wanted port can be bound the tasks are exactly
  the wanted ones.
* `reconcileGates_same`: limits already in force leave the gates as they are.
* `reconcile_untouched`: a user whose specs and limits stay the same is left alone.
-/
namespace OrangeFrp.Controller

open OrangeFrp.Core OrangeFrp.Storage

/-- mirrors crates/frp-game-server/src/controller.rs:41-49 -/
structure TunnelSpec where
  userId : Str
  proxyName : Str
  protocol : Str
  publicBind : Str
  publicPort : Port
  backendPort : Port
  deriving DecidableEq

/-- A reference to a gate on the heap. -/
abbrev GateRef := Nat

/-- mirrors crates/frp-game-server/src/controller.rs:51-55 -/
structure ControllerTask where
  number : Nat
  spec : TunnelSpec
  gate : GateRef
  deriving DecidableEq

/-- mirrors crates/frp-game-server/src/controller.rs:155-162 -/
structure TrafficController (τ : Type) where
  tasks : Assoc Str ControllerTask
  gates : Assoc Str GateRef
  heap : List (GateState τ)
  started : Nat

variable {τ : Type} [Double τ]

/-- `Arc::new`: a new gate on the heap. -/
def TrafficController.allocate (k : TrafficController τ) (userId : Str) (g : GateState τ) :
    TrafficController τ :=
  { k with gates := k.gates.insert userId k.heap.length, heap := k.heap ++ [g] }

def gateOf (u : ServerUser) (now : Nat) : GateState τ :=
  .new u.trafficLimitBytes u.trafficUsedBytes u.speedLimitMbps now

/-- mirrors crates/frp-game-server/src/controller.rs:165-191 -/
def TrafficController.new (c : ServerConfig) (now : Nat) : TrafficController τ :=
  c.users.foldl (fun k u => k.allocate u.id (gateOf u now)) ⟨∅, ∅, [], 0⟩

/-- mirrors crates/frp-game-server/src/controller.rs:269-283 -/
def TrafficController.reconcileGate (now : Nat) (k : TrafficController τ) (u : ServerUser) :
    TrafficController τ :=
  match k.gates.lookup u.id with
  | some r => { k with
      heap := k.heap.modify r fun g => g.updateLimits u.trafficLimitBytes u.speedLimitMbps now }
  | none => k.allocate u.id (gateOf u now)

/-- mirrors crates/frp-game-server/src/controller.rs:262-285 -/
def TrafficController.reconcileGates (k : TrafficController τ) (c : ServerConfig) (now : Nat) :
    TrafficController τ :=
  c.users.foldl (TrafficController.reconcileGate now)
    { k with gates := Assoc.retain (fun userId _ => userId ∈ c.users.map (·.id)) k.gates }

def specOf (c : ServerConfig) (u : ServerUser) (t : Tunnel) : TunnelSpec where
  userId := u.id
  proxyName := t.proxyName
  protocol := t.protocol
  publicBind := c.publicBind
  publicPort := t.remotePort
  backendPort := t.backendPort

def specs (c : ServerConfig) : List TunnelSpec := c.users.flatMap fun u => u.tunnels.map (specOf c u)

/-- mirrors crates/frp-game-server/src/controller.rs:195-209 -/
def desired (c : ServerConfig) : Assoc Str TunnelSpec :=
  (specs c).foldl (fun m s => m.insert s.proxyName s) ∅

/-- mirrors crates/frp-game-server/src/controller.rs:287-338 -/
def startTask (k : TrafficController τ) (bind : TunnelSpec → Bool) (spec : TunnelSpec) (gate : GateRef) :
    Except String (TrafficController τ) :=
  if spec.protocol = tcp ∨ spec.protocol = udp then
    if bind spec then
      .ok { k with
        tasks := k.tasks.insert spec.proxyName ⟨k.started, spec, gate⟩
        started := k.started + 1 }
    else .error ("无法监听 " ++ String.ofList spec.protocol ++ " 公网端口 " ++
      String.ofList spec.publicBind ++ ":" ++ toString spec.publicPort)
  else .error "internal error: entered unreachable code: protocol was normalized"

/-- The starting loop; what was started before an error stays.
mirrors crates/frp-game-server/src/controller.rs:232-246 -/
def startTasks (bind : TunnelSpec → Bool) :
    TrafficController τ → List TunnelSpec → TrafficController τ × Except String Unit
  | k, [] => (k, .ok ())
  | k, spec :: rest =>
    if spec.proxyName ∈ k.tasks then startTasks bind k rest
    else
      match k.gates.lookup spec.userId with
      | none => (k, .error ("未找到用户流量控制器：" ++ String.ofList spec.userId))
      | some gate =>
        match startTask k bind spec gate with
        | .error e => (k, .error e)
        | .ok k => startTasks bind k rest

/-- Cancels the tasks whose spec is not wanted.
mirrors crates/frp-game-server/src/controller.rs:211-230 -/
def TrafficController.stopTasks (k : TrafficController τ) (c : ServerConfig) : TrafficController τ :=
  { k with tasks := Assoc.retain (fun key task => (desired c).lookup key = some task.spec) k.tasks }

/-- What a call finds: the time, the order of the map, and the free ports. -/
structure World where
  now : Nat
  order : List TunnelSpec
  bind : TunnelSpec → Bool

/-- The order is one in which the wanted specs can come. -/
def World.Orders (w : World) (c : ServerConfig) : Prop :=
  w.order.Perm ((desired c).entries.map (·.2))

/-- mirrors crates/frp-game-server/src/controller.rs:193-247 -/
def TrafficController.reconcile (k : TrafficController τ) (c : ServerConfig) (w : World) :
    TrafficController τ × Except String Unit :=
  startTasks w.bind ((k.reconcileGates c w.now).stopTasks c) w.order

/-- Every port is free but `blocked`, and the map comes in one of its orders. -/
def World.blocking (c : ServerConfig) (blocked : List Port) : World where
  now := 0
  order := (desired c).entries.map (·.2)
  bind s := s.publicPort ∉ blocked

theorem World.blocking_orders (c : ServerConfig) (blocked : List Port) :
    (World.blocking c blocked).Orders c := List.Perm.refl _

/-- The controller once `c` has been brought up. -/
def TrafficController.broughtUp (c : ServerConfig) : TrafficController Rat :=
  ((TrafficController.new c 0).reconcile c (World.blocking c [])).1

/-! ## Wanted specs -/

theorem mem_specs {c : ServerConfig} {s : TunnelSpec} :
    s ∈ specs c ↔ ∃ u ∈ c.users, ∃ t ∈ u.tunnels, s = specOf c u t := by
  simp only [specs, List.mem_flatMap, List.mem_map, eq_comm]

theorem specs_names (c : ServerConfig) :
    (specs c).map (·.proxyName) = c.tunnels.map (·.proxyName) := by
  simp only [specs, ServerConfig.tunnels, List.map_flatMap, List.map_map]
  rfl

theorem lookup_foldl_insert {l : List TunnelSpec} (hn : (l.map (·.proxyName)).Nodup)
    (m : Assoc Str TunnelSpec) (key : Str) (s : TunnelSpec) :
    (l.foldl (fun m s => m.insert s.proxyName s) m).lookup key = some s ↔
      (s ∈ l ∧ s.proxyName = key) ∨ (m.lookup key = some s ∧ ∀ x ∈ l, x.proxyName ≠ key) := by
  induction l generalizing m with
  | nil => simp
  | cons x l ih =>
    rw [List.map_cons, List.nodup_cons] at hn
    rw [List.foldl_cons, ih hn.2]
    by_cases hx : x.proxyName = key
    · subst hx
      have hnone : ∀ y ∈ l, y.proxyName ≠ x.proxyName := fun y hy e =>
        hn.1 (List.mem_map.2 ⟨y, hy, e⟩)
      rw [AList.lookup_insert]
      refine ⟨?_, ?_⟩
      · rintro (⟨hs, he⟩ | ⟨he, -⟩)
        · exact absurd he (hnone s hs)
        · cases he; exact .inl ⟨List.mem_cons_self, rfl⟩
      · rintro (⟨hs, he⟩ | ⟨-, hne⟩)
        · rcases List.mem_cons.1 hs with rfl | hs
          · exact .inr ⟨rfl, hnone⟩
          · exact absurd he (hnone s hs)
        · exact absurd rfl (hne x List.mem_cons_self)
    · rw [AList.lookup_insert_ne (Ne.symm hx)]
      simp only [List.mem_cons, forall_eq_or_imp]
      refine ⟨?_, ?_⟩
      · rintro (⟨hs, he⟩ | ⟨hm, hne⟩)
        · exact .inl ⟨.inr hs, he⟩
        · exact .inr ⟨hm, hx, hne⟩
      · rintro (⟨rfl | hs, he⟩ | ⟨hm, -, hne⟩)
        · exact absurd he hx
        · exact .inl ⟨hs, he⟩
        · exact .inr ⟨hm, hne⟩

/-- With distinct proxy names the map holds exactly the specs. -/
theorem lookup_desired {c : ServerConfig} (hn : (c.tunnels.map (·.proxyName)).Nodup) (key : Str)
    (s : TunnelSpec) : (desired c).lookup key = some s ↔ s ∈ specs c ∧ s.proxyName = key := by
  rw [desired, lookup_foldl_insert (by rw [specs_names]; exact hn)]
  simp

theorem mem_order {c : ServerConfig} {w : World} (hn : (c.tunnels.map (·.proxyName)).Nodup)
    (ho : w.Orders c) (s : TunnelSpec) : s ∈ w.order ↔ s ∈ specs c := by
  rw [List.Perm.mem_iff ho, List.mem_map]
  refine ⟨?_, ?_⟩
  · intro h
    obtain ⟨⟨key, s'⟩, he, rfl⟩ := h
    exact ((lookup_desired hn key s').1 (Assoc.mem_entries_iff.1 he)).1
  · intro hs
    exact ⟨⟨s.proxyName, s⟩, Assoc.mem_entries_iff.2 ((lookup_desired hn _ s).2 ⟨hs, rfl⟩), rfl⟩

/-! ## What the starting loop does -/

section
omit [Double τ]

theorem startTask_ok {k k' : TrafficController τ} {bind : TunnelSpec → Bool} {spec : TunnelSpec}
    {gate : GateRef} (h : startTask k bind spec gate = .ok k') :
    k' = { k with
      tasks := k.tasks.insert spec.proxyName ⟨k.started, spec, gate⟩
      started := k.started + 1 } := by
  unfold startTask at h
  split at h
  · split at h
    · cases h; rfl
    · cases h
  · cases h

theorem startTask_bound {k k' : TrafficController τ} {bind : TunnelSpec → Bool} {spec : TunnelSpec}
    {gate : GateRef} (h : startTask k bind spec gate = .ok k') : bind spec = true := by
  unfold startTask at h
  split at h
  · split at h
    · assumption
    · cases h
  · cases h

/-- The loop keeps what is running and the gates. -/
theorem startTasks_keeps {bind : TunnelSpec → Bool} {k : TrafficController τ} {order : List TunnelSpec} :
    (∀ key task, k.tasks.lookup key = some task →
      (startTasks bind k order).1.tasks.lookup key = some task) ∧
      (startTasks bind k order).1.gates = k.gates ∧ (startTasks bind k order).1.heap = k.heap := by
  induction order generalizing k with
  | nil => exact ⟨fun _ _ h => h, rfl, rfl⟩
  | cons spec order ih =>
    unfold startTasks
    split
    · exact ih
    rename_i hnot
    split
    · exact ⟨fun _ _ h => h, rfl, rfl⟩
    rename_i gate hgate
    cases hs : startTask k bind spec gate with
    | error e => exact ⟨fun _ _ h => h, rfl, rfl⟩
    | ok k' =>
      have hk' := startTask_ok hs
      obtain ⟨h₁, h₂, h₃⟩ := @ih k'
      subst hk'
      refine ⟨fun key task hl => h₁ key task ?_, h₂, h₃⟩
      have hne : key ≠ spec.proxyName := by
        intro heq
        obtain rfl := heq
        exact hnot (Assoc.mem_iff_exists.2 ⟨task, hl⟩)
      rw [AList.lookup_insert_ne hne]
      exact hl

/-- A task that runs after the loop ran before it or was started for a spec of the list. -/
theorem startTasks_origin {bind : TunnelSpec → Bool} {k : TrafficController τ}
    {order : List TunnelSpec} {key : Str} {task : ControllerTask}
    (h : (startTasks bind k order).1.tasks.lookup key = some task) :
    k.tasks.lookup key = some task ∨
      (task.spec ∈ order ∧ bind task.spec = true ∧ task.spec.proxyName = key) := by
  induction order generalizing k with
  | nil => exact .inl h
  | cons spec order ih =>
    unfold startTasks at h
    have hrest : ∀ {k'}, (startTasks bind k' order).1.tasks.lookup key = some task →
        k'.tasks.lookup key = some task ∨
          (task.spec ∈ spec :: order ∧ bind task.spec = true ∧ task.spec.proxyName = key) :=
      fun h => (ih h).imp_right fun ⟨h₁, h₂⟩ => ⟨List.mem_cons_of_mem _ h₁, h₂⟩
    split at h
    · exact hrest h
    split at h
    · exact .inl h
    cases hs : startTask k bind spec _ with
    | error e => rw [hs] at h; exact .inl h
    | ok k' =>
      rw [hs] at h
      rcases hrest h with hl | hr
      · rw [startTask_ok hs] at hl
        by_cases hk : key = spec.proxyName
        · subst hk
          rw [AList.lookup_insert] at hl
          cases hl
          exact .inr ⟨List.mem_cons_self, startTask_bound hs, rfl⟩
        · rw [AList.lookup_insert_ne hk] at hl
          exact .inl hl
      · exact .inr hr

/-- A loop that gets to the end has a task for every spec of the list. -/
theorem startTasks_complete {bind : TunnelSpec → Bool} {k : TrafficController τ}
    {order : List TunnelSpec} (h : (startTasks bind k order).2 = .ok ()) :
    ∀ spec ∈ order, spec.proxyName ∈ (startTasks bind k order).1.tasks := by
  induction order generalizing k with
  | nil => simp
  | cons spec order ih =>
    unfold startTasks at h ⊢
    by_cases hmem : spec.proxyName ∈ k.tasks
    · rw [if_pos hmem] at h ⊢
      obtain ⟨task, ht⟩ := Assoc.mem_iff_exists.1 hmem
      exact List.forall_mem_cons.2 ⟨Assoc.mem_iff_exists.2 ⟨task, startTasks_keeps.1 _ task ht⟩, ih h⟩
    rw [if_neg hmem] at h ⊢
    cases hgate : k.gates.lookup spec.userId with
    | none => rw [hgate] at h; cases h
    | some gate =>
      cases hs : startTask k bind spec gate with
      | error e => simp only [hgate, hs] at h; cases h
      | ok k' =>
        simp only [hgate, hs] at h ⊢
        have hlook : k'.tasks.lookup spec.proxyName = some ⟨k.started, spec, gate⟩ := by
          rw [startTask_ok hs]; exact AList.lookup_insert _
        exact List.forall_mem_cons.2
          ⟨Assoc.mem_iff_exists.2 ⟨_, startTasks_keeps.1 _ _ hlook⟩, ih h⟩

/-- With a gate for every user the loop gets to the end if every port that it needs is free. -/
theorem startTasks_ok {bind : TunnelSpec → Bool} {k : TrafficController τ} {order : List TunnelSpec}
    (hb : ∀ s ∈ order, s.proxyName ∉ k.tasks → bind s = true)
    (hp : ∀ s ∈ order, s.protocol = tcp ∨ s.protocol = udp)
    (hg : ∀ s ∈ order, (k.gates.lookup s.userId).isSome = true) :
    (startTasks bind k order).2 = .ok () := by
  induction order generalizing k with
  | nil => rfl
  | cons spec order ih =>
    rw [List.forall_mem_cons] at hb hp hg
    unfold startTasks
    split
    · exact ih hb.2 hp.2 hg.2
    rename_i hnot
    obtain ⟨gate, hgate⟩ := Option.isSome_iff_exists.1 hg.1
    have hs : startTask k bind spec gate = .ok { k with
        tasks := k.tasks.insert spec.proxyName ⟨k.started, spec, gate⟩
        started := k.started + 1 } := by
      unfold startTask; rw [if_pos hp.1, if_pos (hb.1 hnot)]
    simp only [hgate, hs]
    exact ih (fun s hs hns => hb.2 s hs fun hm => hns (AList.mem_insert _ |>.2 (.inr hm))) hp.2 hg.2

/-- A list whose first part gets to the end goes on with the rest. -/
theorem startTasks_append {bind : TunnelSpec → Bool} {k : TrafficController τ} {l₁ : List TunnelSpec}
    (h : (startTasks bind k l₁).2 = .ok ()) (l₂ : List TunnelSpec) :
    startTasks bind k (l₁ ++ l₂) = startTasks bind (startTasks bind k l₁).1 l₂ := by
  induction l₁ generalizing k with
  | nil => rfl
  | cons spec l₁ ih =>
    simp only [List.cons_append, startTasks] at h ⊢
    by_cases hmem : spec.proxyName ∈ k.tasks
    · simp only [if_pos hmem] at h ⊢
      exact ih h
    simp only [if_neg hmem] at h ⊢
    cases hgate : k.gates.lookup spec.userId with
    | none => rw [hgate] at h; cases h
    | some gate =>
      cases hs : startTask k bind spec gate with
      | error e => simp only [hgate, hs] at h; cases h
      | ok k' =>
        simp only [hgate, hs] at h ⊢
        exact ih h

end

/-! ## What the gates become -/

omit [Double τ] in
@[simp] theorem allocate_lookup (k : TrafficController τ) (userId : Str) (g : GateState τ) (q : Str) :
    (k.allocate userId g).gates.lookup q = if q = userId then some k.heap.length else k.gates.lookup q := by
  unfold TrafficController.allocate
  split
  · rename_i h; subst h; exact AList.lookup_insert _
  · rename_i h; exact AList.lookup_insert_ne h

theorem reconcileGate_tasks (now : Nat) (k : TrafficController τ) (u : ServerUser) :
    (k.reconcileGate now u).tasks = k.tasks := by
  unfold TrafficController.reconcileGate
  split <;> rfl

theorem reconcileGate_isSome (now : Nat) (k : TrafficController τ) (u : ServerUser) (q : Str) :
    ((k.reconcileGate now u).gates.lookup q).isSome = true ↔
      q = u.id ∨ (k.gates.lookup q).isSome = true := by
  unfold TrafficController.reconcileGate
  split
  · rename_i r hr
    refine ⟨?_, ?_⟩
    · exact .inr
    · rintro (rfl | h)
      · exact Option.isSome_iff_exists.2 ⟨r, hr⟩
      · exact h
  · rw [allocate_lookup]
    split <;> simp_all

theorem foldl_reconcileGate (now : Nat) (us : List ServerUser) (k : TrafficController τ) :
    (us.foldl (TrafficController.reconcileGate now) k).tasks = k.tasks ∧
      ∀ q, ((us.foldl (TrafficController.reconcileGate now) k).gates.lookup q).isSome = true ↔
        q ∈ us.map (·.id) ∨ (k.gates.lookup q).isSome = true := by
  induction us generalizing k with
  | nil => exact ⟨rfl, fun q => by simp⟩
  | cons u us ih =>
    obtain ⟨h₁, h₂⟩ := ih (k.reconcileGate now u)
    refine ⟨by rw [List.foldl_cons, h₁, reconcileGate_tasks], fun q => ?_⟩
    rw [List.foldl_cons, h₂, reconcileGate_isSome, List.map_cons, List.mem_cons]
    tauto

theorem reconcileGates_tasks (k : TrafficController τ) (c : ServerConfig) (now : Nat) :
    (k.reconcileGates c now).tasks = k.tasks := (foldl_reconcileGate now c.users _).1

theorem reconcileGates_isSome (k : TrafficController τ) (c : ServerConfig) (now : Nat) {u : ServerUser}
    (hu : u ∈ c.users) : ((k.reconcileGates c now).gates.lookup u.id).isSome = true :=
  ((foldl_reconcileGate now c.users _).2 u.id).2 (.inl (List.mem_map_of_mem hu))

/-- The gates are those of the users, with the limits of the configuration in force. -/
structure GatesCurrent (k : TrafficController τ) (c : ServerConfig) : Prop where
  known : ∀ userId r, k.gates.lookup userId = some r → userId ∈ c.users.map (·.id)
  current : ∀ u ∈ c.users, ∃ r g, k.gates.lookup u.id = some r ∧ k.heap[r]? = some g ∧
    g.limitBytes = u.trafficLimitBytes ∧ g.bytesPerSecond = speedBytesPerSecond u.speedLimitMbps

/-- One new gate for each user of the list; older gates stay where they are. -/
theorem foldl_allocate (now : Nat) {us : List ServerUser} (hn : (us.map (·.id)).Nodup)
    (k : TrafficController τ) :
    let k' := us.foldl (fun k u => k.allocate u.id (gateOf u now)) k
    (∀ q, q ∉ us.map (·.id) → k'.gates.lookup q = k.gates.lookup q) ∧
      (∀ r, r < k.heap.length → k'.heap[r]? = k.heap[r]?) ∧
      k'.tasks = k.tasks ∧
      ∀ u ∈ us, ∃ r, k'.gates.lookup u.id = some r ∧ k'.heap[r]? = some (gateOf u now) := by
  induction us generalizing k with
  | nil => exact ⟨fun _ _ => rfl, fun _ _ => rfl, rfl, by simp⟩
  | cons u us ih =>
    rw [List.map_cons, List.nodup_cons] at hn
    obtain ⟨h₁, h₂, h₃, h₄⟩ := ih hn.2 (k.allocate u.id (gateOf u now))
    have hlen : (k.allocate u.id (gateOf u now)).heap.length = k.heap.length + 1 := by
      simp [TrafficController.allocate]
    refine ⟨fun q hq => ?_, fun r hr => ?_, h₃, List.forall_mem_cons.2 ⟨⟨k.heap.length, ?_, ?_⟩, h₄⟩⟩
    · rw [List.map_cons, List.mem_cons, not_or] at hq
      rw [List.foldl_cons, h₁ q hq.2, allocate_lookup, if_neg hq.1]
    · rw [List.foldl_cons, h₂ r (by omega), TrafficController.allocate,
        List.getElem?_append_left hr]
    · rw [List.foldl_cons, h₁ u.id hn.1, allocate_lookup, if_pos rfl]
    · rw [List.foldl_cons, h₂ k.heap.length (by omega)]
      simp [TrafficController.allocate]

/-- A new controller has the gates of its users. -/
theorem new_gatesCurrent {c : ServerConfig} (hn : (c.users.map (·.id)).Nodup) (now : Nat) :
    GatesCurrent (TrafficController.new c now : TrafficController τ) c := by
  obtain ⟨h₁, -, -, h₄⟩ := foldl_allocate now hn (⟨∅, ∅, [], 0⟩ : TrafficController τ)
  refine ⟨fun userId r hr => ?_, fun u hu => ?_⟩
  · by_contra hq
    rw [TrafficController.new, h₁ userId hq] at hr
    cases hr
  · obtain ⟨r, hr, hh⟩ := h₄ u hu
    exact ⟨r, _, hr, hh, rfl, rfl⟩

/-- **Limits already in force leave the gates as they are**, tokens included. -/
theorem reconcileGates_same {k : TrafficController τ} {c : ServerConfig} (h : GatesCurrent k c)
    (now : Nat) : k.reconcileGates c now = k := by
  have hretain : Assoc.retain (fun userId _ => userId ∈ c.users.map (·.id)) k.gates = k.gates :=
    Assoc.retain_eq_self fun userId r hr => by simpa using h.known userId r hr
  have hfold : ∀ us : List ServerUser, (∀ u ∈ us, u ∈ c.users) →
      us.foldl (TrafficController.reconcileGate now) k = k := by
    intro us hus
    induction us with
    | nil => rfl
    | cons u us ih =>
      rw [List.forall_mem_cons] at hus
      obtain ⟨r, g, hr, hg, hl, hs⟩ := h.current u hus.1
      have hstep : k.reconcileGate now u = k := by
        have hheap : (k.heap.modify r fun g =>
            g.updateLimits u.trafficLimitBytes u.speedLimitMbps now) = k.heap := by
          refine List.ext_getElem? fun n => ?_
          rw [List.getElem?_modify]
          by_cases hn : r = n
          · subst hn; rw [hg]; simp [updateLimits_self hl hs]
          · simp [hn]
        unfold TrafficController.reconcileGate
        rw [hr]
        simp only [hheap]
      rw [List.foldl_cons, hstep]
      exact ih hus.2
  unfold TrafficController.reconcileGates
  rw [hretain]
  exact hfold c.users fun _ hu => hu

/-! ## What a call does to the tasks -/

/-- The running tasks are exactly those of the configuration. -/
def Running (k : TrafficController τ) (c : ServerConfig) : Prop :=
  ∀ key, (k.tasks.lookup key).map (·.spec) = (desired c).lookup key

omit [Double τ] in
theorem stopTasks_lookup {k : TrafficController τ} {c : ServerConfig} {key : Str}
    {task : ControllerTask} :
    (k.stopTasks c).tasks.lookup key = some task ↔
      k.tasks.lookup key = some task ∧ (desired c).lookup key = some task.spec := by
  unfold TrafficController.stopTasks
  rw [Assoc.lookup_retain, Option.filter_eq_some_iff, decide_eq_true_eq]

/-- **A task whose spec is still wanted is left alone.** -/
theorem reconcile_keeps {k : TrafficController τ} {c : ServerConfig} {w : World} {key : Str}
    {task : ControllerTask} (ht : k.tasks.lookup key = some task)
    (hd : (desired c).lookup key = some task.spec) :
    (k.reconcile c w).1.tasks.lookup key = some task := by
  refine startTasks_keeps.1 key task (stopTasks_lookup.2 ⟨?_, hd⟩)
  rw [reconcileGates_tasks]
  exact ht

/-- What runs afterwards ran before or was wanted. -/
theorem reconcile_origin {k : TrafficController τ} {c : ServerConfig} {w : World}
    (hn : (c.tunnels.map (·.proxyName)).Nodup) (ho : w.Orders c) {key : Str} {task : ControllerTask}
    (h : (k.reconcile c w).1.tasks.lookup key = some task) :
    (desired c).lookup key = some task.spec := by
  rcases startTasks_origin h with hk | ⟨hs, -, he⟩
  · exact (stopTasks_lookup.1 hk).2
  · exact (lookup_desired hn key task.spec).2 ⟨(mem_order hn ho _).1 hs, he⟩

theorem reconcile_gates {k : TrafficController τ} {c : ServerConfig} {w : World} :
    (k.reconcile c w).1.gates = (k.reconcileGates c w.now).gates ∧
      (k.reconcile c w).1.heap = (k.reconcileGates c w.now).heap :=
  startTasks_keeps.2

/-- A call that returns `Ok` has a task for every wanted spec. -/
theorem reconcile_complete {k : TrafficController τ} {c : ServerConfig} {w : World}
    (hn : (c.tunnels.map (·.proxyName)).Nodup) (ho : w.Orders c) (hok : (k.reconcile c w).2 = .ok ()) :
    Running (k.reconcile c w).1 c := by
  intro key
  apply Option.ext
  intro spec
  rw [Option.map_eq_some_iff]
  refine ⟨?_, ?_⟩
  · intro h
    obtain ⟨task, ht, rfl⟩ := h
    exact reconcile_origin hn ho ht
  · intro hd
    obtain ⟨hs, rfl⟩ := (lookup_desired hn key spec).1 hd
    obtain ⟨task, ht⟩ := Assoc.mem_iff_exists.1
      (startTasks_complete hok spec ((mem_order hn ho spec).2 hs))
    have htask := reconcile_origin (k := k) hn ho ht
    rw [hd] at htask
    exact ⟨task, ht, (Option.some.inj htask).symm⟩

/-- The listener of the spec does not run. -/
def Missing (k : TrafficController τ) (spec : TunnelSpec) : Prop :=
  (k.tasks.lookup spec.proxyName).map (·.spec) ≠ some spec

omit [Double τ] in
theorem stopTasks_running {k : TrafficController τ} {c : ServerConfig} {spec : TunnelSpec}
    (hd : (desired c).lookup spec.proxyName = some spec) (hm : ¬ Missing k spec) :
    spec.proxyName ∈ (k.stopTasks c).tasks := by
  obtain ⟨task, ht, rfl⟩ := Option.map_eq_some_iff.1 (not_not.1 hm)
  exact Assoc.mem_iff_exists.2 ⟨task, stopTasks_lookup.2 ⟨ht, hd⟩⟩

section
variable {k : TrafficController τ} {c : ServerConfig} {w : World}
  (hn : (c.tunnels.map (·.proxyName)).Nodup) (hp : ∀ t ∈ c.tunnels, t.protocol = tcp ∨ t.protocol = udp)
include hn hp

/-- The starting loop of a call gets through the wanted specs whose ports are free. -/
theorem reconcile_starts {order : List TunnelSpec} (hs : ∀ s ∈ order, s ∈ specs c)
    (hb : ∀ s ∈ order, Missing k s → w.bind s = true) :
    (startTasks w.bind ((k.reconcileGates c w.now).stopTasks c) order).2 = .ok () := by
  refine startTasks_ok (fun s hm hnot => hb s hm fun hr => hnot ?_) (fun s hm => ?_) fun s hm => ?_
  · exact stopTasks_running ((lookup_desired hn _ s).2 ⟨hs s hm, rfl⟩)
      (by unfold Missing; rw [reconcileGates_tasks]; exact not_not.2 hr)
  · obtain ⟨u, hu, t, ht, rfl⟩ := mem_specs.1 (hs s hm)
    exact hp t (List.mem_flatMap.2 ⟨u, hu, ht⟩)
  · obtain ⟨u, hu, t, ht, rfl⟩ := mem_specs.1 (hs s hm)
    exact reconcileGates_isSome k c w.now hu

/-- **When a call returns `Ok`**: the port of every missing listener is free. -/
theorem reconcile_ok_iff (ho : w.Orders c) :
    (k.reconcile c w).2 = .ok () ↔ ∀ spec ∈ specs c, Missing k spec → w.bind spec = true := by
  refine ⟨?_, ?_⟩
  · intro hok spec hs hm
    have hd := (lookup_desired hn spec.proxyName spec).2 ⟨hs, rfl⟩
    rw [← reconcile_complete hn ho hok] at hd
    obtain ⟨task, ht, rfl⟩ := Option.map_eq_some_iff.1 hd
    rcases startTasks_origin ht with hl | ⟨-, hb, -⟩
    · have hl := (stopTasks_lookup.1 hl).1
      rw [reconcileGates_tasks] at hl
      exact absurd (by rw [hl]; rfl) hm
    · exact hb
  · intro hb
    exact reconcile_starts hn hp (fun s hs => (mem_order hn ho s).1 hs)
      fun s hs => hb s ((mem_order hn ho s).1 hs)

/-- **With free ports the tasks become exactly the wanted ones.** -/
theorem reconcile_ok (ho : w.Orders c) (hb : ∀ s ∈ specs c, w.bind s = true) :
    (k.reconcile c w).2 = .ok () ∧ Running (k.reconcile c w).1 c := by
  have hok := (reconcile_ok_iff (k := k) hn hp ho).2 fun spec hs _ => hb spec hs
  exact ⟨hok, reconcile_complete hn ho hok⟩

end

theorem broughtUp_running {c : ServerConfig} (hn : (c.tunnels.map (·.proxyName)).Nodup)
    (hp : ∀ t ∈ c.tunnels, t.protocol = tcp ∨ t.protocol = udp) :
    Running (TrafficController.broughtUp c) c :=
  (reconcile_ok hn hp (World.blocking_orders c []) fun _ _ => by simp [World.blocking]).2

/-! ## What a call leaves to one user -/

/-- The tasks of the user are those that the configuration asks for. -/
def Serves (k : TrafficController τ) (c : ServerConfig) (userId : Str) : Prop :=
  ∀ key s, s.userId = userId →
    ((k.tasks.lookup key).map (·.spec) = some s ↔ (desired c).lookup key = some s)

/-- The gate of the user, its counters, and its listeners are the same. -/
structure Untouched (k k' : TrafficController τ) (userId : Str) : Prop where
  gate : k'.gates.lookup userId = k.gates.lookup userId
  counters : ∀ r : GateRef, k.gates.lookup userId = some r → k'.heap[r]? = k.heap[r]?
  tasks : ∀ key task, task.spec.userId = userId →
    (k'.tasks.lookup key = some task ↔ k.tasks.lookup key = some task)

omit [Double τ] in
theorem Untouched.refl (k : TrafficController τ) (userId : Str) : Untouched k k userId :=
  ⟨rfl, fun _ _ => rfl, fun _ _ _ => Iff.rfl⟩

omit [Double τ] in
theorem Untouched.symm {k k' : TrafficController τ} {userId : Str} (h : Untouched k k' userId) :
    Untouched k' k userId :=
  ⟨h.gate.symm, fun r hr => (h.counters r (h.gate.symm.trans hr)).symm,
    fun key task ht => (h.tasks key task ht).symm⟩

omit [Double τ] in
theorem Untouched.trans {k₁ k₂ k₃ : TrafficController τ} {userId : Str}
    (h : Untouched k₁ k₂ userId) (h' : Untouched k₂ k₃ userId) : Untouched k₁ k₃ userId :=
  ⟨h'.gate.trans h.gate, fun r hr => (h'.counters r (h.gate.trans hr)).trans (h.counters r hr),
    fun key task ht => (h'.tasks key task ht).trans (h.tasks key task ht)⟩

omit [Double τ] in
theorem Serves.congr {k : TrafficController τ} {c c' : ServerConfig} {userId : Str} (h : Serves k c userId)
    (hsame : ∀ key s, s.userId = userId →
      ((desired c').lookup key = some s ↔ (desired c).lookup key = some s)) : Serves k c' userId :=
  fun key s hs => (h key s hs).trans (hsame key s hs).symm

omit [Double τ] in
/-- What serves a user that was left alone has served it before. -/
theorem Untouched.serves {k k' : TrafficController τ} {c : ServerConfig} {userId : Str}
    (h : Untouched k k' userId) (hs : Serves k' c userId) : Serves k c userId := by
  intro key s hu
  rw [← hs key s hu, Option.map_eq_some_iff, Option.map_eq_some_iff]
  refine ⟨?_, ?_⟩
  · rintro ⟨task, hl, rfl⟩; exact ⟨task, (h.tasks key task hu).2 hl, rfl⟩
  · rintro ⟨task, hl, rfl⟩; exact ⟨task, (h.tasks key task hu).1 hl, rfl⟩

omit [Double τ] in
theorem Running.serves {k : TrafficController τ} {c : ServerConfig} (h : Running k c) (userId : Str) :
    Serves k c userId := fun key s _ => by rw [h key]

omit [Double τ] in
/-- Whether the gates are current depends on the users' limits only. -/
theorem GatesCurrent.congr {k k' : TrafficController τ} {c c' : ServerConfig} (h : GatesCurrent k c)
    (hg : k'.gates = k.gates) (hh : k'.heap = k.heap)
    (hu : c'.users.map (fun u => (u.id, u.trafficLimitBytes, u.speedLimitMbps)) =
      c.users.map fun u => (u.id, u.trafficLimitBytes, u.speedLimitMbps)) : GatesCurrent k' c' := by
  have hids : c'.users.map (·.id) = c.users.map (·.id) := by
    have := congrArg (List.map Prod.fst) hu
    simpa only [List.map_map, Function.comp_def] using this
  refine ⟨fun userId r hr => ?_, fun u hm => ?_⟩
  · rw [hids]
    exact h.known userId r (by rw [← hg]; exact hr)
  · have hm' := List.mem_map_of_mem (f := fun u : ServerUser =>
      (u.id, u.trafficLimitBytes, u.speedLimitMbps)) hm
    rw [hu] at hm'
    obtain ⟨v, hv, he⟩ := List.mem_map.1 hm'
    simp only [Prod.mk.injEq] at he
    rw [hg, hh, ← he.1, ← he.2.1, ← he.2.2]
    exact h.current v hv

theorem broughtUp_gatesCurrent {c : ServerConfig} (hn : (c.users.map (·.id)).Nodup) :
    GatesCurrent (TrafficController.broughtUp c) c := by
  have h := new_gatesCurrent (τ := Rat) hn 0
  have hk := reconcile_gates (k := TrafficController.new (τ := Rat) c 0) (c := c)
    (w := World.blocking c [])
  rw [reconcileGates_same h] at hk
  exact h.congr hk.1 hk.2 rfl

/-- **A call leaves a user alone** whose limits are in force and whose specs are the
same in the new configuration. -/
theorem reconcile_untouched {k : TrafficController τ} {c c' : ServerConfig} {w : World}
    {userId : Str} (hg : GatesCurrent k c') (hs : Serves k c userId)
    (hn : (c'.tunnels.map (·.proxyName)).Nodup) (ho : w.Orders c')
    (hsame : ∀ key s, s.userId = userId →
      ((desired c').lookup key = some s ↔ (desired c).lookup key = some s)) :
    Untouched k (k.reconcile c' w).1 userId ∧ Serves (k.reconcile c' w).1 c' userId := by
  have hgates : (k.reconcile c' w).1.gates = k.gates ∧ (k.reconcile c' w).1.heap = k.heap := by
    have h := reconcile_gates (k := k) (c := c') (w := w)
    rwa [reconcileGates_same hg] at h
  have hkept : ∀ key task, task.spec.userId = userId → k.tasks.lookup key = some task →
      (k.reconcile c' w).1.tasks.lookup key = some task := fun key task ht hl =>
    reconcile_keeps hl ((hsame key _ ht).2 ((hs key _ ht).1 (by rw [hl]; rfl)))
  have hback : ∀ key task, task.spec.userId = userId →
      (k.reconcile c' w).1.tasks.lookup key = some task → k.tasks.lookup key = some task := by
    intro key task ht hl
    have hd := (hsame key _ ht).1 (reconcile_origin hn ho hl)
    obtain ⟨old, hold, hspec⟩ := Option.map_eq_some_iff.1 ((hs key _ ht).2 hd)
    have := hkept key old (by rw [hspec]; exact ht) hold
    rw [hl] at this
    rwa [Option.some.inj this]
  have hu : Untouched k (k.reconcile c' w).1 userId := ⟨by rw [hgates.1], fun r _ => by rw [hgates.2],
    fun key task ht => ⟨hback key task ht, hkept key task ht⟩⟩
  exact ⟨hu, hu.symm.serves (hs.congr hsame)⟩

/-- Every port is free but that of the spec, which comes last. -/
def World.stoppingAt (c : ServerConfig) (spec : TunnelSpec) : World where
  now := 0
  order := ((desired c).entries.map (·.2)).erase spec ++ [spec]
  bind s := s ≠ spec

theorem World.stoppingAt_orders {c : ServerConfig} {spec : TunnelSpec}
    (hd : (desired c).lookup spec.proxyName = some spec) : (World.stoppingAt c spec).Orders c := by
  have hm : spec ∈ (desired c).entries.map (·.2) :=
    List.mem_map.2 ⟨⟨spec.proxyName, spec⟩, Assoc.mem_entries_iff.2 hd, rfl⟩
  exact (List.perm_append_singleton spec _).trans (List.perm_cons_erase hm).symm

/-- A call that stops at a spec has brought up the listeners of every other user. -/
theorem reconcile_stoppingAt {k : TrafficController τ} {c : ServerConfig} {spec : TunnelSpec}
    (hn : (c.tunnels.map (·.proxyName)).Nodup) (hp : ∀ t ∈ c.tunnels, t.protocol = tcp ∨ t.protocol = udp)
    (hd : (desired c).lookup spec.proxyName = some spec) {userId : Str} (hne : userId ≠ spec.userId) :
    Serves (k.reconcile c (World.stoppingAt c spec)).1 c userId := by
  have ho := World.stoppingAt_orders hd
  have hall : ∀ s, s ∈ ((desired c).entries.map (·.2)).erase spec → s ∈ specs c := fun s hs =>
    (mem_order hn ho s).1 (List.mem_append_left _ hs)
  have hnodup : ((desired c).entries.map (·.2)).Nodup := by
    refine List.Nodup.map_on ?_ (List.Nodup.of_map _ (desired c).nodupKeys)
    rintro ⟨x, s⟩ hx ⟨y, s'⟩ hy rfl
    rw [← ((lookup_desired hn x s).1 (Assoc.mem_entries_iff.1 hx)).2,
      ← ((lookup_desired hn y s).1 (Assoc.mem_entries_iff.1 hy)).2]
  have hok := reconcile_starts (k := k) (w := World.stoppingAt c spec) hn hp hall fun s hs _ => by
    simpa [World.stoppingAt] using ((hnodup.mem_erase_iff).1 hs).1
  intro key s hu
  refine ⟨?_, ?_⟩
  · intro h
    obtain ⟨task, ht, rfl⟩ := Option.map_eq_some_iff.1 h
    exact reconcile_origin hn ho ht
  · intro h
    obtain ⟨hs, rfl⟩ := (lookup_desired hn key s).1 h
    have hs' := (mem_order hn ho s).2 hs
    have hin : s ∈ ((desired c).entries.map (·.2)).erase spec := by
      rcases List.mem_append.1 hs' with hs' | hs'
      · exact hs'
      · exact absurd (List.mem_singleton.1 hs' ▸ hu.symm) hne
    obtain ⟨task, ht⟩ := Assoc.mem_iff_exists.1 (startTasks_complete hok s hin)
    have ht' : (k.reconcile c (World.stoppingAt c spec)).1.tasks.lookup s.proxyName = some task := by
      unfold TrafficController.reconcile
      rw [show (World.stoppingAt c spec).order = ((desired c).entries.map (·.2)).erase spec ++ [spec] from rfl,
        startTasks_append hok]
      exact startTasks_keeps.1 _ task ht
    have hd' := reconcile_origin hn ho ht'
    rw [h] at hd'
    rw [ht', Option.some.inj hd', Option.map_some]

/-- The specs of a user come from its own tunnels. -/
theorem desired_own {c : ServerConfig} (hn : (c.tunnels.map (·.proxyName)).Nodup)
    (hi : (c.users.map (·.id)).Nodup) {u : ServerUser} (hu : u ∈ c.users) {key : Str}
    {s : TunnelSpec} (hs : s.userId = u.id) :
    (desired c).lookup key = some s ↔
      (∃ t ∈ u.tunnels, s = specOf c u t) ∧ s.proxyName = key := by
  rw [lookup_desired hn, mem_specs]
  refine and_congr_left fun _ => ⟨?_, fun ⟨t, ht, he⟩ => ⟨u, hu, t, ht, he⟩⟩
  intro h
  obtain ⟨v, hv, t, ht, rfl⟩ := h
  obtain rfl := List.inj_on_of_nodup_map hi hv hu hs
  exact ⟨t, ht, rfl⟩

end OrangeFrp.Controller
