import OrangeFrp.Controller.Reconcile
import OrangeFrp.Core.LTS
import OrangeFrp.Storage.Valid

/-!
# The life of listeners (`frp-game-server/src/controller.rs`)

`reconcile` works in three phases: it takes the tasks that are not wanted out of the
map and cancels them, awaits their handles, and starts what is missing. Here the
phases are followed one by one, with a record of every listener that was ever started,
cancelled, and awaited. A listener leaves its loop only when it is cancelled: errors of
`accept` and `recv_from` go on with the next round.

* `stopLoop_tasks`: the stopping loop, in any order of the keys, is `stopTasks`.
* `Listeners.reconcile_controller`: without the records it is `reconcile`.
* `Listeners.Kept`: the live listeners are always those in the map.
* `reconcile_exact`: what a call leaves, whatever was called before.
-/
namespace OrangeFrp.Controller

open OrangeFrp.Core OrangeFrp.Storage

/-- The controller, and the listeners it has started, cancelled, and awaited to their end. -/
structure Listeners (τ : Type) where
  controller : TrafficController τ
  spawned : List ControllerTask
  cancelled : List ControllerTask
  awaited : List ControllerTask

/-- The task stays when the spec of its key is the same.
mirrors crates/frp-game-server/src/controller.rs:216-219 -/
def keepTask (c : ServerConfig) (key : Str) (task : ControllerTask) : Bool :=
  (desired c).lookup key = some task.spec

section
variable {τ : Type}

/-- One round of the stopping loop, with the tasks stopped so far.
mirrors crates/frp-game-server/src/controller.rs:215-226 -/
def stopKey (c : ServerConfig) (s : Listeners τ × List ControllerTask) (key : Str) :
    Listeners τ × List ControllerTask :=
  match s.1.controller.tasks.lookup key with
  | none => s
  | some task =>
    if keepTask c key task then s
    else
      ({ s.1 with
          controller := { s.1.controller with tasks := s.1.controller.tasks.erase key }
          cancelled := s.1.cancelled ++ [task] },
        s.2 ++ [task])

/-- Each handle is ready once its listener has seen the cancelled token.
mirrors crates/frp-game-server/src/controller.rs:228-230 -/
def Listeners.awaitAll (s : Listeners τ) (stopped : List ControllerTask) : Listeners τ :=
  { s with awaited := s.awaited ++ stopped }

/-- mirrors crates/frp-game-server/src/controller.rs:232-246 -/
def Listeners.startAll (bind : TunnelSpec → Bool) :
    Listeners τ → List TunnelSpec → Listeners τ × Except String Unit
  | s, [] => (s, .ok ())
  | s, spec :: rest =>
    if spec.proxyName ∈ s.controller.tasks then Listeners.startAll bind s rest
    else
      match s.controller.gates.lookup spec.userId with
      | none => (s, .error ("未找到用户流量控制器：" ++ String.ofList spec.userId))
      | some gate =>
        match startTask s.controller bind spec gate with
        | .error e => (s, .error e)
        | .ok k => Listeners.startAll bind
            { s with controller := k, spawned := s.spawned ++ [⟨s.controller.started, spec, gate⟩] } rest

/-- A call, whose stopping loop goes through the keys in the order given.
mirrors crates/frp-game-server/src/controller.rs:193-247 -/
def Listeners.reconcile [Double τ] (s : Listeners τ) (c : ServerConfig) (w : World) (keys : List Str) :
    Listeners τ × Except String Unit :=
  let stopped := keys.foldl (stopKey c)
    ({ s with controller := s.controller.reconcileGates c w.now }, [])
  (stopped.1.awaitAll stopped.2).startAll w.bind w.order

/-! ## The phases together are a call -/

/-- One round takes out the task of the key unless it may stay. -/
theorem stopKey_tasks (c : ServerConfig) (s : Listeners τ × List ControllerTask) (key : Str) :
    (stopKey c s key).1.controller = { s.1.controller with
      tasks := Assoc.retain (fun k task => k ≠ key || keepTask c k task) s.1.controller.tasks } := by
  have hself : (∀ task, s.1.controller.tasks.lookup key = some task → keepTask c key task = true) →
      Assoc.retain (fun k task => k ≠ key || keepTask c k task) s.1.controller.tasks =
        s.1.controller.tasks := by
    refine fun h => Assoc.retain_eq_self fun k task hk => ?_
    by_cases he : k = key
    · subst he; simp [h task hk]
    · simp [he]
  unfold stopKey
  split
  · rename_i hnone
    rw [hself fun task h => by rw [hnone] at h; cases h]
  rename_i task htask
  split
  · rename_i hkeep
    rw [hself fun task' h => by rw [htask] at h; cases h; exact hkeep]
  · rename_i hkeep
    simp only
    rw [Assoc.erase_eq_retain]
    congr 1
    refine Assoc.retain_congr fun k task' hk => ?_
    by_cases he : k = key
    · subst he
      rw [htask] at hk
      cases hk
      simp [hkeep]
    · simp [he]

/-- **The stopping loop**, in whatever order it goes through the keys. -/
theorem stopLoop_tasks (c : ServerConfig) (keys : List Str) (s : Listeners τ × List ControllerTask) :
    (keys.foldl (stopKey c) s).1.controller = { s.1.controller with
      tasks := Assoc.retain (fun k task => k ∉ keys || keepTask c k task) s.1.controller.tasks } := by
  induction keys generalizing s with
  | nil =>
    have hself : Assoc.retain (fun k task => k ∉ ([] : List Str) || keepTask c k task)
        s.1.controller.tasks = s.1.controller.tasks := Assoc.retain_eq_self fun _ _ _ => by simp
    rw [hself, List.foldl_nil]
  | cons key keys ih =>
    rw [List.foldl_cons, ih, stopKey_tasks]
    simp only [Assoc.retain_retain]
    congr 1
    refine Assoc.retain_congr fun k task _ => ?_
    by_cases he : k = key <;> by_cases hm : k ∈ keys <;> cases keepTask c k task <;> simp [he, hm]

theorem stopLoop_all {c : ServerConfig} {keys : List Str} {s : Listeners τ}
    (hk : keys.Perm s.controller.tasks.keys) :
    (keys.foldl (stopKey c) (s, [])).1.controller = s.controller.stopTasks c := by
  have htasks : Assoc.retain (fun k task => k ∉ keys || keepTask c k task) s.controller.tasks =
      Assoc.retain (keepTask c) s.controller.tasks := by
    refine Assoc.retain_congr fun key task h => ?_
    have hmem : key ∈ keys := hk.mem_iff.2 (Assoc.mem_iff_exists.2 ⟨task, h⟩)
    simp [hmem]
  rw [stopLoop_tasks]
  simp only [htasks]
  rfl

theorem startAll_controller (bind : TunnelSpec → Bool) (s : Listeners τ) (order : List TunnelSpec) :
    (s.startAll bind order).1.controller = (startTasks bind s.controller order).1 ∧
      (s.startAll bind order).2 = (startTasks bind s.controller order).2 := by
  induction order generalizing s with
  | nil => exact ⟨rfl, rfl⟩
  | cons spec order ih =>
    unfold Listeners.startAll startTasks
    by_cases hmem : spec.proxyName ∈ s.controller.tasks
    · rw [if_pos hmem, if_pos hmem]
      exact ih s
    rw [if_neg hmem, if_neg hmem]
    cases s.controller.gates.lookup spec.userId with
    | none => exact ⟨rfl, rfl⟩
    | some gate =>
      cases hs : startTask s.controller bind spec gate with
      | error e => simp only [hs]; exact ⟨trivial, trivial⟩
      | ok k => simp only [hs]; exact ih _

/-- **The phases make up the call.** -/
theorem Listeners.reconcile_controller [Double τ] {s : Listeners τ} {c : ServerConfig} {w : World}
    {keys : List Str} (hk : keys.Perm s.controller.tasks.keys) :
    (s.reconcile c w keys).1.controller = (s.controller.reconcile c w).1 ∧
      (s.reconcile c w keys).2 = (s.controller.reconcile c w).2 := by
  have hgates : keys.Perm (s.controller.reconcileGates c w.now).tasks.keys := by
    rw [reconcileGates_tasks]; exact hk
  have hstop := stopLoop_all (c := c)
    (s := { s with controller := s.controller.reconcileGates c w.now }) hgates
  unfold Listeners.reconcile TrafficController.reconcile
  rw [← hstop]
  exact startAll_controller _ _ _

/-! ## What the phases record -/

/-- **What the stopping loop records**: it cancels the tasks that may not stay. -/
theorem stopLoop_records (c : ServerConfig) (keys : List Str) (s : Listeners τ)
    (stopped : List ControllerTask) :
    (keys.foldl (stopKey c) (s, stopped)).1.spawned = s.spawned ∧
      (keys.foldl (stopKey c) (s, stopped)).1.awaited = s.awaited ∧
      ∃ more, (keys.foldl (stopKey c) (s, stopped)).2 = stopped ++ more ∧
        (keys.foldl (stopKey c) (s, stopped)).1.cancelled = s.cancelled ++ more ∧
        ∀ task, task ∈ more ↔
          ∃ key ∈ keys, s.controller.tasks.lookup key = some task ∧ keepTask c key task = false := by
  induction keys generalizing s stopped with
  | nil => exact ⟨rfl, rfl, [], by simp, by simp, by simp⟩
  | cons key keys ih =>
    have hlook : ∀ k task, (stopKey c (s, stopped) key).1.controller.tasks.lookup k = some task ∧
        keepTask c k task = false ↔
          k ≠ key ∧ s.controller.tasks.lookup k = some task ∧ keepTask c k task = false := by
      intro k task
      rw [stopKey_tasks]
      simp only [Assoc.lookup_retain, Option.filter_eq_some_iff, Bool.or_eq_true, decide_eq_true_eq]
      refine ⟨?_, ?_⟩
      · intro hx
        obtain ⟨⟨h, hor⟩, hkeep⟩ := hx
        exact ⟨hor.resolve_right (by rw [hkeep]; exact Bool.false_ne_true), h, hkeep⟩
      · intro hx
        obtain ⟨hne, h, hkeep⟩ := hx
        exact ⟨⟨h, .inl hne⟩, hkeep⟩
    obtain ⟨h₁, h₂, more, h₃, h₄, h₅⟩ :=
      ih (stopKey c (s, stopped) key).1 (stopKey c (s, stopped) key).2
    rw [List.foldl_cons]
    -- the round of `key` itself records nothing, or the task of `key`
    have hround : ∃ now, (stopKey c (s, stopped) key).2 = stopped ++ now ∧
        (stopKey c (s, stopped) key).1.cancelled = s.cancelled ++ now ∧
        (stopKey c (s, stopped) key).1.spawned = s.spawned ∧
        (stopKey c (s, stopped) key).1.awaited = s.awaited ∧
        ∀ task, task ∈ now ↔
          s.controller.tasks.lookup key = some task ∧ keepTask c key task = false := by
      unfold stopKey
      cases ht : s.controller.tasks.lookup key with
      | none => exact ⟨[], by simp, by simp, rfl, rfl, by simp⟩
      | some task =>
        cases hkeep : keepTask c key task with
        | true =>
          refine ⟨[], by simp [hkeep], by simp [hkeep], by simp [hkeep], by simp [hkeep], fun task' => ?_⟩
          simp only [List.not_mem_nil, Option.some.injEq, false_iff, not_and]
          intro heq
          obtain rfl := heq
          simp [hkeep]
        | false =>
          refine ⟨[task], by simp [hkeep], by simp [hkeep], by simp [hkeep], by simp [hkeep],
            fun task' => ?_⟩
          simp only [List.mem_singleton, Option.some.injEq]
          refine ⟨?_, ?_⟩
          · rintro rfl; exact ⟨rfl, hkeep⟩
          · rintro ⟨rfl, -⟩; rfl
    obtain ⟨now, h₆, h₇, h₈, h₉, h₁₀⟩ := hround
    refine ⟨h₁.trans h₈, h₂.trans h₉, now ++ more, ?_, ?_, fun task => ?_⟩
    · rw [h₃, h₆, List.append_assoc]
    · rw [h₄, h₇, List.append_assoc]
    · rw [List.mem_append, h₁₀, h₅]
      simp only [hlook, List.mem_cons]
      refine ⟨?_, ?_⟩
      · rintro (h | ⟨k, hk, -, h⟩)
        · exact ⟨key, .inl rfl, h⟩
        · exact ⟨k, .inr hk, h⟩
      · intro hx
        obtain ⟨k, hk, h⟩ := hx
        by_cases he : k = key
        · exact .inl (he ▸ h)
        · exact .inr ⟨k, hk.resolve_left he, he, h⟩

/-- **What the starting loop records**: whatever it starts is in the map under its name,
with a new number. -/
theorem startAll_records (bind : TunnelSpec → Bool) (s : Listeners τ) (order : List TunnelSpec) :
    (s.startAll bind order).1.cancelled = s.cancelled ∧
      (s.startAll bind order).1.awaited = s.awaited ∧
      s.controller.started ≤ (s.startAll bind order).1.controller.started ∧
      ∃ more, (s.startAll bind order).1.spawned = s.spawned ++ more ∧
        (∀ task ∈ more,
          (s.startAll bind order).1.controller.tasks.lookup task.spec.proxyName = some task ∧
          s.controller.started ≤ task.number ∧
          task.number < (s.startAll bind order).1.controller.started) ∧
        ∀ key task, (s.startAll bind order).1.controller.tasks.lookup key = some task →
          s.controller.tasks.lookup key = some task ∨ (task ∈ more ∧ task.spec.proxyName = key) := by
  have hnone : s.cancelled = s.cancelled ∧ s.awaited = s.awaited ∧
      s.controller.started ≤ s.controller.started ∧ ∃ more : List ControllerTask,
        s.spawned = s.spawned ++ more ∧
        (∀ task ∈ more, s.controller.tasks.lookup task.spec.proxyName = some task ∧
          s.controller.started ≤ task.number ∧ task.number < s.controller.started) ∧
        ∀ key task, s.controller.tasks.lookup key = some task →
          s.controller.tasks.lookup key = some task ∨ (task ∈ more ∧ task.spec.proxyName = key) :=
    ⟨rfl, rfl, le_rfl, [], by simp, by simp, fun _ _ h => .inl h⟩
  induction order generalizing s with
  | nil => exact hnone
  | cons spec order ih =>
    unfold Listeners.startAll
    split
    · exact ih s hnone
    split
    · exact hnone
    rename_i gate hgate
    cases hs : startTask s.controller bind spec gate with
    | error e => exact hnone
    | ok k =>
      dsimp only
      have hk := startTask_ok hs
      obtain ⟨h₁, h₂, h₃, more, h₄, h₅, h₆⟩ := ih
        { s with controller := k, spawned := s.spawned ++ [⟨s.controller.started, spec, gate⟩] }
        ⟨rfl, rfl, le_rfl, [], by simp, by simp, fun _ _ h => .inl h⟩
      have hstarted : k.started = s.controller.started + 1 := by rw [hk]
      have hlook : k.tasks.lookup spec.proxyName = some ⟨s.controller.started, spec, gate⟩ := by
        rw [hk]; exact AList.lookup_insert _
      simp only at h₃ h₄ h₅ h₆
      refine ⟨h₁, h₂, by omega, ⟨s.controller.started, spec, gate⟩ :: more, ?_, ?_, ?_⟩
      · rw [h₄, List.append_assoc]; rfl
      · refine List.forall_mem_cons.2 ⟨⟨?_, le_rfl, ?_⟩, fun task ht => ?_⟩
        · rw [(startAll_controller bind _ order).1]
          exact startTasks_keeps.1 _ _ hlook
        · change s.controller.started < _
          omega
        · obtain ⟨h, hle, hlt⟩ := h₅ task ht
          exact ⟨h, by omega, hlt⟩
      · intro key task h
        rcases h₆ key task h with h | ⟨h, he⟩
        · by_cases hkey : key = spec.proxyName
          · subst hkey
            rw [hlook] at h
            cases h
            exact .inr ⟨List.mem_cons_self, rfl⟩
          · rw [hk, AList.lookup_insert_ne hkey] at h
            exact .inl h
        · exact .inr ⟨List.mem_cons_of_mem _ h, he⟩

end

/-! ## Gates during a call -/

section
variable {τ : Type}

def GatesHeld (k : TrafficController τ) : Prop :=
  ∀ userId r, k.gates.lookup userId = some r → r < k.heap.length

/-- Every gate of the heap is still there with its counter. -/
def CountersKept (k k' : TrafficController τ) : Prop :=
  ∀ (r : GateRef) (g : GateState τ), k.heap[r]? = some g →
    ∃ g', k'.heap[r]? = some g' ∧ g'.usedBytes = g.usedBytes

theorem CountersKept.refl (k : TrafficController τ) : CountersKept k k := fun _ g h => ⟨g, h, rfl⟩

theorem CountersKept.trans {k₁ k₂ k₃ : TrafficController τ} (h : CountersKept k₁ k₂)
    (h' : CountersKept k₂ k₃) : CountersKept k₁ k₃ := by
  intro r g hg
  obtain ⟨g₁, hg₁, he₁⟩ := h r g hg
  obtain ⟨g₂, hg₂, he₂⟩ := h' r g₁ hg₁
  exact ⟨g₂, hg₂, he₂.trans he₁⟩

theorem allocate_held {k : TrafficController τ} (hk : GatesHeld k) (userId : Str) (g : GateState τ) :
    GatesHeld (k.allocate userId g) := by
  have hlen : (k.allocate userId g).heap.length = k.heap.length + 1 := by
    simp [TrafficController.allocate]
  intro q r h
  rw [allocate_lookup] at h
  rw [hlen]
  split at h
  · cases h; exact Nat.lt_succ_self _
  · exact Nat.lt_succ_of_lt (hk q r h)

theorem allocate_counters (k : TrafficController τ) (userId : Str) (g : GateState τ) :
    CountersKept k (k.allocate userId g) := by
  intro r g₁ h
  refine ⟨g₁, ?_, rfl⟩
  rw [TrafficController.allocate, List.getElem?_append_left (List.getElem?_eq_some_iff.1 h).1]
  exact h

variable [Double τ]

theorem reconcileGate_held {k : TrafficController τ} (hk : GatesHeld k) (now : Nat) (u : ServerUser) :
    (k.reconcileGate now u).started = k.started ∧ GatesHeld (k.reconcileGate now u) ∧
      (∀ q r, k.gates.lookup q = some r → (k.reconcileGate now u).gates.lookup q = some r) ∧
      CountersKept k (k.reconcileGate now u) := by
  unfold TrafficController.reconcileGate
  split
  · refine ⟨rfl, fun q r h => ?_, fun _ _ h => h, fun r g h => ?_⟩
    · rw [List.length_modify]; exact hk q r h
    · simp only [List.getElem?_modify, h]
      split
      · exact ⟨_, rfl, updateLimits_usedBytes g _ _ _⟩
      · exact ⟨g, rfl, rfl⟩
  · rename_i hnone
    refine ⟨rfl, allocate_held hk _ _, fun q r h => ?_, allocate_counters k _ _⟩
    rw [allocate_lookup, if_neg]
    · exact h
    · intro heq
      obtain rfl := heq
      rw [hnone] at h
      cases h

theorem foldl_reconcileGate_held {k : TrafficController τ} (hk : GatesHeld k) (now : Nat)
    (us : List ServerUser) :
    (us.foldl (TrafficController.reconcileGate now) k).started = k.started ∧
      GatesHeld (us.foldl (TrafficController.reconcileGate now) k) ∧
      (∀ q r, k.gates.lookup q = some r →
        (us.foldl (TrafficController.reconcileGate now) k).gates.lookup q = some r) ∧
      CountersKept k (us.foldl (TrafficController.reconcileGate now) k) := by
  induction us generalizing k with
  | nil => exact ⟨rfl, hk, fun _ _ h => h, .refl k⟩
  | cons u us ih =>
    obtain ⟨h₁, h₂, h₃, h₄⟩ := reconcileGate_held hk now u
    obtain ⟨i₁, i₂, i₃, i₄⟩ := ih h₂
    exact ⟨i₁.trans h₁, i₂, fun q r h => i₃ q r (h₃ q r h), h₄.trans i₄⟩

/-- **The gates of a call**: those of the users, and who had one keeps it with its counter. -/
theorem reconcileGates_held {k : TrafficController τ} (hk : GatesHeld k) (c : ServerConfig) (now : Nat) :
    (k.reconcileGates c now).started = k.started ∧ GatesHeld (k.reconcileGates c now) ∧
      (∀ q, ((k.reconcileGates c now).gates.lookup q).isSome = true ↔ q ∈ c.users.map (·.id)) ∧
      (∀ q r, k.gates.lookup q = some r → q ∈ c.users.map (·.id) →
        (k.reconcileGates c now).gates.lookup q = some r) ∧
      CountersKept k (k.reconcileGates c now) := by
  have hret : ∀ q r, (Assoc.retain (fun userId _ => userId ∈ c.users.map (·.id)) k.gates).lookup q =
      some r ↔ k.gates.lookup q = some r ∧ q ∈ c.users.map (·.id) := by
    intro q r
    rw [Assoc.lookup_retain, Option.filter_eq_some_iff, decide_eq_true_eq]
  obtain ⟨h₁, h₂, h₃, h₄⟩ := foldl_reconcileGate_held (k := { k with
    gates := Assoc.retain (fun userId _ => userId ∈ c.users.map (·.id)) k.gates })
    (fun q r h => hk q r ((hret q r).1 h).1) now c.users
  refine ⟨h₁, h₂, fun q => ?_, fun q r h hq => h₃ q r ((hret q r).2 ⟨h, hq⟩), h₄⟩
  refine ((foldl_reconcileGate now c.users _).2 q).trans ⟨?_, .inl⟩
  rintro (h | h)
  · exact h
  · obtain ⟨r, hr⟩ := Option.isSome_iff_exists.1 h
    exact ((hret q r).1 hr).2

end

/-! ## The system of calls -/

section
variable {τ : Type}

/-- A call of `reconcile`, or a session that reserves bytes at a gate. -/
inductive ControllerAct where
  | call (c : ServerConfig) (w : World) (keys : List Str)
  | reserve (gate : GateRef) (requested : Nat) (exact : Bool) (now : Readings)

/-- A call finds the keys and the wanted specs in any order. -/
def listeners (τ : Type) [Double τ] : LTS (Listeners τ) ControllerAct where
  init s := ∃ c now, s = ⟨.new c now, [], [], []⟩
  step s l t :=
    match l with
    | .call c w keys => w.Orders c ∧ keys.Perm s.controller.tasks.keys ∧ t = (s.reconcile c w keys).1
    | .reserve r requested exact now => ∃ g, s.controller.heap[r]? = some g ∧
      t = { s with controller := { s.controller with
        heap := s.controller.heap.set r (g.reserve requested exact now).2 } }

/-- The listener has been started and not been cancelled. -/
def Live (s : Listeners τ) (task : ControllerTask) : Prop := task ∈ s.spawned ∧ task ∉ s.cancelled

/-- Between calls: tasks stand under their names, the live listeners are those of the
map, numbers are not used twice, whatever was cancelled was awaited, gates are there. -/
structure Listeners.Kept (s : Listeners τ) : Prop where
  keyed : ∀ key task, s.controller.tasks.lookup key = some task → task.spec.proxyName = key
  live : ∀ task, s.controller.tasks.lookup task.spec.proxyName = some task ↔ Live s task
  numbered : ∀ task ∈ s.spawned, task.number < s.controller.started
  past : ∀ task ∈ s.cancelled, task ∈ s.spawned ∧ task ∈ s.awaited
  held : GatesHeld s.controller

variable {s t : Listeners τ}

section
variable {s : Listeners τ}

/-- The listeners of the map that may stay are those still live after the stopping loop. -/
theorem Listeners.Kept.stopped (h : s.Kept) (c : ServerConfig) {keys : List Str}
    (hk : keys.Perm s.controller.tasks.keys) {r : Listeners τ × List ControllerTask}
    (hr : keys.foldl (stopKey c) (s, []) = r) :
    (r.1.awaitAll r.2).Kept ∧
      (∀ key task, r.1.controller.tasks.lookup key = some task ↔
        s.controller.tasks.lookup key = some task ∧ keepTask c key task = true) ∧
      (∀ task, task ∈ r.2 ↔ ∃ key, s.controller.tasks.lookup key = some task ∧
        keepTask c key task = false) ∧
      r.1.spawned = s.spawned ∧ r.1.cancelled = s.cancelled ++ r.2 := by
  obtain ⟨hspawned, hawaited, more, hmore, hcancelled, hmem⟩ := stopLoop_records c keys s []
  have hctrl := stopLoop_all (c := c) hk
  rw [hr] at hspawned hawaited hmore hcancelled hctrl
  rw [List.nil_append] at hmore
  subst hmore
  have hlook : ∀ key task, r.1.controller.tasks.lookup key = some task ↔
      s.controller.tasks.lookup key = some task ∧ keepTask c key task = true := by
    intro key task
    rw [hctrl, stopTasks_lookup, keepTask, decide_eq_true_eq]
  have hstopped : ∀ task, task ∈ r.2 ↔ ∃ key, s.controller.tasks.lookup key = some task ∧
      keepTask c key task = false := by
    intro task
    rw [hmem]
    refine ⟨?_, ?_⟩
    · rintro ⟨key, -, hl⟩; exact ⟨key, hl⟩
    · intro hx
      obtain ⟨key, hl⟩ := hx
      exact ⟨key, hk.mem_iff.2 (Assoc.mem_iff_exists.2 ⟨task, hl.1⟩), hl⟩
  have hlive : ∀ key task, s.controller.tasks.lookup key = some task → Live s task := by
    intro key task hl
    rw [← h.live, h.keyed key task hl]
    exact hl
  refine ⟨⟨fun key task hl => h.keyed key task ((hlook key task).1 hl).1, fun task => ?_, ?_, ?_, ?_⟩,
    hlook, hstopped, hspawned, hcancelled⟩
  · show r.1.controller.tasks.lookup task.spec.proxyName = some task ↔
      task ∈ r.1.spawned ∧ task ∉ r.1.cancelled
    rw [hlook, hspawned, hcancelled, List.mem_append, hstopped, h.live]
    refine ⟨?_, ?_⟩
    · intro hx
      obtain ⟨⟨hs, hc⟩, hkeep⟩ := hx
      refine ⟨hs, ?_⟩
      rintro (hc' | ⟨key, hl, hkeep'⟩)
      · exact hc hc'
      · rw [← h.keyed key task hl, hkeep] at hkeep'
        cases hkeep'
    · intro hx
      obtain ⟨hs, hne⟩ := hx
      rw [not_or] at hne
      have hl := (h.live task).2 ⟨hs, hne.1⟩
      refine ⟨⟨hs, hne.1⟩, ?_⟩
      cases hkeep : keepTask c task.spec.proxyName task with
      | true => rfl
      | false => exact absurd ⟨_, hl, hkeep⟩ hne.2
  · show ∀ task ∈ r.1.spawned, task.number < r.1.controller.started
    rw [hspawned, hctrl]
    exact h.numbered
  · show ∀ task ∈ r.1.cancelled, task ∈ r.1.spawned ∧ task ∈ r.1.awaited ++ r.2
    rw [hcancelled, hspawned, hawaited]
    intro task ht
    rcases List.mem_append.1 ht with ht | ht
    · exact ⟨(h.past task ht).1, List.mem_append_left _ (h.past task ht).2⟩
    · obtain ⟨key, hl, -⟩ := (hstopped task).1 ht
      exact ⟨(hlive key task hl).1, List.mem_append_right _ ht⟩
  · show GatesHeld r.1.controller
    rw [hctrl]
    exact h.held

/-- The starting loop adds to the map what it adds to the live listeners. -/
theorem Listeners.Kept.started (h : s.Kept) (bind : TunnelSpec → Bool) (order : List TunnelSpec) :
    (s.startAll bind order).1.Kept ∧
      ∀ task ∈ (s.startAll bind order).1.spawned, task ∉ s.spawned →
        (s.startAll bind order).1.controller.tasks.lookup task.spec.proxyName = some task := by
  obtain ⟨hcancelled, hawaited, hle, more, hspawned, hmore, horigin⟩ := startAll_records bind s order
  have hkeeps := @startTasks_keeps τ bind s.controller order
  rw [← (startAll_controller bind s order).1] at hkeeps
  obtain ⟨hkeeps, hgates, hheap⟩ := hkeeps
  have hnew : ∀ task ∈ more, task ∉ s.cancelled := by
    intro task ht hc
    have h₁ := h.numbered task (h.past task hc).1
    have h₂ := (hmore task ht).2.1
    omega
  refine ⟨⟨fun key task hl => ?_, fun task => ?_, fun task ht => ?_, ?_, ?_⟩, fun task ht hne => ?_⟩
  · rcases horigin key task hl with hl | ⟨-, he⟩
    · exact h.keyed key task hl
    · exact he
  · unfold Live
    rw [hspawned, hcancelled, List.mem_append]
    refine ⟨?_, ?_⟩
    · intro hl
      rcases horigin _ task hl with hl | ⟨ht, -⟩
      · exact ⟨.inl ((h.live task).1 hl).1, ((h.live task).1 hl).2⟩
      · exact ⟨.inr ht, hnew task ht⟩
    · rintro ⟨ht | ht, hc⟩
      · exact hkeeps _ task ((h.live task).2 ⟨ht, hc⟩)
      · exact (hmore task ht).1
  · rw [hspawned] at ht
    rcases List.mem_append.1 ht with ht | ht
    · exact lt_of_lt_of_le (h.numbered task ht) hle
    · exact (hmore task ht).2.2
  · rw [hcancelled, hspawned, hawaited]
    exact fun task ht => ⟨List.mem_append_left _ (h.past task ht).1, (h.past task ht).2⟩
  · intro userId r hr
    rw [hgates] at hr
    rw [hheap]
    exact h.held userId r hr
  · rw [hspawned] at ht
    exact (hmore task ((List.mem_append.1 ht).resolve_left hne)).1

end

end

/-! ## A call -/

section
variable {τ : Type} [Double τ] {s : Listeners τ} {c : ServerConfig} {w : World} {keys : List Str}

/-- The gates brought in line, before the loops. -/
theorem Listeners.Kept.gates (h : s.Kept) (c : ServerConfig) (now : Nat) :
    Listeners.Kept { s with controller := s.controller.reconcileGates c now } := by
  obtain ⟨hstarted, hheld, -⟩ := reconcileGates_held h.held c now
  have htasks := reconcileGates_tasks s.controller c now
  refine ⟨?_, ?_, ?_, h.past, hheld⟩
  · show ∀ key task, (s.controller.reconcileGates c now).tasks.lookup key = some task → _
    rw [htasks]
    exact h.keyed
  · show ∀ task, (s.controller.reconcileGates c now).tasks.lookup task.spec.proxyName = some task ↔ _
    rw [htasks]
    exact h.live
  · show ∀ task ∈ s.spawned, task.number < (s.controller.reconcileGates c now).started
    rw [hstarted]
    exact h.numbered

/-- What a call does to the listeners, whatever its result. -/
structure Listeners.Moved (s : Listeners τ) (c : ServerConfig) (t : Listeners τ) : Prop where
  kept : t.Kept
  unchanged : ∀ key task, s.controller.tasks.lookup key = some task → keepTask c key task = true →
    t.controller.tasks.lookup key = some task
  stopped : ∀ key task, s.controller.tasks.lookup key = some task →
    t.controller.tasks.lookup key ≠ some task → task ∈ t.cancelled ∧ task ∈ t.awaited
  started : ∀ task ∈ t.spawned, task ∉ s.spawned →
    t.controller.tasks.lookup task.spec.proxyName = some task

/-- **A call keeps the account of the listeners.** -/
theorem Listeners.Kept.reconcile (h : s.Kept) (hk : keys.Perm s.controller.tasks.keys) :
    s.Moved c (s.reconcile c w keys).1 := by
  have htasks := reconcileGates_tasks s.controller c w.now
  have hkeys : keys.Perm (s.controller.reconcileGates c w.now).tasks.keys := by rw [htasks]; exact hk
  obtain ⟨hkept, hlook, hstopped, hspawned, hcancelled⟩ := (h.gates c w.now).stopped c hkeys rfl
  simp only [htasks] at hlook hstopped
  obtain ⟨hkept', hstarted⟩ := hkept.started w.bind w.order
  have hkeeps := @startTasks_keeps τ w.bind
  obtain ⟨hcancel, hawait, -⟩ := startAll_records w.bind ((keys.foldl (stopKey c)
    ({ s with controller := s.controller.reconcileGates c w.now }, [])).1.awaitAll (keys.foldl (stopKey c)
      ({ s with controller := s.controller.reconcileGates c w.now }, [])).2) w.order
  refine ⟨hkept', fun key task hl hkeep => ?_, fun key task hl hne => ?_, fun task ht hnew => ?_⟩
  · unfold Listeners.reconcile
    rw [(startAll_controller _ _ _).1]
    exact hkeeps.1 key task ((hlook key task).2 ⟨hl, hkeep⟩)
  · cases hkeep : keepTask c key task with
    | true =>
      refine absurd ?_ hne
      unfold Listeners.reconcile
      rw [(startAll_controller _ _ _).1]
      exact hkeeps.1 key task ((hlook key task).2 ⟨hl, hkeep⟩)
    | false =>
      have hmem := (hstopped task).2 ⟨key, hl, hkeep⟩
      have hin : task ∈ (s.reconcile c w keys).1.cancelled := by
        show task ∈ (Listeners.startAll _ _ _).1.cancelled
        rw [hcancel]
        show task ∈ (keys.foldl (stopKey c) _).1.cancelled
        rw [hcancelled]
        exact List.mem_append_right _ hmem
      exact ⟨hin, (hkept'.past task hin).2⟩
  · refine hstarted task ht ?_
    show task ∉ (keys.foldl (stopKey c) _).1.spawned
    rw [hspawned]
    exact hnew

/-- A new controller has no tasks. -/
theorem new_held (c : ServerConfig) (now : Nat) :
    (TrafficController.new c now : TrafficController τ).tasks = ∅ ∧
      GatesHeld (TrafficController.new c now : TrafficController τ) := by
  have h : ∀ (us : List ServerUser) (k : TrafficController τ), GatesHeld k →
      (us.foldl (fun k u => k.allocate u.id (gateOf u now)) k).tasks = k.tasks ∧
        GatesHeld (us.foldl (fun k u => k.allocate u.id (gateOf u now)) k) := by
    intro us
    induction us with
    | nil => exact fun k hk => ⟨rfl, hk⟩
    | cons u us ih => exact fun k hk => ih _ (allocate_held hk u.id _)
  exact h c.users _ fun userId r hr => by cases hr

theorem listeners_inductive : (listeners τ).Inductive Listeners.Kept where
  init s h := by
    obtain ⟨c, now, rfl⟩ := h
    obtain ⟨htasks, hheld⟩ := new_held (τ := τ) c now
    refine ⟨fun key task hl => ?_, fun task => ?_, by simp, by simp, hheld⟩
    · rw [htasks] at hl
      cases hl
    · rw [htasks]
      exact iff_of_false (by rintro ⟨⟩) fun hl => by cases hl.1
  step s l t h hst := by
    cases l with
    | call c w keys =>
      obtain ⟨-, hk, rfl⟩ := hst
      exact (h.reconcile hk).kept
    | reserve r requested exact now =>
      obtain ⟨g, -, rfl⟩ := hst
      refine ⟨h.keyed, h.live, h.numbered, h.past, fun userId q hq => ?_⟩
      show q < (s.controller.heap.set r _).length
      rw [List.length_set]
      exact h.held userId q hq

/-- What a call has to leave behind. -/
structure Reconciled (s : Listeners τ) (c : ServerConfig) (t : Listeners τ) (result : Except String Unit) :
    Prop where
  /-- after `Ok` each tunnel has one live listener, the one in the map -/
  exact : result = .ok () → ∀ u ∈ c.users, ∀ o ∈ u.tunnels, ∃ task,
    t.controller.tasks.lookup o.proxyName = some task ∧ task.spec = specOf c u o ∧ Live t task ∧
      ∀ task', Live t task' → task'.spec.proxyName = o.proxyName → task' = task
  /-- every task left is one of a tunnel -/
  matching : ∀ key task, t.controller.tasks.lookup key = some task →
    ∃ u ∈ c.users, ∃ o ∈ u.tunnels, key = o.proxyName ∧ task.spec = specOf c u o
  /-- the live listeners are those in the map -/
  live : ∀ task, Live t task ↔ ∃ key, t.controller.tasks.lookup key = some task
  /-- who matches a tunnel stays -/
  unchanged : ∀ key task, s.controller.tasks.lookup key = some task →
    (∃ u ∈ c.users, ∃ o ∈ u.tunnels, key = o.proxyName ∧ task.spec = specOf c u o) →
      t.controller.tasks.lookup key = some task ∧ task ∉ t.cancelled
  /-- who leaves was cancelled and awaited -/
  stopped : ∀ key task, s.controller.tasks.lookup key = some task →
    t.controller.tasks.lookup key ≠ some task → task ∈ t.cancelled ∧ task ∈ t.awaited
  /-- who was started is in the map -/
  started : ∀ task ∈ t.spawned, task ∉ s.spawned →
    t.controller.tasks.lookup task.spec.proxyName = some task
  /-- the gates are those of the users -/
  gates : ∀ userId, (t.controller.gates.lookup userId).isSome = true ↔ userId ∈ c.users.map (·.id)
  /-- a gate that was there is the same with the same counter -/
  counters : ∀ userId r, s.controller.gates.lookup userId = some r → userId ∈ c.users.map (·.id) →
    t.controller.gates.lookup userId = some r ∧
      ∃ g g', s.controller.heap[r]? = some g ∧ t.controller.heap[r]? = some g' ∧
        g'.usedBytes = g.usedBytes

/-- **Reconcile is exact** after any calls before it, whichever ports can be bound and in
whatever order the maps come. -/
theorem reconcile_exact {P : Primitives} (h : (listeners τ).Reachable s) (hv : Valid P c)
    (ho : w.Orders c) (hk : keys.Perm s.controller.tasks.keys) :
    Reconciled s c (s.reconcile c w keys).1 (s.reconcile c w keys).2 := by
  have hs := listeners_inductive.reachable s h
  have hn := newIn_empty.1 hv.distinct.tunnels.names
  obtain ⟨hctrl, hres⟩ := Listeners.reconcile_controller (c := c) (w := w) hk
  have hmoved := hs.reconcile (c := c) (w := w) hk
  have hkept := hmoved.kept
  obtain ⟨-, -, hgates, hsame, hcounters⟩ := reconcileGates_held hs.held c w.now
  obtain ⟨hg, hh⟩ := reconcile_gates (k := s.controller) (c := c) (w := w)
  rw [← hctrl] at hg hh
  have htunnel : ∀ key spec, (desired c).lookup key = some spec ↔
      ∃ u ∈ c.users, ∃ o ∈ u.tunnels, key = o.proxyName ∧ spec = specOf c u o := by
    intro key spec
    rw [lookup_desired hn, mem_specs]
    refine ⟨?_, ?_⟩
    · rintro ⟨⟨u, hu, o, ho, rfl⟩, rfl⟩; exact ⟨u, hu, o, ho, rfl, rfl⟩
    · rintro ⟨u, hu, o, ho, rfl, rfl⟩; exact ⟨⟨u, hu, o, ho, rfl⟩, rfl⟩
  have hlive : ∀ key task, (s.reconcile c w keys).1.controller.tasks.lookup key = some task →
      Live (s.reconcile c w keys).1 task := by
    intro key task hl
    rw [← hkept.live, hkept.keyed key task hl]
    exact hl
  refine ⟨fun hok u hu o ho' => ?_, fun key task hl => ?_, fun task => ⟨fun hl => ?_, ?_⟩, ?_,
    hmoved.stopped, hmoved.started, fun userId => ?_, fun userId r hr hm => ?_⟩
  · have hrun := reconcile_complete hn ho (hres.symm.trans hok) o.proxyName
    rw [(htunnel _ _).2 ⟨u, hu, o, ho', rfl, rfl⟩, ← hctrl, Option.map_eq_some_iff] at hrun
    obtain ⟨task, hl, hspec⟩ := hrun
    refine ⟨task, hl, hspec, hlive _ task hl, fun task' hlive' he => ?_⟩
    have hl' := (hkept.live task').2 hlive'
    rw [he, hl] at hl'
    exact (Option.some.inj hl').symm
  · rw [hctrl] at hl
    exact (htunnel _ _).1 (reconcile_origin hn ho hl)
  · exact ⟨_, (hkept.live task).2 hl⟩
  · intro hx
    obtain ⟨key, hl⟩ := hx
    exact hlive key task hl
  · intro key task hl hmatch
    have hl' := hmoved.unchanged key task hl (decide_eq_true ((htunnel _ _).2 hmatch))
    exact ⟨hl', (hlive key task hl').2⟩
  · rw [hg]
    exact hgates userId
  · rw [hg, hh]
    obtain ⟨g', hg', he⟩ := hcounters r _ (List.getElem?_eq_getElem (hs.held userId r hr))
    exact ⟨hsame userId r hr hm, _, g', List.getElem?_eq_getElem (hs.held userId r hr), hg', he⟩

end

/-! ## A port that is free at the second call -/

/-- After a call that could not bind the port. -/
def afterFailure : Listeners Rat :=
  ((⟨.new oneTunnel 0, [], [], []⟩ : Listeners Rat).reconcile oneTunnel
    (World.blocking oneTunnel [5]) []).1

theorem afterFailure_reconciled : ∃ task,
    (afterFailure.reconcile oneTunnel (World.blocking oneTunnel []) []).1.controller.tasks.lookup
      (fgPrefix ++ ['x']) = some task ∧
    Live (afterFailure.reconcile oneTunnel (World.blocking oneTunnel []) []).1 task := by
  have hkeys : afterFailure.controller.tasks.keys = [] := by decide +kernel
  have hreach : (listeners Rat).Reachable afterFailure :=
    ⟨_, [.call oneTunnel (World.blocking oneTunnel [5]) []], ⟨oneTunnel, 0, rfl⟩,
      .cons ⟨World.blocking_orders _ _, by decide +kernel, rfl⟩ (.nil _)⟩
  have hperm : [].Perm afterFailure.controller.tasks.keys := by rw [hkeys]
  have hr := reconcile_exact (P := Primitives.plain) hreach
    (valid_of_fixed (d := Draws.constant) .plain (by decide +kernel))
    (World.blocking_orders oneTunnel []) hperm
  obtain ⟨task, hl, -, hlive, -⟩ := hr.exact (by decide +kernel) _ (List.mem_singleton_self _)
    (sampleTunnel ['x'] 5 20000) (List.mem_singleton_self _)
  exact ⟨task, hl, hlive⟩

end OrangeFrp.Controller
