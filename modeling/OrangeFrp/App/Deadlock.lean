import OrangeFrp.App.LockOrder

/-!
# The tasks never wait for one another in a circle

* `World.WaitsFor`: a task that cannot go on waits for those ahead of it in the line, and
  for whoever keeps what it awaits.
* `no_deadlock`: in every state the process can reach these waits have no cycle, and of
  tasks that wait only for one another some can go on.
-/
namespace OrangeFrp.Awaits

open OrangeFrp.Core OrangeFrp.Controller

/-- The steps a task takes of itself. -/
def Act.by : Act → Option Party
  | .run p | .leave p _ => some p
  | .receive => some .accounting
  | _ => none

def World.CanStep (w : World) (p : Party) : Prop := ∃ a w', a.by = some p ∧ w.step a = some w'

/-- A loop between two rounds, with nothing to do. -/
def World.Idle (w : World) (p : Party) : Prop :=
  w.life p = .running [] ∧ w.told p = false ∧ (p = .accounting → w.queue = 0)

def World.Unfinished (w : World) (p : Party) : Prop :=
  (∃ prog, w.life p = .running prog) ∧ ¬ w.Idle p

def World.AwaitsOutside (w : World) (p : Party) : Prop := ∃ prog, w.life p = .running (.outside :: prog)

/-- Who keeps what is awaited: the holders of a lock that exclude the one who asks, the
receiver of a full queue, a task that has not ended. -/
def World.keeper (w : World) (q : Party) : Instr → Bool
  | .lock l m => (w.holders l).any fun h => decide (h.1 = q) && !m.beside h.2
  | .send => decide (q = .accounting ∧ ACCOUNTING_QUEUE_CAPACITY ≤ w.queue)
  | .join t => decide (q = t ∧ w.life t ≠ .finished)
  | _ => false

def World.ahead (w : World) (q p : Party) (i : Instr) : Prop :=
  match i.asks with
  | some r => Ahead (w.line r) q p
  | none => False

def World.WaitsFor (w : World) (p q : Party) : Prop :=
  match w.life p with
  | .running (i :: prog) => w.exec p prog i = none ∧ (w.ahead q p i ∨ w.keeper q i)
  | _ => False

instance (w : World) (q p : Party) (i : Instr) : Decidable (w.ahead q p i) :=
  match h : i.asks with
  | some r => decidable_of_iff (Ahead (w.line r) q p) (by rw [World.ahead, h])
  | none => isFalse (by rw [World.ahead, h]; exact id)

instance (w : World) (p q : Party) : Decidable (w.WaitsFor p q) :=
  match h : w.life p with
  | .running (i :: prog) =>
    decidable_of_iff (w.exec p prog i = none ∧ (w.ahead q p i ∨ w.keeper q i)) (by rw [World.WaitsFor, h])
  | .running [] | .unborn | .finished => isFalse (by rw [World.WaitsFor, h]; exact id)

structure World.DeadlockFree (w : World) : Prop where
  acyclic : ∀ p, ¬ Relation.TransGen w.WaitsFor p p
  progress : ∀ D : Set Party, (∃ p ∈ D, w.Unfinished p) → (∀ p ∈ D, ¬ w.AwaitsOutside p) →
    (∀ p ∈ D, ∀ q, w.WaitsFor p q → q ∈ D) → ∃ p ∈ D, w.CanStep p

variable {w : World} {p q : Party}

theorem World.WaitsFor.running (h : w.WaitsFor p q) :
    ∃ i prog, w.life p = .running (i :: prog) ∧ w.exec p prog i = none ∧
      (w.ahead q p i ∨ w.keeper q i) := by
  unfold WaitsFor at h
  split at h
  · rename_i i prog hl
    exact ⟨i, prog, hl, h⟩
  · cases h

/-! ## Who cannot go on waits for somebody -/

theorem World.exec_stuck {i : Instr} {prog : List Instr} (hl : w.life p = .running (i :: prog))
    (hs : w.exec p prog i = none) (hi : i ≠ .outside) : ∃ q, w.WaitsFor p q := by
  have hwait : ∀ q, w.ahead q p i ∨ w.keeper q i → w.WaitsFor p q := by
    intro q hq
    unfold WaitsFor
    rw [hl]
    exact ⟨hs, hq⟩
  by_cases hahead : ∃ q, w.ahead q p i
  · obtain ⟨q, hq⟩ := hahead
    exact ⟨q, hwait q (.inl hq)⟩
  have hfirst : ∀ r, i.asks = some r → p ∈ w.line r → (w.line r).head? = some p := by
    refine fun r hr hp => head_of_none_ahead hp fun q hq => hahead ⟨q, ?_⟩
    rw [ahead, hr]
    exact hq
  cases i with
  | lock l m =>
    simp only [exec] at hs
    split at hs
    · cases hs
    rename_i hin
    split at hs
    · cases hs
    rename_i hopens
    have hadmits : m.admits (w.holders l) = false := by
      simpa [opens, hfirst _ rfl (not_not.1 hin)] using hopens
    obtain ⟨q, m', hm, hb⟩ := Mode.admits_eq_false hadmits
    exact ⟨q, hwait q (.inr (List.any_eq_true.2 ⟨(q, m'), hm, by simp [hb]⟩))⟩
  | send =>
    simp only [exec] at hs
    split at hs
    · cases hs
    split at hs
    · cases hs
    rename_i hin
    split at hs
    · cases hs
    rename_i hopens
    have hfull : ACCOUNTING_QUEUE_CAPACITY ≤ w.queue := by
      simpa [opens, hfirst _ rfl (not_not.1 hin)] using hopens
    exact ⟨.accounting, hwait _ (.inr (by simp [keeper, hfull]))⟩
  | join t =>
    simp only [exec] at hs
    split at hs
    · cases hs
    rename_i hl'
    exact ⟨t, hwait t (.inr (by simp [keeper, hl']))⟩
  | outside => exact absurd rfl hi
  | unlock | stop | start | register | spawn | exit => cases hs

/-- Who is unfinished and waits for nobody, nor for the world, can go on. -/
theorem World.Unfinished.canStep (h : w.Unfinished p) (hfree : ∀ q, ¬ w.WaitsFor p q)
    (hout : ¬ w.AwaitsOutside p) : w.CanStep p := by
  obtain ⟨⟨prog, hl⟩, hidle⟩ := h
  cases prog with
  | nil =>
    by_cases htold : w.told p = true
    · have hleave : ∃ w', w.leave p false = some w' := by
        unfold leave
        rw [if_pos htold]
        cases p with
        | listener i => exact ⟨_, by simp only [hl]; rfl⟩
        | session i n => exact ⟨_, by simp only [hl]; rfl⟩
        | accounting => exact ⟨_, by simp only [hl]; rfl⟩
        | request | serve | copy => cases htold
      obtain ⟨w', hw'⟩ := hleave
      exact ⟨.leave p false, w', rfl, hw'⟩
    · have hrec : p = .accounting ∧ w.queue ≠ 0 := by
        by_contra hno
        refine hidle ⟨hl, by simpa using htold, fun hp => ?_⟩
        by_contra hq
        exact hno ⟨hp, hq⟩
      obtain ⟨rfl, hq⟩ := hrec
      exact ⟨.receive, _, rfl, if_pos ⟨hl, Nat.pos_of_ne_zero hq⟩⟩
  | cons i prog =>
    cases hs : w.exec p prog i with
    | none =>
      have hi : i ≠ .outside := by
        intro heq
        obtain rfl := heq
        exact hout ⟨prog, hl⟩
      obtain ⟨q, hq⟩ := exec_stuck hl hs hi
      exact absurd hq (hfree q)
    | some w' => exact ⟨.run p, w', rfl, by simp only [step, run, hl, hs]⟩

/-! ## Who is waited for holds something, or is in a line -/

/-- The locks, and what others await of the task as long as it runs. -/
def World.holdsAny (w : World) (p : Party) : Resource → Prop
  | .lock l => w.Holds p l
  | r => r ∈ p.base

def World.waits (w : World) : Waits Party Resource where
  awaits p :=
    match w.life p with
    | .running (i :: _) => i.awaits
    | _ => none
  holds := w.holdsAny
  line := w.line

theorem World.Ending.mem_base (h : w.Ending p) : Resource.ended p ∈ p.base := by
  cases p with
  | listener i => exact List.mem_cons_self
  | accounting => exact List.mem_cons_of_mem _ List.mem_cons_self
  | request | serve | copy | session => cases h

theorem World.Ending.told (h : w.Ending p) : w.told p = true := by
  cases p with
  | listener i => exact decide_eq_true h.2
  | accounting => exact h
  | request | serve | copy | session => cases h

theorem Instr.awaits_of_asks {i : Instr} {r : Resource} (h : i.asks = some r) : i.awaits = some r := by
  cases i <;> simp_all [asks, awaits]

/-- Nothing awaited is below what is held. -/
theorem after_awaits {held t : List Resource} {i : Instr} {prog : List Instr} {r : Resource}
    (h : after held (i :: prog) = some t) (hi : i.awaits = some r) : above held r := by
  cases i with
  | lock l m =>
    cases hi
    simp only [after] at h
    split at h
    · assumption
    · cases h
  | join q =>
    cases hi
    simp only [after] at h
    split at h
    · assumption
    · cases h
  | send =>
    cases hi
    simp only [after] at h
    split at h
    · assumption
    · cases h
  | _ => cases hi

/-- Who stands in a line runs, and awaits what the line is for. -/
theorem World.Sound.mem_line (h : w.Sound) {r : Resource} (hm : p ∈ w.line r) :
    ∃ i prog, w.life p = .running (i :: prog) ∧ i.asks = some r := by
  have hk := h.keeps p
  cases hl : w.life p with
  | running prog =>
    obtain ⟨i, rest, rfl, hi⟩ := (hk.running hl).line r hm
    exact ⟨i, rest, rfl, hi⟩
  | unborn => exact absurd hm ((hk.absent (by simp [hl])).line r)
  | finished => exact absurd hm ((hk.absent (by simp [hl])).line r)

theorem World.Sound.waitsFor (h : w.Sound) (hw : w.WaitsFor p q) : w.waits.For p q := by
  obtain ⟨i, prog, hl, -, hq⟩ := hw.running
  have hawaits : ∀ r, i.awaits = some r → w.waits.awaits p = some r := by
    intro r hr
    simp only [waits, hl]
    exact hr
  rcases hq with hahead | hkeep
  · unfold ahead at hahead
    split at hahead
    · rename_i r hr
      obtain ⟨j, rest, hlq, hj⟩ := h.mem_line hahead.mem
      refine ⟨r, hawaits r (Instr.awaits_of_asks hr), .inr ⟨?_, hahead⟩⟩
      simp only [waits, hlq]
      exact Instr.awaits_of_asks hj
    · cases hahead
  · cases i with
    | lock l m =>
      obtain ⟨⟨q', m'⟩, hm, hb⟩ := List.any_eq_true.1 hkeep
      have hq : q' = q := by simp at hb; exact hb.1
      subst hq
      exact ⟨.lock l, hawaits _ rfl, .inl ⟨m', hm⟩⟩
    | send =>
      obtain ⟨rfl, -⟩ := of_decide_eq_true hkeep
      exact ⟨.room, hawaits _ rfl, .inl (show Resource.room ∈ Party.accounting.base from List.mem_cons_self)⟩
    | join t =>
      obtain ⟨rfl, -⟩ := of_decide_eq_true hkeep
      exact ⟨.ended q, hawaits _ rfl,
        .inl (((h.keeps p).running hl).joins q List.mem_cons_self).mem_base⟩
    | _ => cases hkeep

theorem World.Sound.ordered (h : w.Sound) : w.waits.Ordered Resource.rank 4 where
  above p r r' hr hp := by
    simp only [waits] at hr hp
    split at hp
    · rename_i i prog hl
      obtain ⟨held, -, hheld, hrun⟩ := ((h.keeps p).running hl).held
      refine of_decide_eq_true (List.all_eq_true.1 (after_awaits hrun hp) r (List.mem_append.2 ?_))
      cases r with
      | lock l => exact .inl (List.mem_map_of_mem ((hheld l).1 hr))
      | room | ended => exact .inr hr
    · cases hp
  below := Resource.rank_lt

theorem Life.running_of_ne {x : Life} (hu : x ≠ .unborn) (hf : x ≠ .finished) :
    ∃ prog, x = .running prog := by
  cases x with
  | running prog => exact ⟨prog, rfl⟩
  | unborn => exact absurd rfl hu
  | finished => exact absurd rfl hf

/-- Who holds a lock is in the middle of a round. -/
theorem World.Sound.holds_busy (h : w.Sound) {l : LockId} (hq : w.Holds q l) :
    ∃ i prog, w.life q = .running (i :: prog) := by
  have hk := h.keeps q
  cases hl : w.life q with
  | running prog =>
    obtain ⟨held, -, hheld, hrun⟩ := (hk.running hl).held
    cases prog with
    | nil =>
      simp only [after, Option.some.injEq, List.append_left_eq_self, List.map_eq_nil_iff] at hrun
      subst hrun
      exact absurd ((hheld l).1 hq) List.not_mem_nil
    | cons i prog => exact ⟨i, prog, rfl⟩
  | unborn => exact absurd hq ((hk.absent (by simp [hl])).held l)
  | finished => exact absurd hq ((hk.absent (by simp [hl])).held l)

theorem World.Sound.ending_running (h : w.Sound) (hq : w.Ending q) (hf : w.life q ≠ .finished) :
    ∃ prog, w.life q = .running prog := by
  refine Life.running_of_ne ?_ hf
  cases q with
  | listener i => exact hq.1
  | accounting => exact h.accounting
  | request | serve | copy | session => cases hq

/-- **Nobody waits for a loop that is idle**, or for a task that is not there. -/
theorem World.Sound.waited_unfinished (h : w.Sound) (hw : w.WaitsFor p q) : w.Unfinished q := by
  obtain ⟨i, prog, hl, hs, hq⟩ := hw.running
  have hbusy : (∃ j rest, w.life q = .running (j :: rest)) → w.Unfinished q := by
    intro hx
    obtain ⟨j, rest, hlq⟩ := hx
    refine ⟨⟨_, hlq⟩, fun hi => ?_⟩
    have hl := hi.1
    simp [hlq] at hl
  rcases hq with hahead | hkeep
  · unfold ahead at hahead
    split at hahead
    · obtain ⟨j, rest, hlq, -⟩ := h.mem_line hahead.mem
      exact hbusy ⟨j, rest, hlq⟩
    · cases hahead
  · cases i with
    | lock l m =>
      obtain ⟨⟨q', m'⟩, hm, hb⟩ := List.any_eq_true.1 hkeep
      have hq : q' = q := by simp at hb; exact hb.1
      subst hq
      exact hbusy (h.holds_busy ⟨m', hm⟩)
    | send =>
      obtain ⟨rfl, hfull⟩ := of_decide_eq_true hkeep
      have hf : w.life .accounting ≠ .finished := by
        intro hf
        simp [exec, hf] at hs
      have hpos : 0 < ACCOUNTING_QUEUE_CAPACITY := by decide
      refine ⟨Life.running_of_ne h.accounting hf, fun hi => ?_⟩
      have hempty := hi.2.2 rfl
      omega
    | join t =>
      obtain ⟨rfl, hf⟩ := of_decide_eq_true hkeep
      have hend := ((h.keeps p).running hl).joins q List.mem_cons_self
      refine ⟨h.ending_running hend hf, fun hi => ?_⟩
      have htold := hi.2.1
      rw [hend.told] at htold
      cases htold
    | _ => cases hkeep

/-- **Freedom from deadlock.** In every state the process can reach, whatever the order of
its steps and however many requests, listeners and sessions there are, no waits form a
cycle, and tasks that wait only for one another include one that can go on. -/
theorem no_deadlock (h : process.Reachable w) : w.DeadlockFree := by
  have hsound := sound_inductive.reachable w h
  have hord := hsound.ordered
  have hmono : ∀ p q, w.WaitsFor p q → w.waits.For p q := fun _ _ => hsound.waitsFor
  refine ⟨fun p hp => hord.acyclic p (Relation.TransGen.mono hmono p p hp), fun D ⟨p, hpD, hp⟩ hout hclosed => ?_⟩
  obtain ⟨q, hq, hfree⟩ := hord.exists_free hmono p
  have hin : ∀ t, Relation.ReflTransGen w.WaitsFor p t → t ∈ D := by
    intro t ht
    induction ht with
    | refl => exact hpD
    | tail _ hw ih => exact hclosed _ ih _ hw
  have hqD := hin q hq
  have hqu : w.Unfinished q := by
    rcases hq.cases_tail with rfl | ⟨r, -, hw⟩
    · exact hp
    · exact hsound.waited_unfinished hw
  exact ⟨q, hqD, hqu.canStep hfree (hout q hqD)⟩

/-- A session has passed on a packet and is leaving, with the map of its listener. The
listener has another datagram and asks for the map, a request stops the listener, and the
accounting task has that packet to store. -/
def heldUp : List Act :=
  let runs (p : Party) (n : Nat) := List.replicate n (Act.run p)
  [.datagram 0 (.opened false)] ++ runs (.listener 0) 10 ++
  [.reply (.session 0 1), .packet 0 1 (some 0) .passed] ++ runs (.session 0 1) 3 ++
  [.reply (.session 0 1)] ++ runs (.session 0 1) 2 ++
  [.lapse 0 1] ++ runs (.session 0 1) 2 ++
  [.datagram 0 .delivered] ++ runs (.listener 0) 1 ++
  [.arrive (.tunnels (.saved ⟨[0], [], []⟩ none))] ++ runs (.request 2) 17 ++
  [.tick true, .run .accounting]

theorem heldUp_deadlockFree : ∃ w : World, process.Reachable w ∧
    w.WaitsFor .accounting (.request 2) ∧ w.WaitsFor (.request 2) (.listener 0) ∧
    w.WaitsFor (.listener 0) (.session 0 1) ∧ w.DeadlockFree := by
  have h : (LTS.exec World.step (World.serving false [0]) heldUp).map (fun w =>
      decide (w.WaitsFor .accounting (.request 2) ∧ w.WaitsFor (.request 2) (.listener 0) ∧
        w.WaitsFor (.listener 0) (.session 0 1))) = some true := by decide +kernel
  obtain ⟨w, hw, ho⟩ := Option.map_eq_some_iff.1 h
  obtain ⟨h₁, h₂, h₃⟩ := of_decide_eq_true ho
  have hr : process.Reachable w := ⟨_, heldUp, ⟨false, [0], rfl⟩, LTS.run_of_exec hw⟩
  exact ⟨w, hr, h₁, h₂, h₃, no_deadlock hr⟩

end OrangeFrp.Awaits
