import OrangeFrp.App.Awaits

/-!
# The order in which locks are taken

Every program of the server awaits only what ranks above all it holds at that point:
first the locks no await follows under, the configuration, then what is awaited under it
(the replay guard, the gates, the task map, the end of a listener), then a single gate
and the session maps. The accounting task counts as holding the room in the queue, a
listener its own end.

* `after`: the check of a program, with what it holds at its end.
* `Request.after_prog`, `after_copyLimited`, `after_runUdpSession`,
  `after_runUdpListener`: the programs pass it.
* `World.sound_step`: each task holds what the rest of its program will give back, and
  awaits only tasks that have been told to end.
-/
namespace OrangeFrp.Awaits

open OrangeFrp.Core OrangeFrp.Controller

/-! ## The order of the locks -/

/-- Room in the queue comes before the configuration, the configuration before what a
handler awaits under it, the gates before one gate. -/
def Resource.rank : Resource → ℕ
  | .room | .ended .accounting => 0
  | .lock .config => 1
  | .ended _ | .lock .rateLimit | .lock .replay | .lock .gates | .lock .tasks => 2
  | .lock (.gate _) | .lock (.sessions _) => 3

theorem Resource.rank_lt (r : Resource) : r.rank < 4 := by
  unfold rank
  split <;> omega

/-- What others await of a task for as long as it runs. -/
def Party.base : Party → List Resource
  | .accounting => [.room, .ended .accounting]
  | .listener i => [.ended (.listener i)]
  | _ => []

def above (held : List Resource) (r : Resource) : Bool := held.all fun h => decide (h.rank < r.rank)

/-- What is held after the instructions, if everything awaited ranks above what is held at
that point, and locks are given back in the reverse order. -/
def after : List Resource → List Instr → Option (List Resource)
  | held, [] => some held
  | held, .lock l _ :: prog => if above held (.lock l) then after (.lock l :: held) prog else none
  | held, .unlock l :: prog => if held.head? = some (.lock l) then after held.tail prog else none
  | held, .join p :: prog => if above held (.ended p) then after held prog else none
  | held, .send :: prog => if above held .room then after held prog else none
  | held, .stop _ :: prog =>
    -- the ends of all listeners have one rank
    if held.head? = some (.lock .tasks) ∧ above held.tail (.ended (.listener 0)) then
      after held.tail prog
    else none
  | held, .start _ :: prog => if above held (.lock .tasks) then after held prog else none
  | held, .outside :: prog => after held prog
  | held, .register _ :: prog => after held prog
  | held, .spawn _ :: prog => after held prog
  | held, .exit :: prog => after held prog

theorem after_append (held : List Resource) (xs ys : List Instr) :
    after held (xs ++ ys) = (after held xs).bind fun t => after t ys := by
  fun_induction after held xs <;> simp_all [after]

theorem after_locked {held : List Resource} {l : LockId} (h : above held (.lock l)) (m : Mode) :
    after held (locked l m) = some held := by
  simp [locked, after, h]

theorem after_flatMap {α : Type} {held : List Resource} {f : α → List Instr}
    (h : ∀ x, after held (f x) = some held) (xs : List α) : after held (xs.flatMap f) = some held := by
  induction xs with
  | nil => rfl
  | cons x xs ih => rw [List.flatMap_cons, after_append, h, Option.bind_some, ih]

/-! ## The programs keep the order -/

theorem after_reconcileGates {held : List Resource} (h : above held (.lock .gates)) (present : List Nat) :
    after held (reconcileGates present) = some held := by
  have hgate : ∀ g, above (.lock .gates :: held) (.lock (.gate g)) := by
    intro g
    simp only [above, List.all_cons, List.all_eq_true, Bool.and_eq_true, decide_eq_true_eq] at h ⊢
    refine ⟨by simp [Resource.rank], fun r hr => ?_⟩
    have hlt := h r hr
    simp only [Resource.rank] at hlt ⊢
    omega
  have hall := after_flatMap (fun g => after_locked (hgate g) .write) present
  simp [reconcileGates, after_append, after, h, hall]

theorem after_joins {held : List Resource} (h : above held (.ended (.listener 0))) (ks : List Nat) :
    after held (ks.map fun i => .join (.listener i)) = some held := by
  induction ks with
  | nil => rfl
  | cons k ks ih => exact (if_pos h).trans ih

theorem after_startTask {held : List Resource} (ht : above held (.lock .tasks))
    (hg : above held (.lock .gates)) (w : Wanted) : after held (startTask w) = some held := by
  cases w <;> simp [startTask, after_append, after_locked ht, after_locked hg, after, ht]

theorem after_startTasks {held : List Resource} (ht : above held (.lock .tasks))
    (hg : above held (.lock .gates)) (ws : List Wanted) : after held (startTasks ws) = some held := by
  induction ws with
  | nil => rfl
  | cons w ws ih =>
    rw [startTasks, after_append, after_startTask ht hg, Option.bind_some]
    split
    · rfl
    · exact ih

/-- A `reconcile` under the lock of the configuration. -/
theorem after_reconcile (r : Reconcile) :
    after [.lock .config] (reconcile r) = some [.lock .config] := by
  have hg := after_reconcileGates (show above [.lock .config] (.lock .gates) from rfl) r.present
  have hs := after_startTasks (show above [.lock .config] (.lock .tasks) from rfl) rfl r.wanted
  rw [reconcile, after_append, after_append, hg, Option.bind_some]
  exact hs

theorem after_save (r : Reconcile) (rollback : Option Reconcile) :
    after [.lock .config] (save r rollback) = some [.lock .config] := by
  rw [save, after_append, after_reconcile, Option.bind_some]
  split
  · cases rollback with
    | none => rfl
    | some r => exact after_reconcile r
  · rfl

theorem Tunnels.after_prog (t : Tunnels) : after [] t.prog = some [] := by
  cases t with
  | unauthorized => rfl
  | answered => rfl
  | saved r rollback =>
    have h := after_save r rollback
    simp [prog, after_append, after, after_locked, above, Resource.rank, h]

theorem Request.after_prog (r : Request) : after [] r.prog = some [] := by
  have hbody : after [] r.body = some [] := by
    cases r with
    | limited => rfl
    | hello p => cases p <;> rfl
    | login authorized replayed p => cases authorized <;> cases replayed <;> cases p <;> rfl
    | tunnels t =>
      rw [body, after_append, after_locked (show above [] (.lock .rateLimit) from rfl), Option.bind_some]
      exact t.after_prog
    | usage authorized => cases authorized <;> rfl
    | plugin => rfl
  rw [prog, after_append, hbody]
  rfl

theorem after_reserve (g waits : Nat) : after [] (reserve g waits) = some [] := by
  have hgate := after_locked (show above [] (.lock (.gate g)) from rfl) .write
  induction waits with
  | zero => exact hgate
  | succ waits ih =>
    rw [reserve, after_append, after_append, hgate]
    exact ih

theorem after_copyLimited (g : Nat) (chunks : List Nat) (e : CopyEnd) :
    after [] (copyLimited g chunks e) = some [] := by
  have hchunk : ∀ waits, after [] (chunk g waits) = some [] := by
    intro waits
    rw [chunk, after_append, after_reserve]
    rfl
  unfold copyLimited
  rw [after_append, after_flatMap hchunk, Option.bind_some]
  cases e with
  | passed => rfl
  | refused waits | notWritten waits =>
    simp only [after_append, after_reserve]
    rfl
  | closed => rfl
  | notRead => rfl

theorem after_leaveMap (i : Nat) : after [] (leaveMap i) = some [] := by
  rw [leaveMap, after_append, after_locked (show above [] (.lock (.sessions i)) from rfl)]
  rfl

theorem after_runUdpSession (i g : Nat) (waits : Option Nat) (e : PacketEnd) :
    after [] (runUdpSession i g waits e) = some [] := by
  have hreserve : after [] (reserveDatagram g waits) = some [] := by
    cases waits with
    | none => rfl
    | some waits => exact after_reserve g waits
  unfold runUdpSession
  rw [after_append, hreserve, Option.bind_some]
  cases e with
  | passed => rfl
  | refused => exact after_leaveMap i
  | notSent => exact after_leaveMap i

theorem after_runUdpListener (i : Nat) (d : Datagram) :
    after [.ended (.listener i)] (runUdpListener i d) = some [.ended (.listener i)] := by
  have hmap := after_locked (show above [.ended (.listener i)] (.lock (.sessions i)) from rfl) .write
  have hlook : ∀ gone, after [.ended (.listener i)] (lookUp i gone) = some [.ended (.listener i)] := by
    intro gone
    rw [lookUp, after_append, hmap, Option.bind_some]
    split
    · exact hmap
    · rfl
  cases d with
  | delivered => exact hlook false
  | tooMany gone => rw [runUdpListener, after_append, hlook, Option.bind_some, hmap]
  | opened gone =>
    simp only [runUdpListener, after_append, hlook, hmap, Option.bind_some]
    rfl

theorem after_flushPending (pending : Bool) :
    after Party.accounting.base (flushPending pending) = some Party.accounting.base := by
  cases pending <;> rfl

theorem after_shutdown : after [] shutdown = some [] := rfl

/-! ## Handles and listeners appear only while a program runs -/

/-- Handles are awaited, and listeners put into the map, only after `stop` and `start`. -/
def Instr.plain : Instr → Bool
  | .join _ | .register _ => false
  | _ => true

def plain (prog : List Instr) : Bool := prog.all Instr.plain

theorem join_not_mem {prog : List Instr} (h : plain prog) (q : Party) : .join q ∉ prog :=
  fun hq => nomatch List.all_eq_true.1 h _ hq

theorem register_not_mem {prog : List Instr} (h : plain prog) (j : Nat) : .register j ∉ prog :=
  fun hj => nomatch List.all_eq_true.1 h _ hj

theorem plain_append (xs ys : List Instr) : plain (xs ++ ys) = (plain xs && plain ys) :=
  List.all_append

theorem plain_flatMap {α : Type} {f : α → List Instr} (h : ∀ x, plain (f x)) (xs : List α) :
    plain (xs.flatMap f) := by
  induction xs with
  | nil => rfl
  | cons x xs ih => rw [List.flatMap_cons, plain_append, h, ih]; rfl

theorem plain_startTasks (ws : List Wanted) : plain (startTasks ws) := by
  induction ws with
  | nil => rfl
  | cons w ws ih =>
    have hw : plain (startTask w) := by cases w <;> rfl
    rw [startTasks, plain_append, hw, Bool.true_and]
    split
    · rfl
    · exact ih

theorem plain_reconcile (r : Reconcile) : plain (reconcile r) := by
  have hg := plain_flatMap (fun g => show plain (locked (.gate g) .write) from rfl) r.present
  simp only [reconcile, reconcileGates, plain_append, hg, plain_startTasks]
  rfl

theorem Request.plain_prog (r : Request) : plain r.prog := by
  have hsave : ∀ r rollback, plain (save r rollback) := by
    intro r rollback
    rw [save, plain_append, plain_reconcile, Bool.true_and]
    split
    · cases rollback with
      | none => rfl
      | some r => exact plain_reconcile r
    · rfl
  rw [prog, plain_append, Bool.and_eq_true]
  refine ⟨?_, rfl⟩
  cases r with
  | limited => rfl
  | hello p => cases p <;> rfl
  | login authorized replayed p => cases authorized <;> cases replayed <;> cases p <;> rfl
  | tunnels t =>
    cases t with
    | unauthorized => rfl
    | answered => rfl
    | saved r rollback =>
      simp only [body, Tunnels.prog, plain_append, hsave]
      rfl
  | usage authorized => cases authorized <;> rfl
  | plugin => rfl

theorem plain_reserve (g waits : Nat) : plain (reserve g waits) := by
  induction waits with
  | zero => rfl
  | succ waits ih => rw [reserve, plain_append, ih]; rfl

theorem plain_copyLimited (g : Nat) (chunks : List Nat) (e : CopyEnd) : plain (copyLimited g chunks e) := by
  have hchunk : ∀ waits, plain (chunk g waits) := by
    intro waits
    rw [chunk, plain_append, plain_reserve]
    rfl
  unfold copyLimited
  rw [plain_append, plain_flatMap hchunk]
  cases e with
  | refused waits | notWritten waits =>
    simp only [plain_append, plain_reserve]
    rfl
  | _ => rfl

theorem plain_runUdpSession (i g : Nat) (waits : Option Nat) (e : PacketEnd) :
    plain (runUdpSession i g waits e) := by
  have hreserve : plain (reserveDatagram g waits) := by
    cases waits with
    | none => rfl
    | some waits => exact plain_reserve g waits
  unfold runUdpSession
  rw [plain_append, hreserve]
  cases e <;> rfl

theorem plain_runUdpListener (i : Nat) (d : Datagram) : plain (runUdpListener i d) := by
  cases d with
  | delivered => rfl
  | tooMany gone => cases gone <;> rfl
  | opened gone => cases gone <;> rfl

theorem plain_flushPending (pending : Bool) : plain (flushPending pending) := by
  cases pending <;> rfl

/-! ## What holds of every task -/

def World.Holds (w : World) (p : Party) (l : LockId) : Prop := ∃ m, (p, m) ∈ w.holders l

/-- The task has been told to end, or has ended. -/
def World.Ending (w : World) : Party → Prop
  | .listener i => w.life (.listener i) ≠ .unborn ∧ i ∈ w.cancelled
  | .accounting => w.stopping
  | _ => False

/-- A task that runs holds what its program will give back, stands in no line but that of
its next instruction, and awaits the end of tasks that have been told to end. -/
structure World.Running (w : World) (p : Party) (prog : List Instr) : Prop where
  held : ∃ held : List LockId, held.Nodup ∧ (∀ l, w.Holds p l ↔ l ∈ held) ∧
    after (held.map .lock ++ p.base) prog = some p.base
  line : ∀ r, p ∈ w.line r → ∃ i rest, prog = i :: rest ∧ i.asks = some r
  joins : ∀ q, .join q ∈ prog → w.Ending q
  registers : ∀ i, .register i ∈ prog → w.life (.listener i) ≠ .unborn

structure World.Absent (w : World) (p : Party) : Prop where
  held : ∀ l, ¬ w.Holds p l
  line : ∀ r, p ∉ w.line r

def World.Keeps (w : World) (p : Party) : Prop :=
  match w.life p with
  | .running prog => w.Running p prog
  | _ => w.Absent p

def Party.number : Party → Option Nat
  | .request n | .listener n | .copy _ n _ | .session _ n => some n
  | _ => none

structure World.Sound (w : World) : Prop where
  keeps : ∀ p, w.Keeps p
  fresh : ∀ p n, p.number = some n → w.next ≤ n → w.life p = .unborn
  tasks : ∀ i ∈ w.tasks, w.life (.listener i) ≠ .unborn
  accounting : w.life .accounting ≠ .unborn

theorem World.Keeps.running {w : World} {p : Party} {prog : List Instr} (h : w.Keeps p)
    (hl : w.life p = .running prog) : w.Running p prog := by
  unfold Keeps at h
  rw [hl] at h
  exact h

theorem World.keeps_running {w : World} {p : Party} {prog : List Instr} (hl : w.life p = .running prog)
    (h : w.Running p prog) : w.Keeps p := by
  unfold Keeps
  rw [hl]
  exact h

theorem World.Keeps.absent {w : World} {p : Party} (h : w.Keeps p)
    (hl : ∀ prog, w.life p ≠ .running prog) : w.Absent p := by
  unfold Keeps at h
  split at h
  · rename_i prog hp
    exact absurd hp (hl prog)
  · exact h

theorem World.keeps_absent {w : World} {p : Party} (hl : ∀ prog, w.life p ≠ .running prog)
    (h : w.Absent p) : w.Keeps p := by
  unfold Keeps
  split
  · rename_i prog hp
    exact absurd hp (hl prog)
  · exact h

/-! ### Whom the parts of a step concern -/

section
variable (w : World) (p q : Party)

@[simp] theorem World.life_goto (prog : List Instr) :
    (w.goto p prog).life q = if q = p then .running prog else w.life q := by
  simp [goto, become, Function.update_apply]

@[simp] theorem World.holds_goto (prog : List Instr) (l : LockId) :
    (w.goto p prog).Holds q l ↔ w.Holds q l := Iff.rfl

@[simp] theorem World.line_goto (prog : List Instr) (r : Resource) :
    (w.goto p prog).line r = w.line r := rfl

@[simp] theorem World.life_ask (r : Resource) : (w.ask p r).life q = w.life q := rfl

@[simp] theorem World.holds_ask (r : Resource) (l : LockId) :
    (w.ask p r).Holds q l ↔ w.Holds q l := Iff.rfl

@[simp] theorem World.mem_ask (r r' : Resource) :
    q ∈ (w.ask p r).line r' ↔ q ∈ w.line r' ∨ (q = p ∧ r' = r) := by
  by_cases h : r' = r
  · subst h; simp [ask]
  · simp [ask, h]

@[simp] theorem World.life_leaveLine (r : Resource) : (w.leaveLine p r).life q = w.life q := rfl

@[simp] theorem World.holds_leaveLine (r : Resource) (l : LockId) :
    (w.leaveLine p r).Holds q l ↔ w.Holds q l := Iff.rfl

@[simp] theorem World.mem_leaveLine (r r' : Resource) :
    q ∈ (w.leaveLine p r).line r' ↔ q ∈ w.line r' ∧ ¬(q = p ∧ r' = r) := by
  by_cases h : r' = r
  · subst h; simp [leaveLine]
  · simp [leaveLine, h]

@[simp] theorem World.life_take (l : LockId) (m : Mode) : (w.take p l m).life q = w.life q := rfl

@[simp] theorem World.holds_take (l l' : LockId) (m : Mode) :
    (w.take p l m).Holds q l' ↔ w.Holds q l' ∨ (q = p ∧ l' = l) := by
  by_cases h : l' = l
  · subst h
    simp only [Holds, take, Function.update_self, List.mem_cons, Prod.mk.injEq, and_true]
    refine ⟨?_, ?_⟩
    · rintro ⟨m', ⟨rfl, rfl⟩ | hm⟩
      · exact .inr rfl
      · exact .inl ⟨m', hm⟩
    · rintro (⟨m', hm⟩ | rfl)
      · exact ⟨m', .inr hm⟩
      · exact ⟨m, .inl ⟨rfl, rfl⟩⟩
  · simp [Holds, take, h]

@[simp] theorem World.mem_take (l : LockId) (m : Mode) (r : Resource) :
    q ∈ (w.take p l m).line r ↔ q ∈ w.line r ∧ ¬(q = p ∧ r = .lock l) :=
  w.mem_leaveLine p q (.lock l) r

@[simp] theorem World.life_release (l : LockId) : (w.release p l).life q = w.life q := rfl

@[simp] theorem World.holds_release (l l' : LockId) :
    (w.release p l).Holds q l' ↔ w.Holds q l' ∧ ¬(q = p ∧ l' = l) := by
  by_cases h : l' = l
  · subst h; simp [Holds, release]
  · simp [Holds, release, h]

@[simp] theorem World.line_release (l : LockId) (r : Resource) :
    (w.release p l).line r = w.line r := rfl

@[simp] theorem World.life_quit :
    (w.quit p).life q = if q = p then .finished else w.life q := by
  simp [quit, Function.update_apply]

@[simp] theorem World.holds_quit (l : LockId) : (w.quit p).Holds q l ↔ w.Holds q l ∧ q ≠ p := by
  simp [Holds, quit]

@[simp] theorem World.mem_quit (r : Resource) : q ∈ (w.quit p).line r ↔ q ∈ w.line r ∧ q ≠ p := by
  simp [quit]

end

/-- What a step of `p` leaves of the others: they keep their lives, locks and places, and
some may be born. -/
structure World.Frame (p : Party) (w w' : World) : Prop where
  life : ∀ q, q ≠ p → w.life q ≠ .unborn → w'.life q = w.life q
  alive : w.life p ≠ .unborn → w'.life p ≠ .unborn
  born : ∀ q, q ≠ p → w.life q = .unborn → w'.life q = .unborn ∨
    ((w'.life q = .running [] ∨ w'.life q = .running [.outside]) ∧
      ∃ n, q.number = some n ∧ n < w'.next)
  holds : ∀ q, q ≠ p → ∀ l, w'.Holds q l ↔ w.Holds q l
  line : ∀ q, q ≠ p → ∀ r, q ∈ w'.line r ↔ q ∈ w.line r
  cancelled : ∀ i, i ∈ w.cancelled → i ∈ w'.cancelled
  stopping : w.stopping → w'.stopping
  next : w.next ≤ w'.next

namespace World.Frame

variable {p : Party} {w w' w'' : World}

theorem refl (p : Party) (w : World) : Frame p w w :=
  ⟨fun _ _ _ => rfl, id, fun _ _ h => .inl h, fun _ _ _ => Iff.rfl, fun _ _ _ => Iff.rfl,
    fun _ => id, id, le_rfl⟩

theorem trans (h : Frame p w w') (h' : Frame p w' w'') : Frame p w w'' where
  life q hq hw := by
    have hl := h.life q hq hw
    rw [← hl] at hw ⊢
    exact h'.life q hq hw
  alive hw := h'.alive (h.alive hw)
  born q hq hw := by
    rcases h.born q hq hw with hu | ⟨hr, n, hn, hlt⟩
    · exact h'.born q hq hu
    · have hne : w'.life q ≠ .unborn := by rcases hr with hr | hr <;> simp [hr]
      rw [h'.life q hq hne]
      exact .inr ⟨hr, n, hn, hlt.trans_le h'.next⟩
  holds q hq l := (h'.holds q hq l).trans (h.holds q hq l)
  line q hq r := (h'.line q hq r).trans (h.line q hq r)
  cancelled i hi := h'.cancelled i (h.cancelled i hi)
  stopping hs := h'.stopping (h.stopping hs)
  next := h.next.trans h'.next

theorem all_alive (h : Frame p w w') {q : Party} (hw : w.life q ≠ .unborn) : w'.life q ≠ .unborn := by
  by_cases hq : q = p
  · subst hq; exact h.alive hw
  · rw [h.life q hq hw]; exact hw

theorem ending (h : Frame p w w') {q : Party} (hq : w.Ending q) : w'.Ending q := by
  cases q with
  | listener i => exact ⟨h.all_alive hq.1, h.cancelled i hq.2⟩
  | accounting => exact h.stopping hq
  | _ => exact hq

theorem absent (h : Frame p w w') {q : Party} (hq : q ≠ p) (hw : w.Absent q) : w'.Absent q :=
  ⟨fun l hl => hw.held l ((h.holds q hq l).1 hl), fun r hr => hw.line r ((h.line q hq r).1 hr)⟩

/-- The others keep what holds of them, and those born have nothing yet. -/
theorem keeps (h : Frame p w w') {q : Party} (hq : q ≠ p) (hw : w.Keeps q) : w'.Keeps q := by
  cases hl : w.life q with
  | unborn =>
    have habs := h.absent hq (hw.absent (by simp [hl]))
    rcases h.born q hq hl with hu | ⟨hr, -⟩
    · exact keeps_absent (by simp [hu]) habs
    · obtain ⟨prog, hprog, hafter, hplain⟩ : ∃ prog, w'.life q = .running prog ∧
          after q.base prog = some q.base ∧ plain prog := by
        rcases hr with hr | hr
        · exact ⟨_, hr, rfl, rfl⟩
        · exact ⟨_, hr, rfl, rfl⟩
      refine keeps_running hprog ⟨⟨[], List.nodup_nil, fun l => ?_, hafter⟩, fun r hr => ?_, ?_, ?_⟩
      · simp [habs.held l]
      · exact absurd hr (habs.line r)
      · exact fun t ht => absurd ht (join_not_mem hplain t)
      · exact fun t ht => absurd ht (register_not_mem hplain t)
  | running prog =>
    have hr := hw.running hl
    have hl' := (h.life q hq (by simp [hl])).trans hl
    obtain ⟨held, hnodup, hheld, hafter⟩ := hr.held
    exact keeps_running hl' ⟨⟨held, hnodup, fun l => (h.holds q hq l).trans (hheld l), hafter⟩,
      fun r hm => hr.line r ((h.line q hq r).1 hm), fun t ht => h.ending (hr.joins t ht),
      fun i hi => h.all_alive (hr.registers i hi)⟩
  | finished =>
    have hl' := (h.life q hq (by simp [hl])).trans hl
    exact keeps_absent (by simp [hl']) (h.absent hq (hw.absent (by simp [hl])))

theorem goto (p : Party) (w : World) (prog : List Instr) : Frame p w (w.goto p prog) where
  life _ hq _ := by simp [hq]
  alive _ := by simp
  born _ hq hu := .inl (by simp [hq, hu])
  holds _ _ _ := Iff.rfl
  line _ _ _ := Iff.rfl
  cancelled _ := id
  stopping := id
  next := le_rfl

theorem ask (p : Party) (w : World) (r : Resource) : Frame p w (w.ask p r) where
  life _ _ _ := rfl
  alive := id
  born _ _ hu := .inl hu
  holds _ _ _ := Iff.rfl
  line _ hq _ := by simp [hq]
  cancelled _ := id
  stopping := id
  next := le_rfl

theorem leaveLine (p : Party) (w : World) (r : Resource) : Frame p w (w.leaveLine p r) where
  life _ _ _ := rfl
  alive := id
  born _ _ hu := .inl hu
  holds _ _ _ := Iff.rfl
  line _ hq _ := by simp [hq]
  cancelled _ := id
  stopping := id
  next := le_rfl

theorem take (p : Party) (w : World) (l : LockId) (m : Mode) : Frame p w (w.take p l m) where
  life _ _ _ := rfl
  alive := id
  born _ _ hu := .inl hu
  holds _ hq _ := by simp [hq]
  line _ hq _ := by simp [hq]
  cancelled _ := id
  stopping := id
  next := le_rfl

theorem release (p : Party) (w : World) (l : LockId) : Frame p w (w.release p l) where
  life _ _ _ := rfl
  alive := id
  born _ _ hu := .inl hu
  holds _ hq _ := by simp [hq]
  line _ _ _ := Iff.rfl
  cancelled _ := id
  stopping := id
  next := le_rfl

theorem quit (p : Party) (w : World) : Frame p w (w.quit p) where
  life _ hq _ := by simp [hq]
  alive _ := by simp
  born _ hq hu := .inl (by simp [hq, hu])
  holds _ hq _ := by simp [hq]
  line _ hq _ := by simp [hq]
  cancelled _ := id
  stopping := id
  next := le_rfl

theorem stopTasks (p : Party) (w : World) (keep : List Nat) : Frame p w (w.stopTasks keep) where
  life _ _ _ := rfl
  alive := id
  born _ _ hu := .inl hu
  holds _ _ _ := Iff.rfl
  line _ _ _ := Iff.rfl
  cancelled _ hi := List.mem_append_right _ hi
  stopping := id
  next := le_rfl

/-- Parts of the world that concern no task. -/
theorem others (p : Party) (w : World) (queue : Nat) (pending : Bool) (tasks : List Nat)
    (gateOf : Nat → Nat) (stopping : Bool) (h : w.stopping → stopping) : Frame p w
      { w with queue := queue, pending := pending, tasks := tasks, gateOf := gateOf, stopping := stopping } where
  life _ _ _ := rfl
  alive := id
  born _ _ hu := .inl hu
  holds _ _ _ := Iff.rfl
  line _ _ _ := Iff.rfl
  cancelled _ := id
  stopping := h
  next := le_rfl

/-- Those born have the next number, which nobody has had. -/
theorem birth {p : Party} {w : World} {ps : List Party} {prog : List Instr}
    (hw : ∀ q n, q.number = some n → w.next ≤ n → w.life q = .unborn)
    (hps : ∀ q ∈ ps, q.number = some w.next) (hp : w.life p ≠ .unborn)
    (hprog : prog = [] ∨ prog = [.outside]) : Frame p w (w.born ps prog) where
  life q _ hq := by
    have hne : q ∉ ps := fun hm => hq (hw q _ (hps q hm) le_rfl)
    simp [World.born, hne]
  alive _ := by
    have hne : p ∉ ps := fun hm => hp (hw p _ (hps p hm) le_rfl)
    simp [World.born, hne, hp]
  born q _ hu := by
    by_cases hm : q ∈ ps
    · refine .inr ⟨?_, w.next, hps q hm, Nat.lt_succ_self _⟩
      rcases hprog with rfl | rfl <;> simp [World.born, hm]
    · exact .inl (by simp [World.born, hm, hu])
  holds _ _ _ := Iff.rfl
  line _ _ _ := Iff.rfl
  cancelled _ := id
  stopping := id
  next := Nat.le_succ _

end World.Frame

/-- **One step of one task.** The others are as they were, or have just been born. -/
theorem World.Sound.of_frame {p : Party} {w w' : World} (h : w.Sound) (hf : w.Frame p w')
    (hp : w'.Keeps p) (hnum : ∀ n, p.number = some n → n < w'.next)
    (htasks : ∀ i ∈ w'.tasks, i ∈ w.tasks ∨ w'.life (.listener i) ≠ .unborn) : w'.Sound where
  keeps q := by
    by_cases hq : q = p
    · subst hq; exact hp
    · exact hf.keeps hq (h.keeps q)
  fresh q n hn hle := by
    by_cases hq : q = p
    · subst hq
      have := hnum n hn
      omega
    · have hu := h.fresh q n hn (hf.next.trans hle)
      rcases hf.born q hq hu with hu' | ⟨-, m, hm, hlt⟩
      · exact hu'
      · rw [hn] at hm
        cases hm
        omega
  tasks i hi := by
    rcases htasks i hi with hi | hi
    · exact hf.all_alive (h.tasks i hi)
    · exact hi
  accounting := hf.all_alive h.accounting

/-! ## What one instruction leaves of its task -/

theorem World.Sound.lt_next {w : World} {p : Party} {n : Nat} (h : w.Sound)
    (hl : w.life p ≠ .unborn) (hn : p.number = some n) : n < w.next := by
  by_contra hle
  exact hl (h.fresh p n hn (by omega))

theorem Party.lock_not_mem_base (p : Party) (l : LockId) : .lock l ∉ p.base := by
  cases p <;> simp [base]

/-- The lock given back is the one taken last. -/
theorem head_held {held : List LockId} {p : Party} {l : LockId}
    (h : (held.map Resource.lock ++ p.base).head? = some (.lock l)) :
    ∃ rest, held = l :: rest := by
  cases held with
  | nil => exact absurd (List.mem_of_mem_head? h) (p.lock_not_mem_base l)
  | cons l' rest =>
    simp only [List.map_cons, List.cons_append, List.head?_cons, Option.some.injEq,
      Resource.lock.injEq] at h
    exact ⟨rest, by rw [h]⟩

theorem above_lock_not_mem {held : List LockId} {base : List Resource} {l : LockId}
    (h : above (held.map .lock ++ base) (.lock l)) : l ∉ held := by
  intro hm
  have := List.all_eq_true.1 h (.lock l) (by simp [hm])
  simp at this

theorem World.goto_self (w : World) (p : Party) (prog : List Instr) :
    (w.goto p prog).life p = .running prog := by simp

section
variable {w w' : World} {p : Party} {i : Instr} {prog : List Instr}

theorem World.Sound.of_step (h : w.Sound) (hl : w.life p ≠ .unborn) (hf : w.Frame p w')
    (hp : w'.Keeps p) (htasks : ∀ i ∈ w'.tasks, i ∈ w.tasks ∨ w'.life (.listener i) ≠ .unborn) :
    w'.Sound :=
  h.of_frame hf hp (fun _ hn => (h.lt_next hl hn).trans_le hf.next) htasks

theorem World.Running.no_line (h : w.Running p (i :: prog)) {r : Resource} (hr : i.asks ≠ some r) :
    p ∉ w.line r := by
  intro hm
  obtain ⟨i', rest, he, hi'⟩ := h.line r hm
  cases he
  exact hr hi'

/-- The instruction is done, and something is held after it. -/
theorem World.Running.next {held : List LockId} (h : w.Running p (i :: prog)) (hf : w.Frame p w')
    (hl : w'.life p = .running prog) (hnodup : held.Nodup) (hheld : ∀ l, w'.Holds p l ↔ l ∈ held)
    (hafter : after (held.map .lock ++ p.base) prog = some p.base) (hline : ∀ r, p ∉ w'.line r) :
    w'.Keeps p :=
  keeps_running hl ⟨⟨held, hnodup, hheld, hafter⟩, fun r hr => absurd hr (hline r),
    fun q hq => hf.ending (h.joins q (List.mem_cons_of_mem _ hq)),
    fun j hj => hf.all_alive (h.registers j (List.mem_cons_of_mem _ hj))⟩

/-- The instruction is done, and the locks are as they were. -/
theorem World.Running.skip (h : w.Running p (i :: prog)) (hf : w.Frame p w')
    (hl : w'.life p = .running prog) (hholds : ∀ l, w'.Holds p l ↔ w.Holds p l)
    (hafter : ∀ held t, after held (i :: prog) = some t → after held prog = some t)
    (hline : ∀ r, p ∉ w'.line r) : w'.Keeps p := by
  obtain ⟨held, hnodup, hheld, hrun⟩ := h.held
  exact h.next hf hl hnodup (fun l => (hholds l).trans (hheld l)) (hafter _ _ hrun) hline

/-- A round begins with nothing held. -/
theorem World.Running.begin (h : w.Running p []) {prog' : List Instr}
    (hl : w'.life p = .running prog') (hholds : ∀ l, w'.Holds p l ↔ w.Holds p l)
    (hline : ∀ r, w'.line r = w.line r) (hafter : after p.base prog' = some p.base)
    (hjoins : ∀ q, .join q ∈ prog' → w'.Ending q) (hregisters : ∀ j, .register j ∉ prog') :
    w'.Keeps p := by
  obtain ⟨held, hnodup, hheld, hrun⟩ := h.held
  simp only [after, Option.some.injEq] at hrun
  refine keeps_running hl ⟨⟨held, hnodup, fun l => (hholds l).trans (hheld l), ?_⟩,
    fun r hr => ?_, hjoins, fun j hj => absurd hj (hregisters j)⟩
  · rw [hrun]; exact hafter
  · rw [hline] at hr
    obtain ⟨_, _, he, -⟩ := h.line r hr
    cases he

/-! ### The instructions -/

theorem World.sound_ask (h : w.Sound) (hl : w.life p = .running (i :: prog)) {r : Resource}
    (hi : i.asks = some r) : (w.ask p r).Sound := by
  have hr := (h.keeps p).running hl
  have hf := Frame.ask p w r
  refine h.of_step (by simp [hl]) hf (keeps_running hl ⟨hr.held, fun r' hm => ?_,
    fun q hq => hf.ending (hr.joins q hq), hr.registers⟩) fun _ => .inl
  rcases (mem_ask w p p r r').1 hm with hm | ⟨-, rfl⟩
  · exact hr.line r' hm
  · exact ⟨i, prog, rfl, hi⟩

/-- Its turn has come. -/
theorem World.sound_take {l : LockId} {m : Mode} (h : w.Sound)
    (hl : w.life p = .running (.lock l m :: prog)) : ((w.take p l m).goto p prog).Sound := by
  have hr := (h.keeps p).running hl
  have hf := (Frame.take p w l m).trans (Frame.goto p _ prog)
  obtain ⟨held, hnodup, hheld, hrun⟩ := hr.held
  simp only [after] at hrun
  split at hrun
  · rename_i habove
    have hnew : (l :: held).Nodup := List.nodup_cons.2 ⟨above_lock_not_mem habove, hnodup⟩
    refine h.of_step (by simp [hl]) hf (hr.next hf (goto_self _ p _) hnew (fun l' => ?_) hrun
      fun r hm => ?_) fun _ => .inl
    · simp [hheld l', or_comm]
    · simp only [line_goto, mem_take, true_and] at hm
      exact absurd hm.1 (hr.no_line (by simpa [Instr.asks, eq_comm] using hm.2))
  · cases hrun

/-- What is held after a lock has been given back. -/
theorem World.holds_release_iff {l : LockId} {rest : List LockId} (hnot : l ∉ rest)
    (hheld : ∀ l', w.Holds p l' ↔ l' ∈ l :: rest) (l' : LockId) :
    (w.release p l).Holds p l' ↔ l' ∈ rest := by
  simp only [holds_release, hheld, List.mem_cons, true_and]
  refine ⟨?_, ?_⟩
  · rintro ⟨rfl | hm, hne⟩
    · exact absurd rfl hne
    · exact hm
  · exact fun hm => ⟨.inr hm, fun he => hnot (he ▸ hm)⟩

theorem World.sound_unlock {l : LockId} (h : w.Sound) (hl : w.life p = .running (.unlock l :: prog)) :
    ((w.release p l).goto p prog).Sound := by
  have hr := (h.keeps p).running hl
  have hf := (Frame.release p w l).trans (Frame.goto p _ prog)
  obtain ⟨held, hnodup, hheld, hrun⟩ := hr.held
  simp only [after] at hrun
  split at hrun
  · rename_i hhead
    obtain ⟨rest, rfl⟩ := head_held hhead
    obtain ⟨hnot, hnodup⟩ := List.nodup_cons.1 hnodup
    exact h.of_step (by simp [hl]) hf (hr.next hf (goto_self _ p _) hnodup
      (holds_release_iff hnot hheld) hrun fun r => hr.no_line (by simp [Instr.asks])) fun _ => .inl
  · cases hrun

/-- The event goes into the queue, or is lost with it. -/
theorem World.sound_send (h : w.Sound) (hl : w.life p = .running (.send :: prog)) (queue : Nat) :
    (({ w with queue := queue }.leaveLine p .room).goto p prog).Sound := by
  have hr := (h.keeps p).running hl
  have hf := ((Frame.others p w queue w.pending w.tasks w.gateOf w.stopping id).trans
    (Frame.leaveLine p _ .room)).trans (Frame.goto p _ prog)
  refine h.of_step (by simp [hl]) hf (hr.skip hf (goto_self _ p _) (fun _ => Iff.rfl)
    (fun held t ht => ?_) fun r hm => ?_) fun _ => .inl
  · simp only [after] at ht
    split at ht
    · exact ht
    · cases ht
  · simp only [line_goto, mem_leaveLine, true_and] at hm
    exact absurd hm.1 (hr.no_line (by simpa [Instr.asks, eq_comm] using hm.2))

/-- The handles now awaited are of listeners whose token has just been cancelled. -/
theorem World.sound_stop {keep : List Nat} (h : w.Sound)
    (hl : w.life p = .running (.stop keep :: prog)) :
    (((w.stopTasks keep).release p .tasks).goto p
      ((w.tasks.filter (· ∉ keep)).map (fun i => .join (.listener i)) ++ prog)).Sound := by
  have hr := (h.keeps p).running hl
  have hf := ((Frame.stopTasks p w keep).trans (Frame.release p _ .tasks)).trans (Frame.goto p _
    ((w.tasks.filter (· ∉ keep)).map (fun i => .join (.listener i)) ++ prog))
  obtain ⟨held, hnodup, hheld, hrun⟩ := hr.held
  simp only [after] at hrun
  split at hrun
  · rename_i hhead
    obtain ⟨rest, rfl⟩ := head_held hhead.1
    obtain ⟨hnot, hnodup⟩ := List.nodup_cons.1 hnodup
    have hjoins := @after_joins (rest.map .lock ++ p.base) hhead.2 (w.tasks.filter (· ∉ keep))
    refine h.of_step (by simp [hl]) hf (keeps_running (goto_self _ p _) ⟨⟨rest, hnodup,
      @holds_release_iff (w.stopTasks keep) p .tasks rest hnot hheld, ?_⟩,
      fun r hm => absurd hm (hr.no_line (by simp [Instr.asks])), fun q hq => ?_, fun j hj => ?_⟩)
      fun j hj => .inl (List.mem_of_mem_filter hj)
    · rw [after_append, hjoins]
      exact hrun
    · rcases List.mem_append.1 hq with hq | hq
      · obtain ⟨j, hj, hjq⟩ := List.mem_map.1 hq
        cases hjq
        exact ⟨hf.all_alive (h.tasks j (List.mem_of_mem_filter hj)), List.mem_append_left _ hj⟩
      · exact hf.ending (hr.joins q (List.mem_cons_of_mem _ hq))
    · rcases List.mem_append.1 hj with hj | hj
      · obtain ⟨k, -, hk⟩ := List.mem_map.1 hj
        cases hk
      · exact hf.all_alive (hr.registers j (List.mem_cons_of_mem _ hj))
  · cases hrun

theorem World.sound_start {g : Nat} (h : w.Sound) (hl : w.life p = .running (.start g :: prog)) :
    (({ w with gateOf := Function.update w.gateOf w.next g }.born [.listener w.next] []).goto p
      (.lock .tasks .write :: .register w.next :: .unlock .tasks :: prog)).Sound := by
  have hr := (h.keeps p).running hl
  have hlive : w.life p ≠ .unborn := by simp [hl]
  let w₁ : World := { w with gateOf := Function.update w.gateOf w.next g }
  have hborn : w₁.Frame p (w₁.born [.listener w.next] []) :=
    Frame.birth h.fresh (by simp [Party.number, w₁]) hlive (.inl rfl)
  have hf := ((Frame.others p w w.queue w.pending w.tasks _ w.stopping id).trans hborn).trans
    (Frame.goto p _ (.lock .tasks .write :: .register w.next :: .unlock .tasks :: prog))
  obtain ⟨held, hnodup, hheld, hrun⟩ := hr.held
  simp only [after] at hrun
  split at hrun
  · rename_i habove
    refine h.of_step hlive hf (keeps_running (goto_self _ p _) ⟨⟨held, hnodup, hheld, ?_⟩,
      fun r hm => absurd hm (hr.no_line (by simp [Instr.asks])), fun q hq => ?_, fun j hj => ?_⟩)
      fun _ => .inl
    · simp [after, habove, hrun]
    · simp only [List.mem_cons, reduceCtorEq, false_or] at hq
      exact hf.ending (hr.joins q (List.mem_cons_of_mem _ hq))
    · simp only [List.mem_cons, reduceCtorEq, false_or, Instr.register.injEq] at hj
      rcases hj with rfl | hj
      · by_cases hp : .listener w.next = p <;> simp [World.born, hp]
      · exact hf.all_alive (hr.registers j (List.mem_cons_of_mem _ hj))
  · cases hrun

/-- **Every instruction** keeps what holds of the tasks. -/
theorem World.sound_exec (h : w.Sound) (hl : w.life p = .running (i :: prog))
    (he : w.exec p prog i = some w') : w'.Sound := by
  have hr := (h.keeps p).running hl
  have hlive : w.life p ≠ .unborn := by simp [hl]
  cases i with
  | lock l m =>
    simp only [exec] at he
    split at he
    · cases he; exact sound_ask h hl rfl
    split at he
    · cases he; exact sound_take h hl
    · cases he
  | unlock l => cases he; exact sound_unlock h hl
  | join q =>
    simp only [exec] at he
    split at he
    · cases he
      have hf := Frame.goto p w prog
      refine h.of_step hlive hf (hr.skip hf (goto_self _ p _) (fun _ => Iff.rfl) (fun held t ht => ?_)
        fun r => hr.no_line (by simp [Instr.asks])) fun _ => .inl
      simp only [after] at ht
      split at ht
      · exact ht
      · cases ht
    · cases he
  | send =>
    simp only [exec] at he
    split at he
    · cases he; exact sound_send h hl w.queue
    split at he
    · cases he; exact sound_ask h hl rfl
    split at he
    · cases he; exact sound_send h hl (w.queue + 1)
    · cases he
  | outside => cases he
  | stop keep => cases he; exact sound_stop h hl
  | start g => cases he; exact sound_start h hl
  | register j =>
    cases he
    have hf := (Frame.others p w w.queue w.pending (j :: w.tasks) w.gateOf w.stopping id).trans
      (Frame.goto p _ prog)
    refine h.of_step hlive hf (hr.skip hf (goto_self _ p _) (fun _ => Iff.rfl) (fun held t ht => ht)
      fun r => hr.no_line (by simp [Instr.asks])) fun k hk => ?_
    rcases List.mem_cons.1 hk with rfl | hk
    · exact .inr (hf.all_alive (hr.registers k List.mem_cons_self))
    · exact .inl hk
  | spawn j =>
    cases he
    have hborn : w.Frame p (w.born [.session j w.next] [.outside]) :=
      Frame.birth h.fresh (by simp [Party.number]) hlive (.inr rfl)
    have hf := hborn.trans (Frame.goto p _ prog)
    exact h.of_step hlive hf (hr.skip hf (goto_self _ p _) (fun _ => Iff.rfl) (fun held t ht => ht)
      fun r => hr.no_line (by simp [Instr.asks])) fun _ => .inl
  | exit =>
    cases he
    exact h.of_step hlive (Frame.quit p w)
      (keeps_absent (by simp) ⟨fun l => by simp, fun r => by simp⟩) fun _ => .inl

/-! ### The other steps -/

theorem World.sound_others (h : w.Sound) (queue : Nat) (pending : Bool) (gateOf : Nat → Nat)
    (stopping : Bool) (hs : w.stopping → stopping) : Sound
      { w with queue := queue, pending := pending, gateOf := gateOf, stopping := stopping } :=
  h.of_step h.accounting (Frame.others .accounting w queue pending w.tasks gateOf stopping hs)
    ((Frame.others .serve w queue pending w.tasks gateOf stopping hs).keeps (by simp)
      (h.keeps .accounting)) fun _ => .inl

theorem World.sound_quit (h : w.Sound) (hl : w.life p ≠ .unborn) : (w.quit p).Sound :=
  h.of_step hl (Frame.quit p w) (keeps_absent (by simp) ⟨fun l => by simp, fun r => by simp⟩)
    fun _ => .inl

/-- A round of one of the loops. -/
theorem World.sound_round (h : w.Sound) (hl : w.life p = .running [])
    (hafter : after p.base prog = some p.base) (hplain : plain prog) : (w.goto p prog).Sound :=
  h.of_step (by simp [hl]) (Frame.goto p w prog)
    (((h.keeps p).running hl).begin (goto_self _ p _) (fun _ => Iff.rfl) (fun _ => rfl) hafter
      (fun q hq => absurd hq (join_not_mem hplain q)) (register_not_mem hplain)) fun _ => .inl

theorem World.sound_begin (h : w.Sound) (hb : w.begin p prog = some w')
    (hafter : after p.base prog = some p.base) (hplain : plain prog) : w'.Sound := by
  unfold begin at hb
  split at hb
  · rename_i hl
    cases hb
    exact sound_round h hl hafter hplain
  · cases hb

theorem World.sound_drain (h : w.Sound) (hl : w.life .accounting = .running []) (stored : Bool)
    {rest : List Instr} (hrest : rest = [] ∨ rest = [.exit]) : (w.drain stored rest).Sound := by
  refine sound_round (sound_others h 0 _ w.gateOf w.stopping id) hl ?_ ?_
  · rw [after_append, after_flushPending]
    rcases hrest with rfl | rfl <;> rfl
  · rw [plain_append, plain_flushPending]
    rcases hrest with rfl | rfl <;> rfl

/-- A task that is born belongs to nobody yet. -/
theorem World.sound_arrive (h : w.Sound) (r : Request) :
    (w.born [.request w.next] r.prog).Sound := by
  have hu : w.life (.request w.next) = .unborn := h.fresh _ _ rfl le_rfl
  have habs := (h.keeps (.request w.next)).absent (by simp [hu])
  have hf : w.Frame (.request w.next) (w.born [.request w.next] r.prog) :=
    { life := fun q hq _ => by simp [born, hq]
      alive := fun _ => by simp [born]
      born := fun q hq hq' => .inl (by simp [born, hq, hq'])
      holds := fun _ _ _ => Iff.rfl
      line := fun _ _ _ => Iff.rfl
      cancelled := fun _ => id
      stopping := id
      next := Nat.le_succ _ }
  refine h.of_frame hf (@keeps_running _ _ r.prog (by simp [born]) ⟨⟨[], List.nodup_nil, fun l => ?_,
    r.after_prog⟩, fun r' hr => absurd hr (habs.line r'), fun q hq => ?_, fun j hj => ?_⟩)
    (fun n hn => ?_) fun _ => .inl
  · simp [show ¬ (w.born [.request w.next] r.prog).Holds (.request w.next) l from habs.held l]
  · exact absurd hq (join_not_mem r.plain_prog q)
  · exact absurd hj (register_not_mem r.plain_prog j)
  · cases hn
    exact Nat.lt_succ_self _

theorem World.sound_accept {i : Nat} (h : w.Sound) (hl : w.life (.listener i) = .running []) :
    (w.born [.copy i w.next .inbound, .copy i w.next .outbound] [.outside]).Sound := by
  have hnum : ∀ q ∈ [Party.copy i w.next .inbound, .copy i w.next .outbound], q.number = some w.next := by
    simp [Party.number]
  have hf := Frame.birth h.fresh hnum h.accounting (.inr rfl)
  have hf' : w.Frame (.listener i) _ := Frame.birth h.fresh hnum (by simp [hl]) (.inr rfl)
  exact h.of_step h.accounting hf (hf'.keeps (by simp) (h.keeps _)) fun _ => .inl

theorem World.sound_signal (h : w.Sound) (hl : w.life .serve = .running []) :
    ({ w with stopping := true }.goto .serve shutdown).Sound := by
  have h' := sound_others h w.queue w.pending w.gateOf true fun _ => rfl
  refine h'.of_step (by simp [hl]) (Frame.goto .serve _ shutdown)
    (((h'.keeps .serve).running hl).begin (goto_self _ _ _) (fun _ => Iff.rfl) (fun _ => rfl)
      after_shutdown (fun q hq => ?_) fun j => ?_) fun _ => .inl
  · simp only [shutdown, List.mem_cons, reduceCtorEq, Instr.join.injEq, List.not_mem_nil, or_false,
      false_or] at hq
    subst hq
    rfl
  · simp [shutdown]

theorem World.sound_leave {stored : Bool} (h : w.Sound) (hs : w.leave p stored = some w') :
    w'.Sound := by
  unfold leave at hs
  split at hs
  · split at hs
    · rename_i hl
      cases hs
      exact sound_quit h (by simp [hl])
    · rename_i i _ hl
      cases hs
      exact sound_round h hl (after_leaveMap _) rfl
    · rename_i hl
      cases hs
      exact sound_drain h hl stored (.inr rfl)
    · cases hs
  · cases hs

/-- **Every step** keeps what holds of the tasks. -/
theorem World.sound_step {a : Act} (h : w.Sound) (hs : w.step a = some w') : w'.Sound := by
  cases a with
  | run p =>
    simp only [step, run] at hs
    split at hs
    · rename_i hl
      exact sound_exec h hl hs
    · cases hs
  | leave p stored => exact sound_leave h hs
  | receive =>
    simp only [step] at hs
    split at hs
    · cases hs
      exact sound_others h _ _ w.gateOf w.stopping id
    · cases hs
  | arrive r => cases hs; exact sound_arrive h r
  | signal =>
    simp only [step] at hs
    split at hs
    · rename_i hl
      cases hs
      exact sound_signal h hl
    · cases hs
  | tick stored =>
    simp only [step] at hs
    split at hs
    · rename_i hl
      cases hs
      exact sound_drain h hl stored (.inl rfl)
    · cases hs
  | accept i =>
    simp only [step] at hs
    split at hs
    · rename_i hl
      cases hs
      exact sound_accept h hl
    · cases hs
  | datagram i d => exact sound_begin h hs (after_runUdpListener i d) (plain_runUdpListener i d)
  | read i n direction chunks e =>
    exact sound_begin h hs (after_copyLimited _ chunks e) (plain_copyLimited _ chunks e)
  | packet i n waits e =>
    exact sound_begin h hs (after_runUdpSession i _ waits e) (plain_runUdpSession i _ waits e)
  | lapse i n => exact sound_begin h hs (after_leaveMap i) rfl
  | reply p =>
    simp only [step] at hs
    split at hs
    · rename_i prog hl
      cases hs
      have hr := (h.keeps p).running hl
      have hf := Frame.goto p w prog
      exact h.of_step (by simp [hl]) hf (hr.skip hf (goto_self _ p _) (fun _ => Iff.rfl)
        (fun held t ht => ht) fun r => hr.no_line (by simp [Instr.asks])) fun _ => .inl
    · cases hs
  | drop p =>
    simp only [step] at hs
    split at hs
    · rename_i hl
      cases hs
      exact sound_quit h (by simp [hl])
    · cases hs

theorem World.sound_serving (apiOnly : Bool) (gates : List Nat) : (serving apiOnly gates).Sound where
  keeps p := by
    have hholds : ∀ l, ¬ (serving apiOnly gates).Holds p l := fun l ⟨_, hm⟩ => List.not_mem_nil hm
    have hline : ∀ r, p ∉ (serving apiOnly gates).line r := fun _ => List.not_mem_nil
    by_cases hl : (serving apiOnly gates).life p = .running []
    · exact keeps_running hl ⟨⟨[], List.nodup_nil, fun l => by simp [hholds l], rfl⟩,
        fun r hr => absurd hr (hline r), by simp, by simp⟩
    · refine keeps_absent (fun prog hp => ?_) ⟨hholds, hline⟩
      -- whatever runs is between its rounds
      simp only [serving] at hl hp
      split at hp
      · simp at hl
      · split at hp <;> simp_all
      · split at hp <;> simp_all
      · cases hp
  fresh p n hn hle := by
    cases p with
    | listener i =>
      cases hn
      have hge : ¬ n < gates.length := Nat.not_lt.2 hle
      simp [serving, hge]
    | request | copy | session => rfl
    | serve | accounting => cases hn
  tasks i hi := by
    cases apiOnly with
    | false =>
      have hlt : i < gates.length := List.mem_range.1 hi
      simp [serving, hlt]
    | true => cases hi
  accounting := by
    cases apiOnly <;> simp [serving]

theorem sound_inductive : process.Inductive World.Sound where
  init := by
    intro w hx
    obtain ⟨apiOnly, gates, rfl⟩ := hx
    exact World.sound_serving apiOnly gates
  step w a w' h hs := World.sound_step h hs

end

end OrangeFrp.Awaits
