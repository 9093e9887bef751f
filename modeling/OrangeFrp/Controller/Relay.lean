import OrangeFrp.Common.Checked
import OrangeFrp.Controller.Sessions

/-!
# What a copy relays (`frp-game-server/src/controller.rs`)

`copy_limited` with its bytes: the reused buffer, the offset in it, and the slice that
`write_all` still has to write. The reader is the rest of its stream, and a read takes any
part of it that fits the buffer; the writer takes any part of what it is offered. A
reservation is asked of a gate in any state, since other tasks use it too; the rounds in
which the gate only waits are no steps of the copy.

* `Relay.step_copy`: without the bytes this is the `Copy` of a session.
* `Relay.step_relayed`: the buffer holds the last bytes read, and what is written are the
  bytes before the offset.
* `Relay.step_work`: the inner loop gets nearer to its end with every step.
* `copy_faithful`: what is written, and what the events tell.
-/
namespace OrangeFrp.Controller

open OrangeFrp.Core

/-! ## The loop -/

/-- Why `copy_limited` has returned, or is about to. -/
inductive Outcome where
  | ended
  | refused
  | readFailed
  | writeFailed
  | shutdownFailed
  deriving DecidableEq

/-- `read` bytes of the buffer are in use. `rest` is what `write_all` has not written. -/
inductive RelayPhase where
  | reading
  | reserving (read offset : Nat)
  | writing (read offset allowed : Nat) (rest : Bytes)
  | sending (read offset allowed : Nat)
  | closing (outcome : Outcome)
  | done (outcome : Outcome)
  | panicked
  deriving DecidableEq

/-- `unread` is the rest of the stream; `got`, `written` and `events` tell what has been
read, written and sent to the accounting task. -/
structure Relay where
  unread : Bytes
  buffer : Bytes
  phase : RelayPhase
  got : Bytes
  written : Bytes
  events : List Nat
  deriving DecidableEq

inductive RelayAct (τ : Type) where
  | read (bytes : Nat)
  | reserve (g : GateState τ) (now : Readings)
  | write (bytes : Nat)
  | send
  | shutdown
  | fail

/-- mirrors crates/frp-game-server/src/controller.rs:430 -/
def Relay.start (input : Bytes) : Relay :=
  ⟨input, List.replicate COPY_BUFFER_BYTES 0, .reading, [], [], []⟩

/-- At `write_all` with `rest` to write.
mirrors crates/frp-game-server/src/controller.rs:443-444 -/
def Relay.writeAll (r : Relay) (read offset allowed : Nat) (rest : Bytes) : Relay :=
  { r with
    phase := if rest = [] then .sending read (offset + allowed) allowed
      else .writing read offset allowed rest }

section
variable {τ : Type} [Double τ]

/-- mirrors crates/frp-game-server/src/controller.rs:431-456 -/
def Relay.step (r : Relay) (act : RelayAct τ) : Option Relay :=
  match r.phase, act with
  | .reading, .read bytes =>
    if bytes ≤ COPY_BUFFER_BYTES ∧ bytes ≤ r.unread.length ∧ (bytes = 0 → r.unread = []) then
      some { r with
        unread := r.unread.drop bytes
        buffer := r.unread.take bytes ++ r.buffer.drop bytes
        phase := if bytes = 0 then .closing .ended else .reserving bytes 0
        got := r.got ++ r.unread.take bytes }
    else none
  | .reading, .fail => some { r with phase := .done .readFailed }
  | .reserving read offset, .reserve g now =>
    match (g.reserve (read - offset) false now).1 with
    | .granted allowed =>
      match slice r.buffer offset (offset + allowed) with
      | .ok rest => some (r.writeAll read offset allowed rest)
      | .error _ => some { r with phase := .panicked }
    | .refused => some { r with phase := .closing .refused }
    | .wait => none
  | .writing read offset allowed rest, .write bytes =>
    if 0 < bytes ∧ bytes ≤ rest.length then
      some ({ r with written := r.written ++ rest.take bytes }.writeAll read offset allowed (rest.drop bytes))
    else none
  | .writing _ _ _ _, .fail => some { r with phase := .done .writeFailed }
  | .sending read offset allowed, .send =>
    some { r with
      events := r.events ++ [allowed]
      phase := if offset < read then .reserving read offset else .reading }
  | .closing outcome, .shutdown => some { r with phase := .done outcome }
  | .closing _, .fail => some { r with phase := .done .shutdownFailed }
  | _, _ => none

/-- `copy_limited` on a stream. -/
def copyLimited (τ : Type) [Double τ] (input : Bytes) : LTS Relay (RelayAct τ) :=
  .ofFn (fun r => r = .start input) Relay.step

end

/-! ## What one step does -/

/-- What a failure at an await makes of the copy. -/
def RelayPhase.failed : RelayPhase → Option Outcome
  | .reading => some .readFailed
  | .writing _ _ _ _ => some .writeFailed
  | .closing _ => some .shutdownFailed
  | _ => none

/-- The steps of a copy by what they do. -/
inductive Relay.Steps {τ : Type} [Double τ] (r : Relay) : RelayAct τ → Relay → Prop
  | read {bytes : Nat} (hphase : r.phase = .reading) (hpos : 0 < bytes) (hfit : bytes ≤ COPY_BUFFER_BYTES)
      (hlen : bytes ≤ r.unread.length) :
      Steps r (.read bytes) { r with
        unread := r.unread.drop bytes
        buffer := r.unread.take bytes ++ r.buffer.drop bytes
        phase := .reserving bytes 0
        got := r.got ++ r.unread.take bytes }
  | ended (hphase : r.phase = .reading) (hunread : r.unread = []) :
      Steps r (.read 0) { r with phase := .closing .ended }
  | granted {read offset allowed : Nat} {rest : Bytes} {g : GateState τ} {now : Readings}
      (hphase : r.phase = .reserving read offset)
      (hgranted : (g.reserve (read - offset) false now).1 = .granted allowed)
      (hslice : slice r.buffer offset (offset + allowed) = .ok rest) :
      Steps r (.reserve g now) (r.writeAll read offset allowed rest)
  | panicked {read offset allowed : Nat} {fault : Halt} {g : GateState τ} {now : Readings}
      (hphase : r.phase = .reserving read offset)
      (hgranted : (g.reserve (read - offset) false now).1 = .granted allowed)
      (hslice : slice r.buffer offset (offset + allowed) = .error fault) :
      Steps r (.reserve g now) { r with phase := .panicked }
  | refused {read offset : Nat} {g : GateState τ} {now : Readings} (hphase : r.phase = .reserving read offset)
      (hrefused : (g.reserve (read - offset) false now).1 = .refused) :
      Steps r (.reserve g now) { r with phase := .closing .refused }
  | write {read offset allowed bytes : Nat} {rest : Bytes} (hphase : r.phase = .writing read offset allowed rest)
      (hpos : 0 < bytes) (hlen : bytes ≤ rest.length) :
      Steps r (.write bytes)
        ({ r with written := r.written ++ rest.take bytes }.writeAll read offset allowed (rest.drop bytes))
  | send {read offset allowed : Nat} (hphase : r.phase = .sending read offset allowed) :
      Steps r .send { r with
        events := r.events ++ [allowed]
        phase := if offset < read then .reserving read offset else .reading }
  | shutdown {outcome : Outcome} (hphase : r.phase = .closing outcome) :
      Steps r .shutdown { r with phase := .done outcome }
  | failed {outcome : Outcome} (hphase : r.phase.failed = some outcome) :
      Steps r .fail { r with phase := .done outcome }

theorem Relay.step_cases {τ : Type} [Double τ] {r t : Relay} {act : RelayAct τ} (h : r.step act = some t) :
    r.Steps act t := by
  unfold Relay.step at h
  split at h
  · rename_i bytes hphase
    split at h
    · rename_i hread
      cases h
      rcases Nat.eq_zero_or_pos bytes with rfl | hpos
      · have hended := @Relay.Steps.ended τ _ r hphase (hread.2.2 rfl)
        simpa only [List.drop_zero, List.take_zero, List.nil_append, List.append_nil, if_true] using hended
      · have hread' := @Relay.Steps.read τ _ r bytes hphase hpos hread.1 hread.2.1
        simpa only [if_neg (Nat.ne_of_gt hpos)] using hread'
    · cases h
  · rename_i hphase
    cases h
    exact .failed (by rw [hphase]; rfl)
  · rename_i read offset g now hphase
    split at h
    · rename_i allowed hgranted
      split at h
      · rename_i rest hslice
        cases h
        exact .granted hphase hgranted hslice
      · rename_i fault hslice
        cases h
        exact .panicked hphase hgranted hslice
    · rename_i hrefused
      cases h
      exact .refused hphase hrefused
    · cases h
  · rename_i hphase
    split at h
    · rename_i hbytes
      cases h
      exact .write hphase hbytes.1 hbytes.2
    · cases h
  · rename_i hphase
    cases h
    exact .failed (by rw [hphase]; rfl)
  · rename_i hphase
    cases h
    exact .send hphase
  · rename_i hphase
    cases h
    exact .shutdown hphase
  · rename_i hphase
    cases h
    exact .failed (by rw [hphase]; rfl)
  · cases h

/-! ## What the gate answers -/

/-- **A grant is of 1 to the requested bytes.** -/
theorem reserve_granted {τ : Type} [Double τ] {g : GateState τ} {requested n : Nat} {exact : Bool}
    {now : Readings} (hpos : 0 < requested) (h : (g.reserve requested exact now).1 = .granted n) :
    0 < n ∧ n ≤ requested := by
  have hattempt : g.reserve requested exact now = g.attempt requested exact now := if_neg (by omega)
  have hspec := (attempt_spec g requested exact now).2
  rw [hattempt] at h
  rw [h] at hspec
  obtain ⟨hn, hremaining, -⟩ := hspec
  omega

/-! ## Where the written bytes are -/

/-- The first `read` bytes of the buffer are the last ones read; those up to `offset` are
written, but for `rest`. -/
def Relay.At (r : Relay) (read offset : Nat) (rest : Bytes) : Prop :=
  offset ≤ read ∧ read ≤ COPY_BUFFER_BYTES ∧ ∃ before,
    r.got = before ++ r.buffer.take read ∧ r.written ++ rest = before ++ r.buffer.take offset

def Relay.Placed (r : Relay) : RelayPhase → Prop
  | .reading => r.written = r.got
  | .reserving read offset => offset < read ∧ r.At read offset []
  | .writing read offset allowed rest =>
    rest ≠ [] ∧ rest.length ≤ allowed ∧ r.At read (offset + allowed) rest
  | .sending read offset _ => r.At read offset []
  | .closing outcome | .done outcome =>
    r.written <+: r.got ∧ (outcome = .ended → r.written = r.got ∧ r.unread = [])
  | .panicked => False

/-- The written bytes that no event has told of. -/
def RelayPhase.untold : RelayPhase → Nat
  | .writing _ _ allowed rest => allowed - rest.length
  | .sending _ _ allowed => allowed
  | _ => 0

structure Relay.Relayed (input : Bytes) (r : Relay) : Prop where
  stream : r.got ++ r.unread = input
  buffer : r.buffer.length = COPY_BUFFER_BYTES
  placed : r.Placed r.phase
  told : r.phase ≠ .done .writeFailed → r.events.sum + r.phase.untold = r.written.length
  cut : r.events.sum ≤ r.written.length ∧ r.written.length ≤ r.events.sum + COPY_BUFFER_BYTES

variable {τ : Type} [Double τ] {input : Bytes} {r t : Relay}

theorem Relay.At.inOrder {read offset : Nat} {rest : Bytes} (h : r.At read offset rest) :
    r.written <+: r.got := by
  obtain ⟨hle, -, before, hgot, hwritten⟩ := h
  have hbuffer : r.buffer.take offset <+: r.buffer.take read := List.take_prefix_take_left hle
  rw [hgot]
  refine List.IsPrefix.trans ?_ ((List.prefix_append_right_inj before).2 hbuffer)
  rw [← hwritten]
  exact List.prefix_append _ _

theorem Relay.Relayed.inOrder (h : r.Relayed input) : r.written <+: r.got := by
  have hp := h.placed
  cases hphase : r.phase with
  | reading =>
    rw [hphase] at hp
    exact hp ▸ List.prefix_rfl
  | reserving => rw [hphase] at hp; exact hp.2.inOrder
  | writing => rw [hphase] at hp; exact hp.2.2.inOrder
  | sending => rw [hphase] at hp; exact hp.inOrder
  | closing => rw [hphase] at hp; exact hp.1
  | done => rw [hphase] at hp; exact hp.1
  | panicked => rw [hphase] at hp; exact hp.elim

/-- `write_all` gets on with its slice, or is done with it. -/
theorem Relay.writeAll_relayed {read offset allowed : Nat} {rest : Bytes}
    (hstream : r.got ++ r.unread = input) (hbuffer : r.buffer.length = COPY_BUFFER_BYTES)
    (hrest : rest.length ≤ allowed) (hat : r.At read (offset + allowed) rest)
    (htold : r.events.sum + (allowed - rest.length) = r.written.length) :
    (r.writeAll read offset allowed rest).Relayed input := by
  have hread := hat.2.1
  have hle := hat.1
  unfold Relay.writeAll
  split
  · rename_i hnil
    subst hnil
    refine ⟨hstream, hbuffer, hat, fun _ => htold, ?_⟩
    have htold' : r.events.sum + allowed = r.written.length := htold
    dsimp only
    omega
  · rename_i hne
    refine ⟨hstream, hbuffer, ⟨hne, hrest, hat⟩, fun _ => htold, ?_⟩
    dsimp only
    omega

/-- **A slice lies within the bytes just read.** -/
theorem Relay.granted_slice {read offset allowed : Nat} {g : GateState τ} {now : Readings}
    (h : r.Placed (.reserving read offset)) (hbuffer : r.buffer.length = COPY_BUFFER_BYTES)
    (hgranted : (g.reserve (read - offset) false now).1 = .granted allowed) :
    0 < allowed ∧ offset + allowed ≤ read ∧ ∃ chunk, slice r.buffer offset (offset + allowed) = .ok chunk ∧
      chunk.length = allowed ∧ r.At read (offset + allowed) chunk := by
  obtain ⟨hlt, -, hread, before, hgot, hwritten⟩ := h
  obtain ⟨hpos, hle⟩ := reserve_granted (by omega) hgranted
  have hfit : offset + allowed ≤ read := by omega
  refine ⟨hpos, hfit, (r.buffer.take (offset + allowed)).drop offset, slice_ok (by omega) (by omega), ?_,
    hfit, hread, before, hgot, ?_⟩
  · rw [List.length_drop, List.length_take]
    omega
  · have hsplit : r.buffer.take offset ++ (r.buffer.take (offset + allowed)).drop offset =
        r.buffer.take (offset + allowed) := by
      conv_rhs => rw [← List.take_append_drop offset (r.buffer.take (offset + allowed))]
      rw [List.take_take, min_eq_left (by omega)]
    rw [List.append_nil] at hwritten
    rw [hwritten, List.append_assoc, hsplit]

/-- **One step of the copy.** -/
theorem Relay.step_relayed {act : RelayAct τ} (h : r.Relayed input) (hst : r.Steps act t) :
    t.Relayed input := by
  obtain ⟨hstream, hbuffer, hplaced, htold, hcut⟩ := h
  cases hst with
  | read hphase hpos hfit hlen =>
    rename_i bytes
    rw [hphase] at hplaced htold
    refine ⟨?_, ?_, ⟨hpos, Nat.zero_le _, hfit, r.got, ?_, ?_⟩, fun _ => htold (by simp), hcut⟩
    · rw [List.append_assoc, List.take_append_drop]
      exact hstream
    · rw [List.length_append, List.length_take, List.length_drop]
      omega
    · have htake : (r.unread.take bytes).length = bytes := List.length_take_of_le hlen
      dsimp only
      rw [List.take_append_of_le_length (by omega), List.take_take, min_self]
    · rw [List.append_nil, List.take_zero, List.append_nil]
      exact hplaced
  | ended hphase hunread =>
    rw [hphase] at hplaced htold
    exact ⟨hstream, hbuffer, ⟨hplaced ▸ List.prefix_rfl, fun _ => ⟨hplaced, hunread⟩⟩,
      fun _ => htold (by simp), hcut⟩
  | granted hphase hgranted hslice =>
    rw [hphase] at hplaced htold
    obtain ⟨-, -, chunk, hok, hlen, hat⟩ := Relay.granted_slice hplaced hbuffer hgranted
    rw [hok] at hslice
    cases hslice
    refine Relay.writeAll_relayed hstream hbuffer hlen.le hat ?_
    have htold' := htold (by simp)
    rw [hlen, Nat.sub_self]
    exact htold'
  | panicked hphase hgranted hslice =>
    rw [hphase] at hplaced
    obtain ⟨-, -, chunk, hok, -⟩ := Relay.granted_slice hplaced hbuffer hgranted
    rw [hok] at hslice
    cases hslice
  | refused hphase hrefused =>
    rw [hphase] at hplaced htold
    exact ⟨hstream, hbuffer, ⟨hplaced.2.inOrder, fun h => by cases h⟩, fun _ => htold (by simp), hcut⟩
  | write hphase hpos hlen =>
    rename_i read offset allowed bytes rest
    rw [hphase] at hplaced htold
    obtain ⟨-, hrest, hle, hread, before, hgot, hwritten⟩ := hplaced
    have htold' := htold (by simp)
    refine Relay.writeAll_relayed hstream hbuffer ?_ ⟨hle, hread, before, hgot, ?_⟩ ?_
    · rw [List.length_drop]
      omega
    · dsimp only
      rw [List.append_assoc, List.take_append_drop]
      exact hwritten
    · dsimp only [RelayPhase.untold] at htold' ⊢
      rw [List.length_drop, List.length_append, List.length_take]
      omega
  | send hphase =>
    rename_i read offset allowed
    rw [hphase] at hplaced htold
    have htold' := htold (by simp)
    have hsum : (r.events ++ [allowed]).sum = r.written.length := by
      rw [List.sum_append, List.sum_singleton]
      exact htold'
    have hcut' : (r.events ++ [allowed]).sum ≤ r.written.length ∧
        r.written.length ≤ (r.events ++ [allowed]).sum + COPY_BUFFER_BYTES := by omega
    split
    · rename_i hlt
      exact ⟨hstream, hbuffer, ⟨hlt, hplaced⟩, fun _ => hsum, hcut'⟩
    · rename_i hge
      refine ⟨hstream, hbuffer, ?_, fun _ => hsum, hcut'⟩
      obtain ⟨hle, -, before, hgot, hwritten⟩ := hplaced
      have hall : offset = read := by omega
      rw [List.append_nil, hall] at hwritten
      exact hwritten.trans hgot.symm
  | shutdown hphase =>
    rw [hphase] at hplaced htold
    exact ⟨hstream, hbuffer, hplaced, fun _ => htold (by simp), hcut⟩
  | failed hphase =>
    have hinOrder := Relay.Relayed.inOrder ⟨hstream, hbuffer, hplaced, htold, hcut⟩
    cases hp : r.phase with
    | reading =>
      rw [hp] at hphase htold
      cases hphase
      exact ⟨hstream, hbuffer, ⟨hinOrder, fun h => by cases h⟩, fun _ => htold (by simp), hcut⟩
    | writing =>
      rw [hp] at hphase
      cases hphase
      exact ⟨hstream, hbuffer, ⟨hinOrder, fun h => by cases h⟩, fun h => absurd rfl h, hcut⟩
    | closing =>
      rw [hp] at hphase htold
      cases hphase
      exact ⟨hstream, hbuffer, ⟨hinOrder, fun h => by cases h⟩, fun _ => htold (by simp), hcut⟩
    | _ => rw [hp] at hphase; cases hphase

/-! ## The copy of a session -/

/-- What `Copy` keeps of the phase. -/
def RelayPhase.copy : RelayPhase → Copy
  | .reading => .reading
  | .reserving read offset => .reserving (read - offset)
  | .writing read offset allowed rest => .writing (read - offset) allowed (allowed - rest.length)
  | .sending read offset allowed => .sending (read - offset + allowed) allowed
  | .closing _ | .done _ | .panicked => .closing

def RelayAct.copy : RelayAct τ → Option CopyAct
  | .read bytes => some (.read bytes)
  | .reserve _ now => some (.reserve now)
  | .write bytes => some (.write bytes)
  | .send => some .send
  | .shutdown | .fail => none

omit [Double τ] in
theorem Relay.writeAll_copy (r : Relay) {read offset allowed : Nat} {rest : Bytes}
    (hle : offset + allowed ≤ read) : (r.writeAll read offset allowed rest).phase.copy =
      if rest = [] then .sending (read - offset) allowed
      else .writing (read - offset) allowed (allowed - rest.length) := by
  unfold Relay.writeAll
  dsimp only
  split
  · show Copy.sending _ _ = _
    congr 1
    omega
  · rfl

/-- **Without the bytes this is the copy of a session**, at the gate that answers. -/
theorem Relay.step_copy {act : RelayAct τ} {a : CopyAct} {g : GateState τ} (direction : Direction)
    (h : r.Relayed input) (hst : r.Steps act t) (ha : act.copy = some a)
    (hg : ∀ g' now, act = .reserve g' now → g' = g) :
    ∃ m, r.phase.copy.step direction g true a = some m ∧ m.next = t.phase.copy ∧
      t.written.length = r.written.length + m.delivered := by
  have hplaced := h.placed
  cases hst with
  | read hphase hpos hfit hlen =>
    cases ha
    rw [hphase]
    refine ⟨_, if_pos hfit, ?_, rfl⟩
    rw [if_neg (by omega)]
    rfl
  | ended hphase hunread =>
    cases ha
    rw [hphase]
    exact ⟨Move.quiet g .closing, rfl, rfl, rfl⟩
  | granted hphase hgranted hslice =>
    rename_i read offset allowed rest g' now
    cases ha
    obtain rfl := hg _ _ rfl
    rw [hphase] at hplaced ⊢
    obtain ⟨hpos, hfit, chunk, hok, hlen, -⟩ := Relay.granted_slice hplaced h.buffer hgranted
    rw [hok] at hslice
    cases hslice
    have hne : rest ≠ [] := List.ne_nil_of_length_pos (by omega)
    refine ⟨Move.grant (g'.reserve (read - offset) false now).2 (.writing (read - offset) allowed 0) allowed,
      ?_, ?_, rfl⟩
    · simp only [RelayPhase.copy, Copy.step]
      rw [show g'.reserve (read - offset) false now =
        (.granted allowed, (g'.reserve (read - offset) false now).2) from Prod.ext hgranted rfl]
    · rw [Relay.writeAll_copy r hfit, if_neg hne, hlen, Nat.sub_self]
      rfl
  | panicked hphase hgranted hslice =>
    rw [hphase] at hplaced
    obtain ⟨-, -, chunk, hok, -⟩ := Relay.granted_slice hplaced h.buffer hgranted
    rw [hok] at hslice
    cases hslice
  | refused hphase hrefused =>
    rename_i read offset g' now
    cases ha
    obtain rfl := hg _ _ rfl
    rw [hphase]
    refine ⟨Move.quiet (g'.reserve (read - offset) false now).2 .closing, ?_, rfl, rfl⟩
    simp only [RelayPhase.copy, Copy.step]
    rw [show g'.reserve (read - offset) false now =
      (.refused, (g'.reserve (read - offset) false now).2) from Prod.ext hrefused rfl]
  | write hphase hpos hlen =>
    rename_i read offset allowed bytes rest
    cases ha
    rw [hphase] at hplaced ⊢
    obtain ⟨-, hrest, hfit, -⟩ := hplaced
    refine ⟨_, if_pos (by omega), ?_, ?_⟩
    · have hnil : rest.drop bytes = [] ↔ allowed - rest.length + bytes = allowed := by
        rw [List.drop_eq_nil_iff]
        omega
      rw [Relay.writeAll_copy _ hfit]
      simp only [Move.deliver, hnil, List.length_drop]
      split
      · rfl
      · congr 1
        omega
    · unfold Relay.writeAll
      simp only [Move.deliver, List.length_append, List.length_take]
      omega
  | send hphase =>
    rename_i read offset allowed
    cases ha
    rw [hphase]
    refine ⟨.send g (if read - offset + allowed ≤ allowed then .reading
      else .reserving (read - offset + allowed - allowed)) direction allowed, rfl, ?_, rfl⟩
    simp only [Move.send]
    by_cases hlt : offset < read
    · rw [if_neg (by omega), if_pos hlt, Nat.add_sub_cancel]
      rfl
    · rw [if_pos (by omega), if_neg hlt]
      rfl
  | shutdown hphase => cases ha
  | failed hphase => cases ha

/-! ## The inner loop -/

def RelayAct.isRead : RelayAct τ → Bool
  | .read _ => true
  | _ => false

/-- The bytes of the chunk that are not written. -/
def RelayPhase.left : RelayPhase → Nat
  | .reserving read offset | .sending read offset _ => read - offset
  | .writing read offset allowed rest => read - (offset + allowed) + rest.length
  | _ => 0

/-- An upper bound of the steps until the loop is left. -/
def RelayPhase.work : RelayPhase → Nat
  | .reserving read offset => 3 * (read - offset) + 1
  | .writing read offset allowed rest => 3 * (read - (offset + allowed) + rest.length)
  | .sending read offset _ => 3 * (read - offset) + 2
  | .reading | .closing _ => 1
  | .done _ | .panicked => 0

omit [Double τ] in
theorem Relay.writeAll_work (r : Relay) (read offset allowed : Nat) (rest : Bytes) :
    (r.writeAll read offset allowed rest).phase.work ≤ 3 * (read - (offset + allowed) + rest.length) + 2 := by
  unfold Relay.writeAll
  dsimp only
  split
  · rename_i hnil
    rw [hnil]
    exact Nat.le_refl _
  · exact Nat.le_add_right _ _

/-- **Every step but a read gets nearer to the end of the loop.** -/
theorem Relay.step_work {act : RelayAct τ} (h : r.Relayed input) (hst : r.Steps act t)
    (hread : act.isRead = false) : t.phase.work < r.phase.work := by
  have hplaced := h.placed
  cases hst with
  | read => cases hread
  | ended => cases hread
  | granted hphase hgranted hslice =>
    rename_i read offset allowed rest g now
    rw [hphase] at hplaced ⊢
    obtain ⟨hpos, hfit, chunk, hok, hlen, -⟩ := Relay.granted_slice hplaced h.buffer hgranted
    rw [hok] at hslice
    cases hslice
    have hne : rest ≠ [] := List.ne_nil_of_length_pos (by omega)
    unfold Relay.writeAll
    rw [if_neg hne]
    show 3 * (read - (offset + allowed) + rest.length) < 3 * (read - offset) + 1
    omega
  | panicked hphase hgranted hslice => rw [hphase]; exact Nat.succ_pos _
  | refused hphase hrefused =>
    rw [hphase] at hplaced ⊢
    have hlt := hplaced.1
    show 1 < 3 * _ + 1
    omega
  | write hphase hpos hlen =>
    rename_i read offset allowed bytes rest
    refine Nat.lt_of_le_of_lt (Relay.writeAll_work _ read offset allowed (rest.drop bytes)) ?_
    rw [hphase, List.length_drop]
    show _ < 3 * (read - (offset + allowed) + rest.length)
    omega
  | send hphase =>
    rw [hphase]
    dsimp only
    split
    · exact Nat.lt_succ_self _
    · exact Nat.lt_of_lt_of_le (Nat.lt_succ_self 1) (Nat.le_add_left _ _)
  | shutdown hphase => rw [hphase]; exact Nat.zero_lt_one
  | failed hphase =>
    cases hp : r.phase with
    | writing =>
      rw [hp] at hplaced
      have hpos := List.length_pos_of_ne_nil hplaced.1
      show 0 < 3 * _
      omega
    | panicked => rw [hp] at hphase; cases hphase
    | done => rw [hp] at hphase; cases hphase
    | _ => exact Nat.succ_pos _

/-- The loop is left after at most `work` steps. -/
theorem relay_work {ls : List (RelayAct τ)} (hrun : (copyLimited τ input).Run r ls t)
    (h : r.Relayed input) (hread : ∀ l ∈ ls, l.isRead = false) : ls.length + t.phase.work ≤ r.phase.work := by
  induction hrun with
  | nil => exact (Nat.zero_add _).le
  | cons hst _ ih =>
    have hstep := Relay.step_cases hst
    have hless := Relay.step_work h hstep (hread _ List.mem_cons_self)
    have hrest := ih (Relay.step_relayed h hstep) fun l hl => hread l (List.mem_cons_of_mem _ hl)
    rw [List.length_cons]
    omega

/-- A step that takes a grant. -/
theorem Relay.step_reserve {read offset allowed : Nat} {chunk : Bytes} {g : GateState τ} {now : Readings}
    (hphase : r.phase = .reserving read offset)
    (hgranted : (g.reserve (read - offset) false now).1 = .granted allowed)
    (hslice : slice r.buffer offset (offset + allowed) = .ok chunk) :
    r.step (.reserve g now) = some (r.writeAll read offset allowed chunk) := by
  obtain ⟨unread, buffer, phase, got, written, events⟩ := r
  cases hphase
  simp only [Relay.step, hgranted, hslice]

/-- Within a chunk the copy takes whatever comes: every grant and refusal of the gate, at any
state of it and any time, every part that the writer takes, and the room in the channel. -/
def Relay.GoesOn (τ : Type) [Double τ] (r : Relay) : Prop :=
  match r.phase with
  | .reserving read offset => ∀ (g : GateState τ) now, (g.reserve (read - offset) false now).1 ≠ .wait →
      ∃ t, r.step (.reserve g now) = some t ∧ t.phase ≠ .panicked
  | .writing _ _ _ rest => rest ≠ [] ∧ ∀ bytes, 0 < bytes → bytes ≤ rest.length →
      ∃ t, r.step (.write bytes : RelayAct τ) = some t
  | .sending _ _ _ => ∃ t, r.step (.send : RelayAct τ) = some t
  | _ => True

/-- **The inner loop goes on** whatever the gate answers. -/
theorem Relay.Relayed.goesOn (h : r.Relayed input) : r.GoesOn τ := by
  obtain ⟨unread, buffer, phase, got, written, events⟩ := r
  have hplaced := h.placed
  cases phase with
  | reserving read offset =>
    intro g now hanswer
    cases hanswered : (g.reserve (read - offset) false now).1 with
    | granted allowed =>
      obtain ⟨-, -, chunk, hok, -⟩ := Relay.granted_slice hplaced h.buffer hanswered
      refine ⟨_, Relay.step_reserve rfl hanswered hok, fun hpanic => ?_⟩
      unfold Relay.writeAll at hpanic
      dsimp only at hpanic
      split at hpanic <;> cases hpanic
    | refused =>
      refine ⟨⟨unread, buffer, .closing .refused, got, written, events⟩, ?_, RelayPhase.noConfusion⟩
      simp only [Relay.step, hanswered]
    | wait => exact absurd hanswered hanswer
  | writing read offset allowed rest =>
    exact ⟨hplaced.1, fun bytes hpos hlen => ⟨_, if_pos ⟨hpos, hlen⟩⟩⟩
  | sending read offset allowed => exact ⟨_, rfl⟩
  | _ => trivial

/-! ## What a run relays -/

/-- The reservation the step asks for is refused. -/
def Relay.Refuses (r : Relay) : RelayAct τ → Prop
  | .reserve g now => (g.reserve r.phase.left false now).1 = .refused
  | _ => False

theorem start_relayed (input : Bytes) : (Relay.start input).Relayed input :=
  ⟨rfl, List.length_replicate, rfl, fun _ => rfl, Nat.le_refl _, Nat.zero_le _⟩

theorem copyLimited_inductive (input : Bytes) :
    (copyLimited τ input).Inductive fun r => r.Relayed input :=
  ⟨fun _ h => h ▸ start_relayed input, fun _ _ _ h hst => Relay.step_relayed h (Relay.step_cases hst)⟩

/-- Without a refusal the writer is shut down at the end of the stream only. -/
theorem Relay.step_unrefused {act : RelayAct τ} (hst : r.Steps act t) (hact : ¬ r.Refuses act)
    (outcome : Outcome) (hphase : t.phase = .closing outcome) : outcome = .ended := by
  cases hst with
  | ended =>
    cases hphase
    rfl
  | refused hreserving hrefused =>
    refine absurd ?_ hact
    rw [Relay.Refuses, hreserving]
    exact hrefused
  | granted =>
    unfold Relay.writeAll at hphase
    dsimp only at hphase
    split at hphase <;> cases hphase
  | write =>
    unfold Relay.writeAll at hphase
    dsimp only at hphase
    split at hphase <;> cases hphase
  | send =>
    dsimp only at hphase
    split at hphase <;> cases hphase
  | _ => cases hphase

theorem unrefused_closing {ls : List (RelayAct τ)}
    (hrun : (copyLimited τ input).Meets (fun r l => ¬ r.Refuses l) (.start input) ls r) (outcome : Outcome)
    (hphase : r.phase = .closing outcome) : outcome = .ended := by
  have hinv : ((copyLimited τ input).restrict fun r l => ¬ r.Refuses l).Inductive
      fun r => ∀ outcome, r.phase = .closing outcome → outcome = .ended := by
    refine ⟨fun r h outcome hphase => ?_, fun r l t _ hst => Relay.step_unrefused (Relay.step_cases hst.1) hst.2⟩
    cases h
    cases hphase
  exact hinv.run (LTS.run_restrict_iff.2 hrun) (fun outcome hphase => by cases hphase) outcome hphase

/-- What `copy_limited` promises at any point of a run. -/
structure Relay.Faithful (input : Bytes) (r : Relay) : Prop where
  /-- in order, without repetition or gap -/
  inOrder : r.written <+: r.got ∧ r.got <+: input
  /-- no slice is out of range -/
  total : r.phase ≠ .panicked
  /-- a slice lies inside the bytes just read -/
  inside : ∀ read offset allowed rest, r.phase = .writing read offset allowed rest →
    offset + allowed ≤ read ∧ r.buffer.take read <:+ r.got
  /-- the events tell what is written, but for the grant being written or told -/
  told : r.phase ≠ .done .writeFailed → r.events.sum + r.phase.untold = r.written.length
  /-- a failing write leaves less than a buffer untold -/
  cut : r.events.sum ≤ r.written.length ∧ r.written.length ≤ r.events.sum + COPY_BUFFER_BYTES

theorem Relay.Relayed.faithful (h : r.Relayed input) : r.Faithful input := by
  have hp := h.placed
  refine ⟨⟨h.inOrder, h.stream ▸ List.prefix_append _ _⟩, fun hpanic => ?_, fun read offset allowed rest hphase => ?_,
    h.told, h.cut⟩
  · rw [hpanic] at hp
    exact hp
  · rw [hphase] at hp
    obtain ⟨-, -, hle, -, before, hgot, -⟩ := hp
    exact ⟨hle, hgot ▸ List.suffix_append _ _⟩

/-- **`copy_limited` relays a faithful prefix**, leaves the inner loop of every chunk without ever
getting stuck in it, and, unless a reservation is refused, writes the whole stream before it shuts
the writer down. -/
theorem copy_faithful {ls : List (RelayAct τ)} {s : Relay}
    (hrun : (copyLimited τ input).Run (.start input) ls s) : s.Faithful input ∧
      (∀ ks t, (copyLimited τ input).Run s ks t → (∀ l ∈ ks, l.isRead = false) → ks.length ≤ s.phase.work) ∧
      s.GoesOn τ ∧
      ((copyLimited τ input).Meets (fun r l => ¬ r.Refuses l) (.start input) ls s →
        (s.step (.shutdown : RelayAct τ)).isSome = true → s.written = input) := by
  have hrelayed := (copyLimited_inductive input).run hrun (start_relayed input)
  refine ⟨hrelayed.faithful, fun ks t hks hread => ?_, hrelayed.goesOn, fun hmeets hshut => ?_⟩
  · have hwork := relay_work hks hrelayed hread
    omega
  · obtain ⟨t, ht⟩ := Option.isSome_iff_exists.1 hshut
    have hst : s.Steps (RelayAct.shutdown : RelayAct τ) t := Relay.step_cases ht
    cases hst with
    | shutdown hphase =>
      have hended := unrefused_closing hmeets _ hphase
      subst hended
      have hplaced := hrelayed.placed
      rw [hphase] at hplaced
      obtain ⟨hwritten, hunread⟩ := hplaced.2 rfl
      have hstream := hrelayed.stream
      rw [hunread, List.append_nil] at hstream
      exact hwritten.trans hstream

/-! ## A chunk that is granted at once -/

def RelayAct.fails : RelayAct τ → Bool
  | .fail => true
  | _ => false

/-- A step that neither fails nor is refused. -/
def Relay.Smooth (r : Relay) (act : RelayAct τ) : Prop := act.fails = false ∧ ¬ r.Refuses act

/-- A gate without limits. -/
def GateState.unlimited : GateState τ := .new 0 0 0 0

/-- It grants what is asked of it. -/
theorem unlimited_grants {requested : Nat} (hle : requested ≤ U64_MAX) :
    ((GateState.unlimited : GateState τ).reserve requested false 0).1 = .granted requested := by
  have hmin : min requested U64_MAX = requested := min_eq_left hle
  unfold GateState.reserve
  split
  · rename_i hzero
    rw [hzero]
  · show Attempt.granted (min requested U64_MAX) = _
    rw [hmin]

/-- The copy after a chunk of `n` bytes has passed. -/
def Relay.passed (r : Relay) (n : Nat) : Relay where
  unread := r.unread.drop n
  buffer := r.unread.take n ++ r.buffer.drop n
  phase := .reading
  got := r.got ++ r.unread.take n
  written := r.written ++ r.unread.take n
  events := r.events ++ [n]

/-- The copy at the writing of a chunk of `n` bytes. -/
def Relay.offered (r : Relay) (n : Nat) : Relay where
  unread := r.unread.drop n
  buffer := r.unread.take n ++ r.buffer.drop n
  phase := .writing n 0 n (r.unread.take n)
  got := r.got ++ r.unread.take n
  written := r.written
  events := r.events

def offering (τ : Type) [Double τ] (n : Nat) : List (RelayAct τ) := [.read n, .reserve .unlimited 0]

theorem Relay.offers {n : Nat} (h : r.Relayed input) (hphase : r.phase = .reading) (hpos : 0 < n)
    (hfit : n ≤ COPY_BUFFER_BYTES) (hlen : n ≤ r.unread.length) :
    ((copyLimited τ input).restrict Relay.Smooth).Run r (offering τ n) (r.offered n) := by
  have hread : r.step (.read n : RelayAct τ) = some { r with
      unread := r.unread.drop n
      buffer := r.unread.take n ++ r.buffer.drop n
      phase := .reserving n 0
      got := r.got ++ r.unread.take n } := by
    obtain ⟨unread, buffer, phase, got, written, events⟩ := r
    cases hphase
    simp only [Relay.step]
    rw [if_pos ⟨hfit, hlen, by omega⟩, if_neg (by omega)]
  have hgranted : ((GateState.unlimited : GateState τ).reserve (n - 0) false 0).1 = .granted n := by
    refine unlimited_grants ?_
    unfold COPY_BUFFER_BYTES at hfit
    unfold U64_MAX
    omega
  have htake : (r.unread.take n).length = n := List.length_take_of_le hlen
  have hslice : slice (r.unread.take n ++ r.buffer.drop n) 0 (0 + n) = .ok (r.unread.take n) := by
    rw [slice_ok (Nat.zero_le _) (by rw [List.length_append]; omega), List.drop_zero, Nat.zero_add,
      List.take_append_of_le_length htake.ge, List.take_take, min_self]
  have hreserve := @Relay.step_reserve τ _ { r with
      unread := r.unread.drop n
      buffer := r.unread.take n ++ r.buffer.drop n
      phase := .reserving n 0
      got := r.got ++ r.unread.take n } n 0 n _ _ 0 rfl hgranted hslice
  unfold Relay.writeAll at hreserve
  rw [if_neg (List.ne_nil_of_length_pos (by omega))] at hreserve
  refine .cons ⟨hread, rfl, not_false⟩ (.cons ⟨hreserve, rfl, fun h => ?_⟩
    (.nil _))
  have hrefused : ((GateState.unlimited : GateState τ).reserve (n - 0) false 0).1 = .refused := h
  rw [hgranted] at hrefused
  cases hrefused

/-- **A granted chunk passes in four steps.** -/
theorem Relay.passes {n : Nat} (h : r.Relayed input) (hphase : r.phase = .reading) (hpos : 0 < n)
    (hfit : n ≤ COPY_BUFFER_BYTES) (hlen : n ≤ r.unread.length) :
    ((copyLimited τ input).restrict Relay.Smooth).Run r (offering τ n ++ [.write n, .send]) (r.passed n) := by
  have htake : (r.unread.take n).length = n := List.length_take_of_le hlen
  have hwrite : (r.offered n).step (.write n : RelayAct τ) =
      some { r.offered n with phase := .sending n (0 + n) n, written := r.written ++ r.unread.take n } := by
    have hdrop : (r.unread.take n).drop n = [] := List.drop_eq_nil_iff.2 htake.le
    have hall : (r.unread.take n).take n = r.unread.take n := by rw [List.take_take, min_self]
    simp only [Relay.step, Relay.offered]
    rw [if_pos ⟨hpos, htake.ge⟩, hdrop, hall]
    rfl
  have hsend : { r.offered n with phase := .sending n (0 + n) n, written := r.written ++ r.unread.take n }.step
      (.send : RelayAct τ) = some (r.passed n) := by
    simp only [Relay.step, Relay.offered]
    rw [if_neg (by omega)]
    rfl
  exact (Relay.offers h hphase hpos hfit hlen).append (.cons ⟨hwrite, rfl, not_false⟩
    (.cons ⟨hsend, rfl, not_false⟩ (.nil _)))

/-- Two bytes, granted at once and passed. -/
def passing : List (RelayAct Rat) := (offering Rat 2 ++ [.write 2, .send]) ++ [.read 0, .shutdown]

theorem passing_faithful : ∃ s, (copyLimited Rat [1, 2]).Run (.start [1, 2]) passing s ∧
    s.written = [1, 2] ∧ s.events = [2] ∧ s.Faithful [1, 2] := by
  have hpasses := @Relay.passes Rat _ _ _ 2 (start_relayed [1, 2]) rfl (by decide : 0 < 2) (by decide) (by decide)
  have hclose : (copyLimited Rat [1, 2]).Run ((Relay.start [1, 2]).passed 2) [.read 0, .shutdown] _ :=
    LTS.run_of_exec rfl
  have hrun := (LTS.run_restrict_iff.1 hpasses).run.append hclose
  exact ⟨_, hrun, rfl, rfl, (copy_faithful hrun).1⟩

/-- The write takes the first byte and fails: the events do not tell of it. -/
theorem failing_write_untold : ¬ ∀ (input : Bytes) (ls : List (RelayAct Rat)) (s : Relay) (outcome : Outcome),
    (copyLimited Rat input).Run (.start input) ls s → s.phase = .done outcome →
      s.events.sum = s.written.length := by
  intro h
  have hoffers := @Relay.offers Rat _ _ _ 2 (start_relayed [1, 2]) rfl (by decide : 0 < 2) (by decide) (by decide)
  have hfail : (copyLimited Rat [1, 2]).Run ((Relay.start [1, 2]).offered 2) [.write 1, .fail]
      { (Relay.start [1, 2]).offered 2 with written := [1], phase := .done .writeFailed } :=
    LTS.run_of_exec rfl
  exact absurd (h _ _ _ _ ((LTS.run_restrict_iff.1 hoffers).run.append hfail) rfl) (by decide)

end OrangeFrp.Controller
