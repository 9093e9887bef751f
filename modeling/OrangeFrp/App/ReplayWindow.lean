import OrangeFrp.App.Replay

/-!
# The replay guard as a sliding window (`frp-game-server/src/app.rs`, `ReplayGuard`)

The guard files digests of the user, the operation and the nonce, each with its length
before it. The lengths make the encoding injective (`encoded_injective`), so that, as long
as SHA-256 mixes up no two of the calls, the guard is a window of the triples themselves.

* `GuardRun.Sound`: what the guard holds after every sequence of calls.
* `replay_exact`: what it holds, and when a call is refused, for every sequence of calls.
-/
namespace OrangeFrp.App

open OrangeFrp.Core OrangeFrp.Storage

/-! ## The encoding of the fields -/

abbrev Triple := Str × Str × Str

def Triple.fields (x : Triple) : List Str := [x.1, x.2.1, x.2.2]

/-- What is hashed.
mirrors crates/frp-game-server/src/app.rs:208-211 -/
def Triple.encoded (x : Triple) : Bytes := x.fields.flatMap keyField

/-- Numbers of `k` bytes are equal when their bytes are. -/
theorem eq_of_bytes (k : Nat) : ∀ {m n : Nat}, m < 256 ^ k → n < 256 ^ k →
    (∀ i < k, m / 256 ^ i % 256 = n / 256 ^ i % 256) → m = n := by
  induction k with
  | zero =>
    intro m n hm hn _
    rw [Nat.pow_zero] at hm hn
    omega
  | succ k ih =>
    intro m n hm hn h
    rw [Nat.pow_succ] at hm hn
    have hlow := h 0 (Nat.succ_pos k)
    simp only [Nat.pow_zero, Nat.div_one] at hlow
    have hhigh : m / 256 = n / 256 := by
      refine ih (by omega) (by omega) fun i hi => ?_
      have := h (i + 1) (by omega)
      rw [Nat.pow_succ, Nat.mul_comm] at this
      rwa [Nat.div_div_eq_div_mul, Nat.div_div_eq_div_mul]
    omega

theorem le64_injective {m n : Nat} (hm : m < 2 ^ 64) (hn : n < 2 ^ 64) (h : le64 m = le64 n) : m = n := by
  refine eq_of_bytes 8 hm hn fun i hi => ?_
  have hget := congrArg (fun l => l[i]?) h
  simp only [le64, List.getElem?_map, List.getElem?_range hi, Option.map_some, Option.some.injEq] at hget
  have hbyte := congrArg UInt8.toNat hget
  rwa [UInt8.toNat_ofNat', UInt8.toNat_ofNat'] at hbyte

theorem utf8_injective {s t : Str} (h : utf8 s = utf8 t) : s = t := by
  have hs := fromUtf8_utf8 s
  rw [h, fromUtf8_utf8] at hs
  exact (Option.some.inj hs).symm

/-- A length is a `usize`. -/
def Fits (s : Str) : Prop := (utf8 s).length < 2 ^ 64

instance (s : Str) : Decidable (Fits s) := inferInstanceAs (Decidable (_ < _))

/-- A field is read back, and what follows it. -/
theorem keyField_append {s t : Str} {xs ys : Bytes} (hs : Fits s) (ht : Fits t)
    (h : keyField s ++ xs = keyField t ++ ys) : s = t ∧ xs = ys := by
  unfold keyField at h
  rw [List.append_assoc, List.append_assoc] at h
  have hlen : ∀ n, (le64 n).length = 8 := fun n => by rw [le64, List.length_map, List.length_range]
  obtain ⟨hle, h⟩ := List.append_inj h (by rw [hlen, hlen])
  obtain ⟨hu, h⟩ := List.append_inj h (le64_injective hs ht hle)
  exact ⟨utf8_injective hu, h⟩

/-- **The lengths keep the fields apart.** -/
theorem encoded_injective {x y : Triple} (hx : ∀ f ∈ x.fields, Fits f) (hy : ∀ f ∈ y.fields, Fits f)
    (h : x.encoded = y.encoded) : x = y := by
  obtain ⟨u, o, n⟩ := x
  obtain ⟨u', o', n'⟩ := y
  simp only [Triple.fields, List.mem_cons, List.not_mem_nil, or_false, forall_eq_or_imp, forall_eq] at hx hy
  simp only [Triple.encoded, Triple.fields, List.flatMap_cons, List.flatMap_nil] at h
  obtain ⟨hu, h₁⟩ := keyField_append hx.1 hy.1 h
  obtain ⟨ho, h₂⟩ := keyField_append hx.2.1 hy.2.1 h₁
  obtain ⟨hn, -⟩ := keyField_append hx.2.2 hy.2.2 h₂
  rw [hu, ho, hn]

/-! ## Sequences of calls -/

/-- A call of `accept`; the fields are Rust strings. -/
structure GuardCall where
  triple : Triple
  moment : Nat
  fits : ∀ f ∈ triple.fields, Fits f

/-- The guard, and the calls it has accepted (ghost). -/
structure GuardRun where
  guard : ReplayGuard
  accepted : List (Nat × Triple)

section
variable (P : Primitives)

/-- mirrors crates/frp-game-server/src/app.rs:197 -/
def ReplayGuard.answer (g : ReplayGuard) (c : GuardCall) : Bool × ReplayGuard :=
  g.accept P c.triple.1 c.triple.2.1 c.triple.2.2 c.moment

def GuardRun.call (s : GuardRun) (c : GuardCall) : GuardRun :=
  let r := s.guard.answer P c
  ⟨r.2, Window.record s.accepted c.moment c.triple r.1⟩

/-- The calls, from the guard as it is created. -/
def guardRun (cs : List GuardCall) : GuardRun := cs.foldl (GuardRun.call P) ⟨⟨∅, []⟩, []⟩

/-- SHA-256 mixes up no two of the calls. -/
def CollisionFree (cs : List GuardCall) : Prop :=
  ∀ c ∈ cs, ∀ d ∈ cs, P.sha256 c.triple.encoded = P.sha256 d.triple.encoded →
    c.triple.encoded = d.triple.encoded

/-- The guard is a window of triples, filed by their digests. -/
structure GuardRun.Sound (cs : List GuardCall) (clock : Nat) (s : GuardRun) (w : List (Nat × Triple)) :
    Prop where
  tracks : s.guard.Tracks
  order : s.guard.order = w.map fun e => (e.1, P.sha256 e.2.encoded)
  remembers : Window.Remembers REPLAY_TTL MAX_REPLAY_ENTRIES clock s.accepted w
  apart : Window.Apart REPLAY_TTL MAX_REPLAY_ENTRIES s.accepted
  timely : Window.Timely clock s.accepted
  length : w.length ≤ MAX_REPLAY_ENTRIES
  called : ∀ e ∈ w, ∃ c ∈ cs, c.triple = e.2

end

variable {P : Primitives} {cs : List GuardCall} {c : GuardCall} {clock : Nat} {s : GuardRun}
  {w : List (Nat × Triple)}

/-- What the guard answers is what the window of triples answers. -/
theorem GuardRun.Sound.answer (h : s.Sound P cs clock w) (hc : c ∈ cs) (hfree : CollisionFree P cs) :
    let a := Window.accept REPLAY_TTL MAX_REPLAY_ENTRIES c.moment c.triple w
    (s.guard.answer P c).1 = a.1 ∧
      (s.guard.answer P c).2.order = a.2.map (fun e => (e.1, P.sha256 e.2.encoded)) ∧
      (s.guard.answer P c).2.Tracks := by
  have hwindow := @accept_window P s.guard h.tracks c.triple.1 c.triple.2.1 c.triple.2.2 c.moment
  have hmap : Window.accept REPLAY_TTL MAX_REPLAY_ENTRIES c.moment (P.sha256 c.triple.encoded)
      (w.map fun e => (e.1, P.sha256 e.2.encoded)) = _ :=
    Window.accept_map (fun x : Triple => P.sha256 x.encoded) fun e he hsame => by
      obtain ⟨d, hd, hde⟩ := h.called e he
      rw [← hde] at hsame ⊢
      exact encoded_injective d.fits c.fits (hfree d hd c hc hsame)
  have hkey : replayKey P c.triple.1 c.triple.2.1 c.triple.2.2 = P.sha256 c.triple.encoded := rfl
  dsimp only at hwindow ⊢
  rw [h.order, hkey, hmap] at hwindow
  exact hwindow

/-- **One call** keeps what the guard holds. -/
theorem GuardRun.Sound.call (h : s.Sound P cs clock w) (hc : c ∈ cs) (hfree : CollisionFree P cs)
    (hnow : clock ≤ c.moment) : (s.call P c).Sound P cs c.moment
      (Window.accept REPLAY_TTL MAX_REPLAY_ENTRIES c.moment c.triple w).2 := by
  obtain ⟨hanswer, horder, htracks⟩ := h.answer hc hfree
  have hrecord : (s.call P c).accepted = Window.record s.accepted c.moment c.triple
      (Window.accept REPLAY_TTL MAX_REPLAY_ENTRIES c.moment c.triple w).1 := by
    rw [GuardRun.call, hanswer]
  refine ⟨htracks, horder, ?_, ?_, ?_, Window.accept_length (by decide) h.length, fun e he => ?_⟩
  · rw [hrecord]; exact h.remembers.accept hnow
  · rw [hrecord]; exact h.apart.record h.remembers hnow
  · rw [hrecord]; exact h.timely.record hnow _ _
  · rcases Window.mem_accept he with hmem | rfl
    · exact h.called e hmem
    · exact ⟨c, hc, rfl⟩

/-- **What the guard holds** after every sequence of calls. -/
theorem guardRun_sound (hfree : CollisionFree P cs) : ∀ (ds : List GuardCall), (∀ d ∈ ds, d ∈ cs) →
    ∀ {clock : Nat} {s : GuardRun} {w : List (Nat × Triple)}, s.Sound P cs clock w →
    (ds.map GuardCall.moment).Pairwise (· ≤ ·) → (∀ d ∈ ds, clock ≤ d.moment) →
    ∃ clock' w', (ds.foldl (GuardRun.call P) s).Sound P cs clock' w' ∧
      (clock' = clock ∨ ∃ d ∈ ds, clock' = d.moment) := by
  intro ds
  induction ds with
  | nil => exact fun _ clock s w h _ _ => ⟨clock, w, h, .inl rfl⟩
  | cons d ds ih =>
    intro hin clock s w h hsorted hlater
    obtain ⟨hd, hsorted⟩ := List.pairwise_cons.1 hsorted
    have hnext := h.call (hin d List.mem_cons_self) hfree (hlater d List.mem_cons_self)
    obtain ⟨clock', w', h', hclock⟩ := ih (fun e he => hin e (List.mem_cons_of_mem _ he)) hnext hsorted
      fun e he => hd _ (List.mem_map_of_mem he)
    refine ⟨clock', w', h', ?_⟩
    rcases hclock with rfl | ⟨e, he, rfl⟩
    · exact .inr ⟨d, List.mem_cons_self, rfl⟩
    · exact .inr ⟨e, List.mem_cons_of_mem _ he, rfl⟩

/-- The triple was accepted, not longer ago than the time to live, and fewer than a full
window of other triples has been accepted since. -/
def AcceptedLately (accepted : List (Nat × Triple)) (now : Nat) (x : Triple) : Prop :=
  ∃ i t, accepted[i]? = some (t, x) ∧ now - t ≤ REPLAY_TTL ∧
    (((accepted.drop (i + 1)).map Prod.snd).toFinset.erase x).card < MAX_REPLAY_ENTRIES

/-- **A sliding window, exactly.** After every sequence of calls in the order of time the set
holds the keys of the queue, each once, oldest first, and at most 16384 of them; the next
call is refused exactly when its triple was accepted lately, and then nothing is filed. -/
theorem replay_exact (P : Primitives) (cs : List GuardCall) (c : GuardCall)
    (hsorted : ((cs ++ [c]).map GuardCall.moment).Pairwise (· ≤ ·))
    (hfree : CollisionFree P (cs ++ [c])) :
    let s := guardRun P cs
    (s.guard.seen = (s.guard.order.map Prod.snd).toFinset ∧ (s.guard.order.map Prod.snd).Nodup ∧
      (s.guard.order.map Prod.fst).Pairwise (· ≤ ·) ∧ s.guard.order.length ≤ MAX_REPLAY_ENTRIES) ∧
    ((s.guard.answer P c).1 = false ↔ AcceptedLately s.accepted c.moment c.triple) ∧
    ((s.guard.answer P c).1 = false → (s.guard.answer P c).2.order <:+ s.guard.order) := by
  rw [List.map_append, List.pairwise_append] at hsorted
  obtain ⟨hsorted, -, hlast⟩ := hsorted
  have hc : c ∈ cs ++ [c] := List.mem_append_right _ List.mem_cons_self
  have hstart : (⟨⟨∅, []⟩, []⟩ : GuardRun).Sound P (cs ++ [c]) 0 [] :=
    ⟨⟨rfl, List.nodup_nil⟩, rfl, .empty _ _ _, by intro i j t t' k _ hi; simp at hi,
      ⟨.nil, by simp⟩, Nat.zero_le _, by simp⟩
  obtain ⟨clock, w, h, hclock⟩ : ∃ clock w, (guardRun P cs).Sound P (cs ++ [c]) clock w ∧
      (clock = 0 ∨ ∃ d ∈ cs, clock = d.moment) :=
    guardRun_sound hfree cs (fun d hd => List.mem_append_left _ hd) hstart hsorted fun _ _ => Nat.zero_le _
  have hnow : clock ≤ c.moment := by
    rcases hclock with rfl | ⟨d, hd, rfl⟩
    · exact Nat.zero_le _
    · exact hlast _ (List.mem_map_of_mem hd) _ (List.mem_singleton.2 rfl)
  obtain ⟨hanswer, horder, -⟩ := h.answer hc hfree
  generalize guardRun P cs = s at h hanswer horder ⊢
  obtain ⟨gone, hgone, -⟩ := h.remembers.suffix
  have hw : w.Pairwise fun e e' => e.1 ≤ e'.1 :=
    (h.timely.sublist (hgone ▸ List.sublist_append_right gone w)).sorted
  refine ⟨⟨h.tracks.seen, h.tracks.nodup, ?_, ?_⟩, ?_, fun hf => ?_⟩
  · rw [h.order, List.map_map, List.pairwise_map]
    exact hw
  · rw [h.order, List.length_map]
    exact h.length
  · rw [hanswer, h.remembers.refused_iff h.timely h.length hnow]
    refine exists_congr fun i => exists_congr fun t => and_congr_right fun hi => and_congr_right fun hle => ?_
    exact h.apart.others_lt_iff h.timely hnow hi hle
  · rw [hanswer] at hf
    rw [horder, h.order, Window.accept_refused hf]
    exact (Window.expire_suffix _ _ _).map _

/-- One nonce of a login. -/
def sentAt (moment : Nat) : GuardCall where
  triple := (['u'], "login".toList, ['n'])
  moment := moment
  fits := by decide

theorem replay_exact_twice :
    ((guardRun .plain [sentAt 0]).guard.answer .plain (sentAt REPLAY_TTL)).1 = false := by
  have hfree : CollisionFree .plain ([sentAt 0] ++ [sentAt REPLAY_TTL]) := fun _ _ _ _ h => h
  have haccepted : (guardRun .plain [sentAt 0]).accepted = [(0, (sentAt 0).triple)] := by decide +kernel
  refine (replay_exact .plain [sentAt 0] (sentAt REPLAY_TTL) (by decide) hfree).2.1.2
    ⟨0, 0, by rw [haccepted]; rfl, le_refl _, ?_⟩
  rw [haccepted]
  decide

end OrangeFrp.App
