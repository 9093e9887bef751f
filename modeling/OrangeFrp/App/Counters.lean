import OrangeFrp.App.Admin
import OrangeFrp.Controller.Meter
import OrangeFrp.Core.Binary64

/-!
# Counters on their way to SQLite (`frp-game-server/src/{app,controller,storage}.rs`)

Three bounds meet: counters in memory saturate at the largest `u64`, `sql_i64` takes what
fits an `i64`, and `gb_to_bytes` compares doubles, where `i64::MAX` is `2 ^ 63`.

* `gbToBytes_fits`: the only amount that passes the comparison and not `sql_i64` is that of
  `2 ^ 33` gigabytes.
* `accounted_fits_iff`: the candidate of a flush fits exactly when no sum of a stored counter
  and its pending events exceeds `i64::MAX`.
* `counters_persist_iff`: both together, for what a flush or a command hands to `save`.
-/
namespace OrangeFrp.App

open OrangeFrp.Core OrangeFrp.Core.Binary64 OrangeFrp.Storage OrangeFrp.Controller
open Float.Model Float.Model.UnpackedFloat

/-! ## `gb_to_bytes` -/

/-- `f64::round`, halves away from zero, and `as u64`, which saturates. -/
def roundToU64 (x : Float) : Nat :=
  match x.toModel.unpack with
  | .finite .positive m e _ =>
    min (if 0 ≤ e then m * 2 ^ e.toNat else (m + 2 ^ ((-e).toNat - 1)) / 2 ^ (-e).toNat) U64_MAX
  | .infinity .positive => U64_MAX
  | _ => 0

/-- `i64::MAX as f64`. -/
def maxAmount : Float := Float.ofInt I64_MAX

/-- mirrors crates/frp-game-server/src/app.rs:500-509 -/
def gbToBytes (gb : Float) : Except String Nat :=
  if ¬ gb.isFinite ∨ gb < 0.0 then .error "流量必须是大于等于 0 的数字。"
  else
    let bytes := gb * 1024.0 * 1024.0 * 1024.0
    if bytes > maxAmount then .error "流量数值过大。"
    else .ok (roundToU64 bytes)

theorem kibi_isPower : IsPower 1024.0 10 := rfl

theorem maxAmount_unpack :
    maxAmount.toModel.unpack = .finite .positive (2 ^ 52) 11 (Nat.two_pow_pos 52) := rfl

theorem eightGibi_unpack :
    (8589934592.0 : Float).toModel.unpack = .finite .positive (2 ^ 52) (-19) (Nat.two_pow_pos 52) := rfl

theorem maxAmount_canonical : Canonical (2 ^ 52) 11 := ⟨by decide, by decide, .inl (by decide)⟩

theorem eightGibi_canonical : Canonical (2 ^ 52) (-19) := ⟨by decide, by decide, .inl (by decide)⟩

/-- The greatest amount that passes the comparison, in units. -/
theorem eightGibi_units : units (2 ^ 52) (-19) * 2 ^ 10 * 2 ^ 10 * 2 ^ 10 = units (2 ^ 52) 11 := by
  have hadd := @units_add (-19) (2 ^ 52) (by decide) 30
  rw [show (-19 : Int) + (30 : Nat) = 11 from rfl] at hadd
  have hpow : 2 ^ 10 * (2 ^ 10 * 2 ^ 10) = 2 ^ 30 := by decide
  rw [hadd, Nat.mul_assoc, Nat.mul_assoc, hpow]

/-- An amount below `2 ^ 63` is at most the double before it. -/
theorem round_fits {m : Nat} {e : Int} (hpos : 0 < m) (hbits : m < 2 ^ 53) (he : e ≤ 10) :
    (if 0 ≤ e then m * 2 ^ e.toNat else (m + 2 ^ ((-e).toNat - 1)) / 2 ^ (-e).toNat) ≤ 2 ^ 63 - 2 ^ 10 := by
  split
  · have hpow : 2 ^ e.toNat ≤ 2 ^ 10 := Nat.pow_le_pow_right (by decide) (by omega)
    calc m * 2 ^ e.toNat ≤ (2 ^ 53 - 1) * 2 ^ 10 := Nat.mul_le_mul (by omega) hpow
      _ = 2 ^ 63 - 2 ^ 10 := by decide
  · obtain ⟨k, hk⟩ : ∃ k, (-e).toNat = k + 1 := ⟨(-e).toNat - 1, by omega⟩
    have hle : m + 2 ^ k ≤ 2 ^ (k + 1) * m := by
      have hone : 1 ≤ 2 ^ k := Nat.two_pow_pos k
      have hleft : m ≤ 2 ^ k * m := Nat.le_mul_of_pos_left m hone
      have hright : 2 ^ k ≤ 2 ^ k * m := Nat.le_mul_of_pos_right _ hpos
      rw [Nat.pow_succ, Nat.mul_comm (2 ^ k) 2, Nat.mul_assoc]
      omega
    rw [hk, Nat.add_sub_cancel]
    have hdiv := Nat.div_le_of_le_mul hle
    omega

/-- What an accepted amount is made of. -/
theorem gbToBytes_ok {gb : Float} {n : Nat} (h : gbToBytes gb = .ok n) :
    gb.isFinite = true ∧ ¬ gb < 0.0 ∧ ¬ maxAmount < gb * 1024.0 * 1024.0 * 1024.0 ∧
      n = roundToU64 (gb * 1024.0 * 1024.0 * 1024.0) := by
  unfold gbToBytes at h
  split at h
  · cases h
  rename_i hvalid
  dsimp only at h
  split at h
  · cases h
  rename_i hmax
  cases h
  rw [not_or, not_not] at hvalid
  exact ⟨hvalid.1, hvalid.2, hmax, rfl⟩

theorem lt_iff (x y : Float) : x < y ↔ x.toModel.unpack.compare y.toModel.unpack = some .lt := by
  have hlt : x < y ↔ decide (x.toModel < y.toModel) = true := Iff.rfl
  have hmodel : x.toModel < y.toModel ↔ x.toModel.unpack.lt y.toModel.unpack = true := Iff.rfl
  rw [hlt, decide_eq_true_iff, hmodel, UnpackedFloat.lt, beq_iff_eq]

theorem beq_iff (x y : Float) : (x == y) = true ↔ x.toModel.unpack.compare y.toModel.unpack = some .eq := by
  have hmodel : (x == y) = x.toModel.unpack.beq y.toModel.unpack := rfl
  rw [hmodel, UnpackedFloat.beq, beq_iff_eq]

/-- A positive amount scaled, and the comparison passed. -/
theorem scaled_amount {gb : Float} {m : Nat} {e : Int} {hpos : 0 < m}
    (hgb : gb.toModel.unpack = .finite .positive m e hpos)
    (hmax : ¬ maxAmount < gb * 1024.0 * 1024.0 * 1024.0) : ∃ m' e' hpos',
      (gb * 1024.0 * 1024.0 * 1024.0).toModel.unpack = .finite .positive m' e' hpos' ∧
        units m' e' = units m e * 2 ^ 10 * 2 ^ 10 * 2 ^ 10 ∧ (e' ≤ 10 ∨ e' = 11 ∧ m' = 2 ^ 52) := by
  have hover : (gb * 1024.0 * 1024.0 * 1024.0).toModel.unpack ≠ .infinity .positive := by
    intro hinf
    rw [lt_iff, hinf, maxAmount_unpack] at hmax
    exact hmax rfl
  have hscaled : Positive (gb * 1024.0 * 1024.0 * 1024.0) (units m e * 2 ^ 10 * 2 ^ 10 * 2 ^ 10) := by
    rcases mul_power ⟨m, e, hpos, hgb, rfl⟩ kibi_isPower with h₁ | h₁
    · rcases mul_power h₁ kibi_isPower with h₂ | h₂
      · exact (mul_power h₂ kibi_isPower).resolve_right hover
      · exact absurd (infinity_mul_power h₂ kibi_isPower) hover
    · exact absurd (infinity_mul_power (infinity_mul_power h₁ kibi_isPower) kibi_isPower) hover
  obtain ⟨m', e', hpos', hunpack, hunits⟩ := hscaled
  refine ⟨m', e', hpos', hunpack, hunits, ?_⟩
  have hcanonical := unpack_canonical hunpack
  rw [lt_iff, hunpack, maxAmount_unpack] at hmax
  simp only [UnpackedFloat.compare, Option.some.injEq, Ordering.then_eq_lt, compare_lt_iff_lt,
    compare_eq_iff_eq] at hmax
  rcases hcanonical.full with hfull | hleast
  · omega
  · left
    omega

theorem unscaled {a b : Nat} (h : a * 2 ^ 10 * 2 ^ 10 * 2 ^ 10 = b * 2 ^ 10 * 2 ^ 10 * 2 ^ 10) : a = b := by
  omega

/-- **The only accepted amount that `sql_i64` rejects** is that of `2 ^ 33` gigabytes. -/
theorem gbToBytes_fits {gb : Float} {n : Nat} (h : gbToBytes gb = .ok n) :
    (n : Int) ≤ I64_MAX ↔ (gb == 8589934592.0) = false := by
  obtain ⟨hfinite, hnonneg, hmax, rfl⟩ := gbToBytes_ok h
  rw [← Bool.not_eq_true, beq_iff, eightGibi_unpack]
  cases hgb : gb.toModel.unpack with
  | notANumber =>
    have hmodel : gb.isFinite = gb.toModel.unpack.isFinite := rfl
    rw [hmodel, hgb] at hfinite
    cases hfinite
  | infinity s =>
    have hmodel : gb.isFinite = gb.toModel.unpack.isFinite := rfl
    rw [hmodel, hgb] at hfinite
    cases hfinite
  | zero s =>
    have hzero := zero_mul_power (zero_mul_power (zero_mul_power hgb kibi_isPower) kibi_isPower) kibi_isPower
    have hround : roundToU64 (gb * 1024.0 * 1024.0 * 1024.0) = 0 := by
      unfold roundToU64
      rw [hzero]
    rw [hround]
    exact ⟨fun _ => by simp [UnpackedFloat.compare], fun _ => by decide⟩
  | finite s m e hpos =>
    cases s with
    | negative =>
      refine absurd ?_ hnonneg
      rw [lt_iff, hgb]
      rfl
    | positive =>
      obtain ⟨m', e', hpos', hunpack, hunits, hrange⟩ := scaled_amount hgb hmax
      have hcanonical := unpack_canonical hgb
      have hcanonical' := unpack_canonical hunpack
      have height : (UnpackedFloat.finite .positive m e hpos).compare
          (.finite .positive (2 ^ 52) (-19) (Nat.two_pow_pos 52)) = some .eq ↔ e = -19 ∧ m = 2 ^ 52 := by
        simp only [UnpackedFloat.compare, Option.some.injEq, Ordering.then_eq_eq, compare_eq_iff_eq]
      have hround : roundToU64 (gb * 1024.0 * 1024.0 * 1024.0) =
          min (if 0 ≤ e' then m' * 2 ^ e'.toNat else (m' + 2 ^ ((-e').toNat - 1)) / 2 ^ (-e').toNat) U64_MAX := by
        unfold roundToU64
        rw [hunpack]
      rw [height, hround]
      rcases hrange with hle | ⟨rfl, rfl⟩
      · have hfits := round_fits hpos' hcanonical'.bits hle
        refine ⟨fun _ => ?_, fun _ => ?_⟩
        · intro hx
          obtain ⟨rfl, rfl⟩ := hx
          rw [eightGibi_units] at hunits
          have heq := (hcanonical'.eq_of_units maxAmount_canonical hunits).2
          omega
        · unfold I64_MAX
          omega
      · have hunits' := unscaled (hunits.symm.trans eightGibi_units.symm)
        have heq := hcanonical.eq_of_units eightGibi_canonical hunits'
        exact ⟨fun hle => absurd hle (by decide), fun hne => absurd ⟨heq.2, heq.1⟩ hne⟩

/-! ## What is handed to `save` -/

/-- The counters of a user that a snapshot passes through `sql_i64`.
mirrors crates/frp-game-server/src/storage.rs:656-658,702-726 -/
def counters (u : ServerUser) : List Nat :=
  u.trafficLimitBytes :: u.trafficUsedBytes ::
    u.trafficByProxy.entries.flatMap fun e => [e.2.trafficInBytes, e.2.trafficOutBytes]

/-- No counter is rejected by `sql_i64`. -/
def Unrejected (c : ServerConfig) : Prop := ∀ u ∈ c.users, ∀ n ∈ counters u, ∃ value, sqlI64 n = .ok value

theorem unrejected_iff {c : ServerConfig} : Unrejected c ↔ ∀ u ∈ c.users, CountersFit u := by
  have hok (n : Nat) : (∃ value, sqlI64 n = .ok value) ↔ (n : Int) ≤ I64_MAX := by
    simp only [sqlI64_eq_ok, exists_and_left, exists_eq, and_true]
  refine forall_congr' fun u => forall_congr' fun _ => ?_
  simp only [counters, List.forall_mem_cons, hok, List.forall_mem_flatMap, List.not_mem_nil, false_imp_iff,
    implies_true, and_true]
  refine ⟨?_, ?_⟩
  · intro h
    exact ⟨h.1, h.2.1, fun name record hl => h.2.2 ⟨name, record⟩ (Assoc.mem_entries_iff.2 hl)⟩
  · intro h
    exact ⟨h.limit, h.used, fun entry hentry => h.records entry.1 entry.2 (Assoc.mem_entries_iff.1 hentry)⟩

/-- The commands that take an amount of gigabytes. -/
inductive TrafficCommand where
  | addUser (new : NewUser)
  | setTrafficLimit (index : Nat)
  | setTrafficUsed (index : Nat)

def TrafficCommand.command (bytes : Nat) : TrafficCommand → Command
  | .addUser new => .addUser { new with trafficLimitBytes := bytes }
  | .setTrafficLimit index => .setTrafficLimit index bytes
  | .setTrafficUsed index => .setTrafficUsed index bytes

/-- A flush of what has been received, or a command with its amount. -/
inductive Saving where
  | flush (events : List TrafficEvent)
  | command (command : TrafficCommand) (gb : Float)

/-- What is handed to `Storage::save`, if anything is. -/
def Saving.handed (P : Primitives) (c : ServerConfig) (now : Int) (e : Entropy) : Saving → Option ServerConfig
  | .flush events =>
    let pending := drainEvents events ∅
    if pending.entries = [] then none else some (accounted c pending)
  | .command edit gb => (gbToBytes gb >>= fun bytes => (edit.command bytes).apply P c now e).toOption

/-- No counter goes beyond `i64::MAX`, and the amount is not that of `2 ^ 33` gigabytes. -/
def Saving.InRange (c : ServerConfig) : Saving → Prop
  | .flush events => ∀ u ∈ c.users, ∀ m, ((userMeter u m + meterOf events u.id m : Nat) : Int) ≤ I64_MAX
  | .command _ gb => (gb == 8589934592.0) = false

variable {P : Primitives} {c c' : ServerConfig} {now : Int} {e : Entropy}

/-- **The candidate of a flush** fits when no sum goes beyond `i64::MAX`. -/
theorem accounted_fits_iff (hfit : ∀ u ∈ c.users, CountersFit u) (events : List TrafficEvent) :
    (∀ u ∈ (accounted c (drainEvents events ∅)).users, CountersFit u) ↔
      ∀ u ∈ c.users, ∀ m, ((userMeter u m + meterOf events u.id m : Nat) : Int) ≤ I64_MAX := by
  have hcounts (u : ServerUser) (m : Meter) :
      Counts (userMeter (accountUser (drainEvents events ∅) u) m) (userMeter u m + meterOf events u.id m) := by
    have huser := accountUser_meter (drainEvents events ∅) u m
    have hdrain := drainEvents_meter events ∅ u.id m
    rw [pendingMeter_empty, Nat.zero_add] at hdrain
    exact huser.trans (hdrain.add _)
  have husers : (accounted c (drainEvents events ∅)).users = c.users.map (accountUser (drainEvents events ∅)) :=
    rfl
  rw [husers, List.forall_mem_map]
  refine forall_congr' fun u => forall_congr' fun hu => ?_
  rw [countersFit_iff]
  have hlimit : (accountUser (drainEvents events ∅) u).trafficLimitBytes = u.trafficLimitBytes := by
    rw [accountUser_fields]
  rw [hlimit]
  refine ⟨?_, ?_⟩
  · intro h m
    exact (hcounts u m).le_sql_iff.1 (h.2 m)
  · intro h
    exact ⟨(hfit u hu).limit, fun m => (hcounts u m).le_sql_iff.2 (h m)⟩

theorem CountersFit.touched {u : ServerUser} : CountersFit { u with updatedAt := now } ↔ CountersFit u :=
  ⟨fun h => ⟨h.limit, h.used, h.records⟩, fun h => ⟨h.limit, h.used, h.records⟩⟩

/-- A command that changes one user. -/
theorem editUser_fits_iff (hfit : ∀ u ∈ c.users, CountersFit u) {index : Nat} (edit : ServerUser → ServerUser)
    {p : Prop} (hedit : ∀ u, CountersFit u → (CountersFit (edit u) ↔ p))
    (h : editUser c index now (fun u => .ok (edit u)) = .ok c') : (∀ u ∈ c'.users, CountersFit u) ↔ p := by
  unfold editUser at h
  split at h
  · cases h
  rename_i u hu
  cases h
  have hmem := List.mem_of_getElem? hu
  obtain ⟨hlt, -⟩ := List.getElem?_eq_some_iff.1 hu
  rw [← hedit u (hfit u hmem)]
  refine ⟨?_, ?_⟩
  · intro hall
    exact CountersFit.touched.1 (hall _ (List.mem_set hlt _))
  · intro hnew v hv
    rcases List.mem_or_eq_of_mem_set hv with hold | rfl
    · exact hfit v hold
    · exact CountersFit.touched.2 hnew

theorem sql_zero : ((0 : Nat) : Int) ≤ I64_MAX := by
  decide

theorem commandAddUser_fits_iff (hfit : ∀ u ∈ c.users, CountersFit u) {new : NewUser}
    (h : commandAddUser P c now e new = .ok c') :
    (∀ u ∈ c'.users, CountersFit u) ↔ (new.trafficLimitBytes : Int) ≤ I64_MAX := by
  unfold commandAddUser at h
  obtain ⟨_, -, h⟩ := bind_eq_ok.1 h
  obtain ⟨-, h⟩ := bailIf_bind_eq_ok.1 h
  obtain ⟨-, h⟩ := bailIf_bind_eq_ok.1 h
  obtain ⟨_, -, h⟩ := bind_eq_ok.1 h
  obtain ⟨_, -, h⟩ := bind_eq_ok.1 h
  obtain ⟨_, -, h⟩ := bind_eq_ok.1 h
  obtain ⟨_, -, h⟩ := bind_eq_ok.1 h
  cases h
  refine ⟨?_, ?_⟩
  · intro hall
    exact (hall _ (List.mem_append_right _ (List.mem_singleton.2 rfl))).limit
  · intro hlimit v hv
    rcases List.mem_append.1 hv with hold | hnew
    · exact hfit v hold
    · obtain rfl := List.mem_singleton.1 hnew
      exact ⟨hlimit, sql_zero, fun name record hl => by cases hl⟩

theorem command_fits_iff (hfit : ∀ u ∈ c.users, CountersFit u) {edit : TrafficCommand} {bytes : Nat}
    (h : (edit.command bytes).apply P c now e = .ok c') :
    (∀ u ∈ c'.users, CountersFit u) ↔ (bytes : Int) ≤ I64_MAX := by
  cases edit with
  | addUser new => exact commandAddUser_fits_iff hfit h
  | setTrafficLimit index =>
    exact editUser_fits_iff hfit (fun u => { u with trafficLimitBytes := bytes })
      (fun u hu => ⟨fun h => h.limit, fun hb => ⟨hb, hu.used, hu.records⟩⟩) h
  | setTrafficUsed index =>
    exact editUser_fits_iff hfit (fun u => { u with trafficUsedBytes := bytes })
      (fun u hu => ⟨fun h => h.used, fun hb => ⟨hu.limit, hb, hu.records⟩⟩) h

/-- **Counters can be persisted** exactly when none goes beyond `i64::MAX` in a flush, and
when an administrator does not ask for `2 ^ 33` gigabytes. -/
theorem counters_persist_iff {P : Primitives} {c c' : ServerConfig} {now : Int} {e : Entropy}
    (hfit : ∀ u ∈ c.users, CountersFit u) {saving : Saving} (h : saving.handed P c now e = some c') :
    Unrejected c' ↔ saving.InRange c := by
  rw [unrejected_iff]
  cases saving with
  | flush events =>
    simp only [Saving.handed] at h
    split at h
    · cases h
    · cases h
      exact accounted_fits_iff hfit events
  | command edit gb =>
    have hok : (gbToBytes gb >>= fun bytes => (edit.command bytes).apply P c now e) = .ok c' := by
      simp only [Saving.handed] at h
      cases hx : (gbToBytes gb >>= fun bytes => (edit.command bytes).apply P c now e) with
      | error error => rw [hx] at h; cases h
      | ok c₁ => rw [hx] at h; cases h; rfl
    obtain ⟨bytes, hbytes, happly⟩ := bind_eq_ok.1 hok
    rw [command_fits_iff hfit happly]
    exact gbToBytes_fits hbytes

/-- A user whose counter is at its maximum, and another. -/
def nearlyFull : ServerConfig :=
  sampleConfig [{ sampleUser 'a' [] with trafficUsedBytes := 2 ^ 63 - 1 }, sampleUser 'b' []]

/-- One byte for each. -/
def oneByteEach : List TrafficEvent :=
  [⟨['a'], ['p'], tcp, 5, .inbound, 1⟩, ⟨['b'], ['p'], tcp, 5, .inbound, 1⟩]

theorem nearlyFull_fits : ∀ u ∈ nearlyFull.users, CountersFit u := by
  intro u hu
  rcases List.mem_cons.1 hu with rfl | hu
  · exact ⟨sql_zero, by decide, fun name record hl => by cases hl⟩
  · obtain rfl := List.mem_singleton.1 hu
    exact ⟨sql_zero, sql_zero, fun name record hl => by cases hl⟩

theorem command_persisted : ∃ c', (Saving.command (.setTrafficLimit 1) 1.0).handed .plain nearlyFull 0
    Entropy.constant = some c' ∧ Unrejected c' := by
  obtain ⟨c', hc'⟩ : ∃ c', (Saving.command (.setTrafficLimit 1) 1.0).handed .plain nearlyFull 0
      Entropy.constant = some c' := ⟨_, rfl⟩
  exact ⟨c', hc', (counters_persist_iff nearlyFull_fits hc').2 rfl⟩

/-- One full counter fails the flush of everyone's events, and `gb_to_bytes` accepts an
amount that `sql_i64` rejects. -/
theorem full_counter_fails_flush : (∀ u ∈ nearlyFull.users, CountersFit u) ∧
    ¬ Unrejected (accounted nearlyFull (drainEvents oneByteEach ∅)) ∧
    (flushPending .plain (Disk.ofConfig nearlyFull) nearlyFull (drainEvents oneByteEach ∅)
      Entropy.constant).2.2 = .error "流量数值超过 SQLite INTEGER 范围" ∧
    gbToBytes 8589934592.0 = .ok (2 ^ 63) ∧ ∀ value, sqlI64 (2 ^ 63) ≠ .ok value := by
  have hreject (value : Nat) : sqlI64 (2 ^ 63) ≠ .ok value := by
    intro h
    exact absurd (sqlI64_eq_ok.1 h).1 (by decide)
  have hfull : ∃ u ∈ (accounted nearlyFull (drainEvents oneByteEach ∅)).users, 2 ^ 63 ∈ counters u := by
    decide +kernel
  refine ⟨nearlyFull_fits, ?_, by decide +kernel, rfl, hreject⟩
  intro h
  obtain ⟨u, hu, hn⟩ := hfull
  obtain ⟨value, hvalue⟩ := h u hu _ hn
  exact hreject value hvalue

end OrangeFrp.App
