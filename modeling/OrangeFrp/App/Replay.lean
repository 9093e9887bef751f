import Mathlib.Data.Finset.Card
import OrangeFrp.Core.LTS
import OrangeFrp.Core.Window
import OrangeFrp.Storage.Config

/-!
# Authenticated requests and their replay (`frp-game-server/src/app.rs`)

`login`, `tunnels` and `usage` decrypt the envelope for one user after another,
check the payload, and then ask the replay guard, which remembers the hash of
user id, operation and nonce for five minutes and for 16,384 acceptances.

The guard is a window of recent keys (`Core.Window`). Times are nanoseconds of
the monotonic clock; the wall clock is ahead of it by a constant.

* `accept_window`: the guard accepts what the window accepts.
* `replay_rejected`: when the acceptances of one envelope can be apart.
* `envelope_twice`: an envelope from the future, and one among very many others,
  are accepted twice while their timestamp is still good.
-/
namespace OrangeFrp.App

open OrangeFrp.Core OrangeFrp.Storage

/-! ## Authentication -/

inductive Operation where
  | login
  | tunnels
  | usage
  deriving DecidableEq

/-- The `op` a handler expects. -/
def Operation.name : Operation → Str
  | .login => "login".toList
  | .tunnels => "tunnels".toList
  | .usage => "usage".toList

/-- mirrors crates/frp-game-server/src/app.rs:269-272 -/
structure AuthContext where
  userIndex : Nat
  user : ServerUser
  payload : Value

section
variable (P : Primitives)

/-- mirrors crates/frp-game-server/src/app.rs:1615-1628 -/
def authorized (u : ServerUser) (op : Operation) (payload : Value) : Bool :=
  (payload.get "op".toList).bind Value.asStr = some op.name &&
  (payload.get "account".toList).bind Value.asStr = some u.account &&
  (payload.get "key".toList).bind Value.asStr = some u.secret &&
  (((payload.get "password".toList).bind Value.asStr).map (verifyPassword P u.passwordHash)).getD false

def authLoop (apiSalt : Str) (envelope : Envelope) (op : Operation) (nowUnix : Nat → Int) :
    Nat → List ServerUser → Except String AuthContext
  | _, [] => .error "认证失败"
  | index, u :: us =>
    match decryptPayload P u.secret apiSalt envelope (nowUnix index) with
    | .error _ => authLoop apiSalt envelope op nowUnix (index + 1) us
    | .ok payload =>
      if authorized P u op payload then .ok ⟨index, u, payload⟩
      else authLoop apiSalt envelope op nowUnix (index + 1) us

/-- `nowUnix index` is the clock as the attempt for one user reads it.
mirrors crates/frp-game-server/src/app.rs:1606-1636 -/
def decryptAndAuth (c : ServerConfig) (envelope : Envelope) (op : Operation) (nowUnix : Nat → Int) :
    Except String AuthContext :=
  authLoop P c.apiSalt envelope op nowUnix 0 c.users

/-! ## The guard -/

/-- mirrors crates/frp-game-server/src/app.rs:60 -/
def REPLAY_TTL : Nat := 300 * 1000000000

/-- mirrors crates/frp-game-server/src/app.rs:58 -/
def MAX_REPLAY_ENTRIES : Nat := 16384

/-- mirrors crates/frp-game-server/src/app.rs:190-194 -/
structure ReplayGuard where
  seen : Finset Bytes
  order : List (Nat × Bytes)

/-- `u64::to_le_bytes`. -/
def le64 (n : Nat) : Bytes := (List.range 8).map fun i => UInt8.ofNat (n / 256 ^ i)

def keyField (field : Str) : Bytes := le64 (utf8 field).length ++ utf8 field

/-- mirrors crates/frp-game-server/src/app.rs:207-212 -/
def replayKey (userId operation nonce : Str) : Bytes :=
  P.sha256 ([userId, operation, nonce].flatMap keyField)

/-- The loop that forgets old entries.
mirrors crates/frp-game-server/src/app.rs:199-205 -/
def expireLoop (now : Nat) : Finset Bytes → List (Nat × Bytes) → ReplayGuard
  | seen, [] => ⟨seen, []⟩
  | seen, (seenAt, key) :: order =>
    if now - seenAt ≤ REPLAY_TTL then ⟨seen, (seenAt, key) :: order⟩
    else expireLoop now (seen.erase key) order

/-- mirrors crates/frp-game-server/src/app.rs:197-223 -/
def ReplayGuard.accept (g : ReplayGuard) (userId operation nonce : Str) (now : Nat) :
    Bool × ReplayGuard :=
  let g := expireLoop now g.seen g.order
  let key := replayKey P userId operation nonce
  if key ∈ g.seen then (false, g)
  else
    let seen := insert key g.seen
    let g : ReplayGuard :=
      if seen.card > MAX_REPLAY_ENTRIES then
        match g.order with
        | [] => ⟨seen, []⟩
        | (_, oldest) :: order => ⟨seen.erase oldest, order⟩
      else ⟨seen, g.order⟩
    (true, { g with order := g.order ++ [(now, key)] })

/-- The message of a duplicate.
mirrors crates/frp-game-server/src/app.rs:1718-1720,1760-1767,1899-1906 -/
def Operation.duplicate : Operation → String
  | .login => "请求已被处理，请重新发起登录"
  | .tunnels | .usage => "重复请求已被拒绝"

/-- Every authenticated handler up to the point where it takes effect. -/
def enter (c : ServerConfig) (g : ReplayGuard) (op : Operation) (envelope : Envelope)
    (nowUnix : Nat → Int) (now : Nat) : ReplayGuard × Except (Nat × String) AuthContext :=
  match decryptAndAuth P c envelope op nowUnix with
  | .error error => (g, .error (401, error))
  | .ok auth =>
    match g.accept P auth.user.id op.name envelope.nonce now with
    | (false, g) => (g, .error (409, op.duplicate))
    | (true, g) => (g, .ok auth)

end

/-! ## The guard as a window -/

/-- The set holds the keys of the queue, each once. -/
structure ReplayGuard.Tracks (g : ReplayGuard) : Prop where
  seen : g.seen = (g.order.map Prod.snd).toFinset
  nodup : (g.order.map Prod.snd).Nodup

theorem expireLoop_tracks {now : Nat} {seen : Finset Bytes} {order : List (Nat × Bytes)}
    (h : (⟨seen, order⟩ : ReplayGuard).Tracks) :
    (expireLoop now seen order).Tracks ∧
      (expireLoop now seen order).order = Window.expire REPLAY_TTL now order := by
  induction order generalizing seen with
  | nil => exact ⟨h, rfl⟩
  | cons e order ih =>
    obtain ⟨seenAt, key⟩ := e
    unfold expireLoop
    split
    · rename_i hle
      refine ⟨h, ?_⟩
      rw [Window.expire, List.dropWhile_cons_of_neg (by simpa using hle)]
    · rename_i hgt
      have hn := List.nodup_cons.1 h.nodup
      have hseen : seen = insert key (order.map Prod.snd).toFinset := by
        rw [← List.toFinset_cons]; exact h.seen
      have ht := @ih (seen.erase key) ⟨by
        rw [hseen]
        exact Finset.erase_insert (by rw [List.mem_toFinset]; exact hn.1), hn.2⟩
      refine ⟨ht.1, ?_⟩
      have hold : REPLAY_TTL < now - seenAt := Nat.lt_of_not_le hgt
      rw [ht.2, Window.expire, Window.expire, List.dropWhile_cons, if_pos (decide_eq_true hold)]

/-- **The guard accepts what the window accepts**, and keeps the window's entries. -/
theorem accept_window {P : Primitives} {g : ReplayGuard} (h : g.Tracks) (userId op nonce : Str)
    (now : Nat) :
    let r := g.accept P userId op nonce now
    let w := Window.accept REPLAY_TTL MAX_REPLAY_ENTRIES now (replayKey P userId op nonce) g.order
    r.1 = w.1 ∧ r.2.order = w.2 ∧ r.2.Tracks := by
  obtain ⟨ht, ho⟩ := @expireLoop_tracks now _ _ (show (⟨g.seen, g.order⟩ : ReplayGuard).Tracks from h)
  unfold ReplayGuard.accept Window.accept
  dsimp only
  rw [← ho]
  generalize expireLoop now g.seen g.order = g₁ at ht
  generalize replayKey P userId op nonce = key
  have hmem : key ∈ g₁.seen ↔ key ∈ g₁.order.map Prod.snd := by rw [ht.seen, List.mem_toFinset]
  by_cases hin : key ∈ g₁.seen
  · rw [if_pos hin, if_pos (hmem.1 hin)]
    exact ⟨rfl, rfl, ht⟩
  have hcard : (insert key g₁.seen).card = g₁.order.length + 1 := by
    rw [Finset.card_insert_of_notMem hin, ht.seen, List.toFinset_card_of_nodup ht.nodup,
      List.length_map]
  have hnot : key ∉ g₁.order.map Prod.snd := fun hm => hin (hmem.2 hm)
  rw [if_neg hin, if_neg hnot, hcard]
  by_cases hfull : g₁.order.length + 1 > MAX_REPLAY_ENTRIES
  · rw [if_pos hfull, if_pos (show MAX_REPLAY_ENTRIES ≤ g₁.order.length by omega)]
    cases hord : g₁.order with
    | nil =>
      rw [hord] at hfull
      exact absurd hfull (by decide)
    | cons e order =>
      obtain ⟨seenAt, oldest⟩ := e
      have hn := ht.nodup
      rw [hord, List.map_cons] at hn hnot
      rw [List.nodup_cons] at hn
      rw [List.mem_cons, not_or] at hnot
      refine ⟨rfl, rfl, ?_, ?_⟩
      · rw [ht.seen, hord]
        ext q
        simp only [List.map_cons, List.toFinset_cons, List.map_append, List.map_nil,
          List.toFinset_append, Finset.mem_erase, Finset.mem_insert, Finset.mem_union,
          List.mem_toFinset, List.toFinset_nil, Finset.notMem_empty, or_false]
        refine ⟨?_, ?_⟩
        · rintro ⟨hne, rfl | rfl | hq⟩
          · exact .inr rfl
          · exact absurd rfl hne
          · exact .inl hq
        · rintro (hq | rfl)
          · exact ⟨fun e => hn.1 (e ▸ hq), .inr (.inr hq)⟩
          · exact ⟨hnot.1, .inl rfl⟩
      · simp only [List.map_append, List.map_cons, List.map_nil]
        exact List.nodup_append.2 ⟨hn.2, List.nodup_singleton _, fun x hx y hy e =>
          hnot.2 (by rw [e, List.mem_singleton.1 hy] at hx; exact hx)⟩
  · rw [if_neg hfull, if_neg (show ¬ MAX_REPLAY_ENTRIES ≤ g₁.order.length by omega)]
    refine ⟨rfl, rfl, ?_, ?_⟩
    · rw [ht.seen]
      ext q
      simp
    · rw [List.map_append, List.map_singleton]
      exact List.nodup_append.2 ⟨ht.nodup, List.nodup_singleton _, fun x hx y hy e =>
        hnot (by rw [e, List.mem_singleton.1 hy] at hx; exact hx)⟩

/-! ## Runs of the server -/

/-- One passage through the guard (ghost). -/
structure Acceptance where
  entered : Nat
  userId : Str
  op : Operation
  envelope : Envelope
  payload : Value

/-- What the handlers share, with every acceptance so far (ghost). -/
structure Api where
  config : ServerConfig
  replay : ReplayGuard
  clock : Nat
  accepted : List Acceptance

/-- A request, with the wall clock as its attempts read it and the moment it enters
the guard; or any change of the configuration. -/
inductive ApiLabel where
  | call (op : Operation) (envelope : Envelope) (nowUnix : Nat → Int) (entered : Nat)
  | configure (c : ServerConfig)

/-- The second of the wall clock at a moment of the monotonic clock. -/
def second (origin moment : Nat) : Int := ((origin + moment) / 1000000000 : Nat)

section
variable (P : Primitives) (origin : Nat)

def Api.call (s : Api) (op : Operation) (envelope : Envelope) (nowUnix : Nat → Int) (entered : Nat) :
    Api :=
  match enter P s.config s.replay op envelope nowUnix entered with
  | (g, .ok auth) => { s with
      replay := g
      clock := entered
      accepted := s.accepted ++ [⟨entered, auth.user.id, op, envelope, auth.payload⟩] }
  | (g, .error _) => { s with replay := g, clock := entered }

inductive ApiStep : Api → ApiLabel → Api → Prop
  | call {s : Api} (op : Operation) (envelope : Envelope) {nowUnix : Nat → Int} {entered : Nat}
      (clock : s.clock ≤ entered) (read : ∀ index, nowUnix index ≤ second origin entered) :
      ApiStep s (.call op envelope nowUnix entered) (s.call P op envelope nowUnix entered)
  | configure {s : Api} (c : ServerConfig) : ApiStep s (.configure c) { s with config := c }

/-- A server from its start; the guard is empty. -/
def api : LTS Api ApiLabel where
  init s := s.replay = ⟨∅, []⟩ ∧ s.accepted = []
  step := ApiStep P origin

/-- The acceptances, as the window files them. -/
def history (accepted : List Acceptance) : List (Nat × Bytes) :=
  accepted.map fun x => (x.entered, replayKey P x.userId x.op.name x.envelope.nonce)

/-- What holds between the guard and the acceptances so far. -/
structure GuardInv (s : Api) : Prop where
  tracks : s.replay.Tracks
  remembers : Window.Remembers REPLAY_TTL MAX_REPLAY_ENTRIES s.clock (history P s.accepted)
    s.replay.order
  apart : Window.Apart REPLAY_TTL MAX_REPLAY_ENTRIES (history P s.accepted)

end

section
variable {P : Primitives} {origin : Nat}

/-- An authenticated request, by what the window does. -/
theorem call_authenticated {s : Api} (ht : s.replay.Tracks) {op : Operation} {envelope : Envelope}
    {nowUnix : Nat → Int} {entered : Nat} {auth : AuthContext}
    (ha : decryptAndAuth P s.config envelope op nowUnix = .ok auth) :
    let key := replayKey P auth.user.id op.name envelope.nonce
    let w := Window.accept REPLAY_TTL MAX_REPLAY_ENTRIES entered key s.replay.order
    let t := s.call P op envelope nowUnix entered
    t.replay.Tracks ∧ t.replay.order = w.2 ∧ t.clock = entered ∧ t.config = s.config ∧
      t.accepted = s.accepted ++
        (if w.1 then [⟨entered, auth.user.id, op, envelope, auth.payload⟩] else []) := by
  obtain ⟨h₁, h₂, h₃⟩ := accept_window (P := P) ht auth.user.id op.name envelope.nonce entered
  dsimp only
  unfold Api.call enter
  rw [ha]
  simp only
  rw [← h₁, ← h₂]
  cases hg : s.replay.accept P auth.user.id op.name envelope.nonce entered with
  | mk ok g =>
  rw [hg] at h₃
  cases ok with
  | false => exact ⟨h₃, rfl, rfl, rfl, by simp⟩
  | true => exact ⟨h₃, rfl, rfl, rfl, by simp⟩

theorem call_unauthenticated {s : Api} {op : Operation} {envelope : Envelope}
    {nowUnix : Nat → Int} {entered : Nat} {error : String}
    (ha : decryptAndAuth P s.config envelope op nowUnix = .error error) :
    s.call P op envelope nowUnix entered = { s with clock := entered } := by
  unfold Api.call enter
  rw [ha]

/-- **What the guard knows of every run.** -/
theorem guardInv_inductive : (api P origin).Inductive (GuardInv P) where
  init := by
    intro s h
    obtain ⟨hr, ha⟩ := h
    refine ⟨by rw [hr]; exact ⟨rfl, List.nodup_nil⟩, ?_, ?_⟩
    · rw [hr, ha]; exact .empty _ _ _
    · rw [ha]; intro i j t t' k _ hi; simp [history] at hi
  step := by
    intro s l t h hst
    obtain ⟨ht, hr, hp⟩ := h
    cases hst with
    | @call op envelope nowUnix entered hclock =>
      cases ha : decryptAndAuth P s.config envelope op nowUnix with
      | error e =>
        rw [call_unauthenticated ha]
        exact ⟨ht, hr.later hclock, hp⟩
      | ok auth =>
        obtain ⟨h₁, h₂, h₃, -, h₅⟩ := @call_authenticated P s ht op envelope nowUnix entered auth ha
        have hh : history P (s.call P op envelope nowUnix entered).accepted =
            Window.record (history P s.accepted) entered
              (replayKey P auth.user.id op.name envelope.nonce)
              (Window.accept REPLAY_TTL MAX_REPLAY_ENTRIES entered
                (replayKey P auth.user.id op.name envelope.nonce) s.replay.order).1 := by
          rw [h₅, Window.record]
          split <;> simp [history]
        refine ⟨h₁, ?_, ?_⟩
        · rw [hh, h₂, h₃]; exact hr.accept hclock
        · rw [hh]; exact hp.record hr hclock
    | configure c => exact ⟨ht, hr, hp⟩

/-- The timestamp of a payload. -/
def timestampOf (payload : Value) : Option Int := (payload.get "ts".toList).bind Value.asI64

theorem timestampOf_range {payload : Value} {ts : Int} (h : timestampOf payload = some ts) :
    I64_MIN ≤ ts ∧ ts ≤ I64_MAX := by
  unfold timestampOf at h
  obtain ⟨v, -, hv⟩ := Option.bind_eq_some_iff.1 h
  cases v <;> simp only [Value.asI64, reduceCtorEq] at hv
  split at hv
  · rename_i hr; cases hv; exact hr
  · cases hv

/-- The wrapped distance of two clock readings; at `2 ^ 63` it is negative. -/
theorem i64Abs_wrap {d : Int} (h0 : 0 < d) (hmax : d < 2 ^ 64) :
    i64Abs (i64Wrap d) = if d < 2 ^ 63 then d else if d = 2 ^ 63 then -2 ^ 63 else 2 ^ 64 - d := by
  unfold i64Abs i64Wrap
  by_cases h₁ : d < 2 ^ 63
  · have hw : (d + 2 ^ 63) % 2 ^ 64 = d + 2 ^ 63 := Int.emod_eq_of_lt (by omega) (by omega)
    rw [hw, if_neg (by omega), if_pos h₁]
    omega
  · have hw : (d + 2 ^ 63) % 2 ^ 64 = d - 2 ^ 63 := by omega
    rw [hw, if_pos (by omega), if_neg h₁]
    by_cases h₂ : d = 2 ^ 63
    · rw [if_pos h₂]; omega
    · rw [if_neg h₂]; omega

/-- Past the first 300 seconds the test fails for good, wrapped or not. -/
theorem expired_later {t t' ts : Int} (hlt : ts < t) (hgood : expired t ts = false)
    (hlater : t + 300 ≤ t') (h0 : 0 ≤ t) (hmax : t' < 2 ^ 62) (hmin : I64_MIN ≤ ts) :
    expired t' ts = true := by
  unfold I64_MIN at hmin
  simp only [expired, i64Sub, MAX_CLOCK_SKEW_SECONDS, decide_eq_false_iff_not, decide_eq_true_eq,
    not_lt, gt_iff_lt] at hgood ⊢
  rw [i64Abs_wrap (by omega) (by omega)] at hgood ⊢
  split_ifs at hgood ⊢ <;> omega

/-- **When one envelope can take effect twice**: after more than the time to live, or
among very many others. If its timestamp was in the past at first, the timestamp
test refuses it by then. -/
theorem replay_rejected {s : Api} (h : (api P origin).Reachable s) {i j : Nat} {x y : Acceptance}
    (hi : s.accepted[i]? = some x) (hj : s.accepted[j]? = some y) (hij : i < j)
    (hsame : x.userId = y.userId ∧ x.op = y.op ∧ x.envelope = y.envelope)
    (hfew : j - 1 - i < MAX_REPLAY_ENTRIES) :
    REPLAY_TTL < y.entered - x.entered ∧ ∀ ts, timestampOf y.payload = some ts →
      ts < second origin x.entered → expired (second origin x.entered) ts = false →
      second origin y.entered < 2 ^ 62 → expired (second origin y.entered) ts = true := by
  have hp := (guardInv_inductive.reachable s h).apart
  have hx : (history P s.accepted)[i]? =
      some (x.entered, replayKey P x.userId x.op.name x.envelope.nonce) := by
    rw [history, List.getElem?_map, hi]; rfl
  have hy : (history P s.accepted)[j]? =
      some (y.entered, replayKey P x.userId x.op.name x.envelope.nonce) := by
    rw [history, List.getElem?_map, hj, hsame.1, hsame.2.1, hsame.2.2]; rfl
  have httl : REPLAY_TTL < y.entered - x.entered := by
    rcases hp i j _ _ _ hij hx hy with hc | ht
    · omega
    · exact ht
  refine ⟨httl, fun ts hts hlt hgood hmax => ?_⟩
  refine expired_later hlt hgood ?_ (Int.natCast_nonneg _) hmax (timestampOf_range hts).1
  unfold REPLAY_TTL at httl
  unfold second
  omega

end

/-! ## Envelopes that take effect twice -/

/-- No envelope is accepted again for its user and operation while its timestamp
is still good. -/
def Unrepeated (P : Primitives) (origin : Nat) : Prop :=
  ∀ s, (api P origin).Reachable s → ∀ (i j : Nat) (x y : Acceptance), i < j →
    s.accepted[i]? = some x → s.accepted[j]? = some y →
    x.userId = y.userId ∧ x.op = y.op ∧ x.envelope = y.envelope →
    ∀ ts, timestampOf y.payload = some ts → expired (second origin y.entered) ts = true

/-- A login with the timestamp, for every nonce that starts with `n`. -/
def sealedPayload (ts : Int) : Value :=
  .obj [("ts".toList, .int ts), ("op".toList, .str "login".toList), ("account".toList, .str ['a']),
    ("key".toList, .str (List.replicate 36 'a')), ("password".toList, .str ['a'])]

def sealing (ts : Int) : Primitives :=
  { Primitives.plain with
    b64decode := fun s => some (match s with
      | 'n' :: _ => List.replicate NONCE_LENGTH 0
      | 'p' :: _ => List.replicate AUTH_TAG_LENGTH 0
      | _ => List.replicate 32 0)
    parseJson := fun _ => some (sealedPayload ts) }

def sealedEnvelope (n : Nat) : Envelope := ⟨PROTOCOL_VERSION, 'n' :: List.replicate n 'x', ['p']⟩

def sealedAcceptance (ts : Int) (entered n : Nat) : Acceptance :=
  ⟨entered, ['a'], .login, sealedEnvelope n, sealedPayload ts⟩

def sealedServer : Api := ⟨sampleConfig [sampleUser 'a' []], ⟨∅, []⟩, 0, []⟩

theorem auth_sealed {ts : Int} (hts : I64_MIN ≤ ts ∧ ts ≤ I64_MAX) (n : Nat) (nowUnix : Nat → Int)
    (hgood : expired (nowUnix 0) ts = false) :
    decryptAndAuth (sealing ts) sealedServer.config (sealedEnvelope n) .login nowUnix =
      .ok ⟨0, sampleUser 'a' [], sealedPayload ts⟩ := by
  have hget : (Value.get "ts".toList (sealedPayload ts)).bind Value.asI64 = some ts :=
    if_pos hts
  have hauth : authorized (sealing ts) (sampleUser 'a' []) .login (sealedPayload ts) = true := by
    rfl
  have hdec : decryptPayload (sealing ts) (sampleUser 'a' []).secret sealedServer.config.apiSalt
      (sealedEnvelope n) (nowUnix 0) = .ok (sealedPayload ts) := by
    refine decryptPayload_eq_ok.2 ⟨rfl, _, _, _, _, _, ts, rfl, rfl, rfl, ?_, ?_, rfl, rfl, rfl, hget,
      hgood⟩
    · exact List.length_replicate
    · exact List.length_replicate.ge
  have hloop : decryptAndAuth (sealing ts) sealedServer.config (sealedEnvelope n) .login nowUnix =
      authLoop (sealing ts) sealedServer.config.apiSalt (sealedEnvelope n) .login nowUnix 0 [sampleUser 'a' []] := rfl
  rw [hloop, authLoop, hdec]
  simp only [hauth, if_true]

/-- The key the guard files for an envelope. -/
def sealedKey (ts : Int) (n : Nat) : Bytes :=
  replayKey (sealing ts) ['a'] Operation.login.name (sealedEnvelope n).nonce

theorem utf8_replicate (n : Nat) : (utf8 ('n' :: List.replicate n 'x')).length = n + 1 := by
  induction n with
  | zero => decide
  | succ n ih =>
    rw [utf8, List.replicate_succ', ← List.cons_append, List.flatMap_append, List.length_append]
    exact congrArg (· + 1) ih

theorem sealedKey_injective (ts : Int) : Function.Injective (sealedKey ts) := by
  intro m n h
  have hlen : ∀ k, (sealedKey ts k).length = 31 + k := by
    intro k
    show ([['a'], Operation.login.name, 'n' :: List.replicate k 'x'].flatMap keyField).length = _
    simp only [List.flatMap_cons, List.flatMap_nil, List.append_nil, List.length_append, keyField,
      utf8_replicate]
    have h₁ : ∀ b, (le64 b).length = 8 := fun b => by simp [le64]
    have h₂ : (utf8 ['a']).length = 1 ∧ (utf8 Operation.login.name).length = 5 := by decide
    rw [h₁, h₁, h₁, h₂.1, h₂.2]
    omega
  have := congrArg List.length h
  rw [hlen, hlen] at this
  omega

section
variable {ts : Int} {origin entered : Nat} {nowUnix : Int}

/-- One more login with an envelope of the family. -/
def Api.login (s : Api) (ts nowUnix : Int) (entered n : Nat) : Api :=
  s.call (sealing ts) .login (sealedEnvelope n) (fun _ => nowUnix) entered

/-- Where a run of such logins stands. -/
structure Sealed (ts : Int) (origin : Nat) (s : Api) : Prop where
  reachable : (api (sealing ts) origin).Reachable s
  config : s.config = sealedServer.config

theorem sealed_server (ts : Int) (origin : Nat) : Sealed ts origin sealedServer :=
  ⟨LTS.reachable_init ⟨rfl, rfl⟩, rfl⟩

theorem sealed_login (hts : I64_MIN ≤ ts ∧ ts ≤ I64_MAX) (hgood : expired nowUnix ts = false)
    {s : Api} (hs : Sealed ts origin s) (hclock : s.clock ≤ entered)
    (hread : nowUnix ≤ second origin entered) (n : Nat) :
    let w := Window.accept REPLAY_TTL MAX_REPLAY_ENTRIES entered (sealedKey ts n) s.replay.order
    Sealed ts origin (s.login ts nowUnix entered n) ∧
      (s.login ts nowUnix entered n).clock = entered ∧
      (s.login ts nowUnix entered n).replay.order = w.2 ∧
      (s.login ts nowUnix entered n).accepted = s.accepted ++ (if w.1 then
        [sealedAcceptance ts entered n] else []) := by
  have ha := auth_sealed hts n (fun _ => nowUnix) hgood
  rw [← hs.config] at ha
  obtain ⟨-, h₂, h₃, h₄, h₅⟩ := @call_authenticated _ s
    (guardInv_inductive.reachable s hs.reachable).tracks .login _ _ entered _ ha
  exact ⟨⟨hs.reachable.step (.call .login _ hclock fun _ => hread), h₄.trans hs.config⟩, h₃, h₂, h₅⟩

/-- Many logins at one moment: the window is filled, the first acceptances stay. -/
theorem sealed_logins (hts : I64_MIN ≤ ts ∧ ts ≤ I64_MAX) (hgood : expired nowUnix ts = false)
    (hread : nowUnix ≤ second origin entered) (ns : List Nat) {s : Api} (hs : Sealed ts origin s)
    (hclock : s.clock ≤ entered) :
    ∃ t, Sealed ts origin t ∧ t.clock ≤ entered ∧ s.accepted <+: t.accepted ∧
      t.replay.order = Window.acceptAll REPLAY_TTL MAX_REPLAY_ENTRIES entered (ns.map (sealedKey ts))
        s.replay.order := by
  induction ns generalizing s with
  | nil => exact ⟨s, hs, hclock, List.prefix_rfl, rfl⟩
  | cons n ns ih =>
    obtain ⟨h₁, h₂, h₃, h₄⟩ := sealed_login hts hgood hs hclock hread n
    obtain ⟨t, ht, hc, hp, ho⟩ := ih h₁ h₂.le
    refine ⟨t, ht, hc, ?_, ?_⟩
    · exact (h₄ ▸ List.prefix_append _ _ : s.accepted <+: _).trans hp
    · rw [ho, h₃]; rfl

theorem accept_empty (key : Bytes) : Window.accept REPLAY_TTL MAX_REPLAY_ENTRIES entered key [] =
    (true, [(entered, key)]) := by
  unfold Window.accept
  rw [if_neg (by simp [Window.expire])]
  rfl

/-- The first login of the server is accepted. -/
theorem sealed_first (hts : I64_MIN ≤ ts ∧ ts ≤ I64_MAX) (hgood : expired nowUnix ts = false)
    (hread : nowUnix ≤ second origin 0) :
    ∃ s, Sealed ts origin s ∧ s.clock = 0 ∧ s.replay.order = [(0, sealedKey ts 0)] ∧
      s.accepted = [sealedAcceptance ts 0 0] := by
  obtain ⟨h₁, h₂, h₃, h₄⟩ := sealed_login hts hgood (sealed_server ts origin) le_rfl hread 0
  rw [show sealedServer.replay.order = [] from rfl, accept_empty] at h₃ h₄
  exact ⟨_, h₁, h₂, h₃, h₄⟩

theorem accept_after {t now : Nat} (key : Bytes) (hlate : REPLAY_TTL < now - t) :
    (Window.accept REPLAY_TTL MAX_REPLAY_ENTRIES now key [(t, key)]).1 = true := by
  have hgone : Window.expire REPLAY_TTL now [(t, key)] = [] := by
    rw [Window.expire, List.dropWhile_cons, if_pos (decide_eq_true hlate), List.dropWhile_nil]
  unfold Window.accept
  rw [hgone]
  rfl

end

/-- A login that comes back after the time to live is accepted again. -/
theorem sealed_again (ts nowUnix : Int) (entered : Nat) (hts : I64_MIN ≤ ts ∧ ts ≤ I64_MAX)
    (hgood : expired 1000 ts = false) (hgood' : expired nowUnix ts = false)
    (hread : nowUnix ≤ second (1000 * 1000000000) entered) (hlate : REPLAY_TTL < entered) :
    ∃ s, (api (sealing ts) (1000 * 1000000000)).Reachable s ∧
      s.accepted = [sealedAcceptance ts 0 0, sealedAcceptance ts entered 0] := by
  have hread₀ : 1000 ≤ second (1000 * 1000000000) 0 := by decide +kernel
  obtain ⟨s, hs, hc, ho, ha⟩ := sealed_first hts hgood hread₀
  obtain ⟨h₁, -, -, h₄⟩ := sealed_login hts hgood' hs (by rw [hc]; exact Nat.zero_le _) hread 0
  rw [ho, accept_after _ hlate, ha] at h₄
  exact ⟨_, h₁.reachable, h₄⟩

/-- A login five minutes old comes back once the guard has forgotten it, and by then the
timestamp test refuses it. -/
theorem replay_rejected_login : expired (second (1000 * 1000000000) (302 * 1000000000)) 999 = true := by
  obtain ⟨s, hs, ha⟩ := sealed_again 999 1299 (302 * 1000000000) (by decide) (by decide +kernel)
    (by decide +kernel) (by decide +kernel) (by decide +kernel)
  have h₀ : s.accepted[0]? = some (sealedAcceptance 999 0 0) := by rw [ha]; rfl
  have h₁ : s.accepted[1]? = some (sealedAcceptance 999 (302 * 1000000000) 0) := by rw [ha]; rfl
  exact (replay_rejected hs h₀ h₁ (by decide) ⟨rfl, rfl, rfl⟩ (by decide)).2 999 rfl (by decide +kernel)
    (by decide +kernel) (by decide +kernel)

/-- **Envelopes that take effect twice**: one whose timestamp lies ahead outlives its
entry, and one among very many others loses it. -/
theorem envelope_twice : ¬ Unrepeated (sealing 1300) (1000 * 1000000000) ∧
    ¬ Unrepeated (sealing 999) (1000 * 1000000000) := by
  refine ⟨?_, ?_⟩
  · intro h
    obtain ⟨s, hs, ha⟩ := sealed_again 1300 1301 (301 * 1000000000) (by decide) (by decide +kernel)
      (by decide +kernel) (by decide +kernel) (by decide +kernel)
    have h₀ : s.accepted[0]? = some (sealedAcceptance 1300 0 0) := by rw [ha]; rfl
    have h₁ : s.accepted[1]? = some (sealedAcceptance 1300 (301 * 1000000000) 0) := by rw [ha]; rfl
    have := h s hs 0 1 _ _ (by decide) h₀ h₁ ⟨rfl, rfl, rfl⟩ 1300 rfl
    revert this
    decide +kernel
  · intro h
    have hts : I64_MIN ≤ 999 ∧ (999 : Int) ≤ I64_MAX := by decide
    have hgood : expired 1000 999 = false := by decide +kernel
    have hread : 1000 ≤ second (1000 * 1000000000) 0 := by decide +kernel
    obtain ⟨s, hs, hc, ho, ha⟩ := sealed_first hts hgood hread
    obtain ⟨t, ht, hct, ⟨rest, hp⟩, hot⟩ := sealed_logins hts hgood hread
      (List.range' 1 MAX_REPLAY_ENTRIES) hs hc.le
    -- the window holds the later envelopes and has lost the first
    have hnodup : ((0 :: List.range' 1 MAX_REPLAY_ENTRIES).map (sealedKey 999)).Nodup :=
      List.Nodup.map (sealedKey_injective 999)
        (List.nodup_range' : (List.range' 0 (MAX_REPLAY_ENTRIES + 1)).Nodup)
    have hfill := @Window.fill Bytes _ REPLAY_TTL MAX_REPLAY_ENTRIES 0 (by decide) _ hnodup
    rw [List.map_cons, Window.acceptAll, accept_empty, List.length_cons, List.length_map,
      List.length_range', Nat.add_sub_cancel_left, List.drop_one, List.tail_cons] at hfill
    rw [ho, hfill] at hot
    obtain ⟨h₁, -, -, h₄⟩ := sealed_login hts hgood ht hct hread 0
    rw [hot, Window.accept_now (List.nodup_cons.1 hnodup).1, ← hp, ha] at h₄
    have hi : (t.login 999 1000 0 0).accepted[0]? = some (sealedAcceptance 999 0 0) := by
      rw [h₄]; rfl
    have hj : (t.login 999 1000 0 0).accepted[rest.length + 1]? =
        some (sealedAcceptance 999 0 0) := by
      rw [h₄]; simp
    have := h _ h₁.reachable 0 (rest.length + 1) _ _ (by omega) hi hj ⟨rfl, rfl, rfl⟩ 999 rfl
    revert this
    decide +kernel

end OrangeFrp.App
