import OrangeFrp.Controller.Gate
import OrangeFrp.Storage.Store

/-!
# Accounting of traffic events (`frp-game-server/src/controller.rs`)

Sessions send an event for every delivered chunk. The accounting task adds the
events up for each user and each proxy, and every half second stores the sums:
`flush_pending` adds them to a copy of the configuration and saves it. Sums that
could not be stored are kept for the next time.

The sums of a user are a `HashMap`: `addEvent` leaves its entries in one order, and a flush may
go through them in another (`SameSums`). What a record is labelled with depends on it, the
counters do not.
-/
namespace OrangeFrp.Controller

open OrangeFrp.Core OrangeFrp.Storage

/-- `In` and `Out`.
mirrors crates/frp-game-server/src/controller.rs:25-29 -/
inductive Direction where
  | inbound
  | outbound
  deriving DecidableEq

/-- mirrors crates/frp-game-server/src/controller.rs:31-39 -/
structure TrafficEvent where
  userId : Str
  proxyName : Str
  protocol : Str
  publicPort : Port
  direction : Direction
  bytes : Nat
  deriving DecidableEq

/-- mirrors crates/frp-game-server/src/controller.rs:600-606 -/
structure PendingProxyTraffic where
  protocol : Str
  publicPort : Port
  trafficIn : Nat
  trafficOut : Nat
  deriving DecidableEq

/-- mirrors crates/frp-game-server/src/controller.rs:594-598 -/
structure PendingTraffic where
  total : Nat
  perProxy : Assoc (Str × Str) PendingProxyTraffic
  deriving DecidableEq

/-- The sums of the accounting task, for each user id. -/
abbrev Pending := Assoc Str PendingTraffic

/-- The same sums of a user in some order: a `HashMap` is gone through in any. -/
def SameUpdate (p q : PendingTraffic) : Prop := p.total = q.total ∧ p.perProxy.entries.Perm q.perProxy.entries

instance (p q : PendingTraffic) : Decidable (SameUpdate p q) := by unfold SameUpdate; infer_instance

/-- The same sums, for each user in some order. -/
def SameSums (order pending : Pending) : Prop :=
  List.Forall₂ (fun x y => x.1 = y.1 ∧ SameUpdate x.2 y.2) order.entries pending.entries

instance (order pending : Pending) : Decidable (SameSums order pending) := by unfold SameSums; infer_instance

def PendingProxyTraffic.add (p : PendingProxyTraffic) (direction : Direction) (bytes : Nat) :
    PendingProxyTraffic :=
  match direction with
  | .inbound => { p with trafficIn := satAdd p.trafficIn bytes }
  | .outbound => { p with trafficOut := satAdd p.trafficOut bytes }

def PendingTraffic.add (user : PendingTraffic) (event : TrafficEvent) : PendingTraffic where
  total := satAdd user.total event.bytes
  perProxy := Assoc.alter (event.proxyName, event.protocol) ⟨event.protocol, event.publicPort, 0, 0⟩
    (fun proxy => proxy.add event.direction event.bytes) user.perProxy

/-- mirrors crates/frp-game-server/src/controller.rs:645-661 -/
def addEvent (pending : Pending) (event : TrafficEvent) : Pending :=
  Assoc.alter event.userId ⟨0, ∅⟩ (fun user => user.add event) pending

/-- mirrors crates/frp-game-server/src/controller.rs:636-643 -/
def drainEvents (events : List TrafficEvent) (pending : Pending) : Pending :=
  events.foldl addEvent pending

/-- mirrors crates/frp-game-server/src/controller.rs:680-693 -/
def applyProxy (traffic : Assoc Str ProxyTrafficRecord)
    (entry : (_ : Str × Str) × PendingProxyTraffic) : Assoc Str ProxyTrafficRecord :=
  Assoc.alter entry.1.1 {
      protocol := entry.2.protocol
      remotePort := entry.2.publicPort
      trafficInBytes := 0
      trafficOutBytes := 0
      active := true }
    (fun record => {
      protocol := entry.2.protocol
      remotePort := entry.2.publicPort
      trafficInBytes := satAdd record.trafficInBytes entry.2.trafficIn
      trafficOutBytes := satAdd record.trafficOutBytes entry.2.trafficOut
      active := true }) traffic

/-- mirrors crates/frp-game-server/src/controller.rs:674-694 -/
def accountUser (pending : Pending) (user : ServerUser) : ServerUser :=
  match pending.lookup user.id with
  | none => user
  | some update => { user with
      trafficUsedBytes := satAdd user.trafficUsedBytes update.total
      trafficByProxy := update.perProxy.entries.foldl applyProxy user.trafficByProxy }

/-- The candidate of a flush. -/
def accounted (c : ServerConfig) (pending : Pending) : ServerConfig :=
  { c with users := c.users.map (accountUser pending) }

/-- mirrors crates/frp-game-server/src/controller.rs:663-698 -/
def flushPending (P : Primitives) (disk : Disk) (c : ServerConfig) (pending : Pending) (e : Entropy) :
    Disk × ServerConfig × Except String Unit :=
  if pending.entries = [] then (disk, c, .ok ())
  else
    match save P disk (accounted c pending) e with
    | (disk, .error error) => (disk, c, .error error)
    | (disk, .ok (stored, _)) => (disk, stored, .ok ())

/-- What a flush has done: nothing, a refused save, or a save of the candidate. -/
theorem flushPending_cases {P : Primitives} (disk : Disk) (c : ServerConfig) (pending : Pending)
    (e : Entropy) :
    (pending.entries = [] ∧ flushPending P disk c pending e = (disk, c, .ok ())) ∨
    (∃ disk' error, save P disk (accounted c pending) e = (disk', .error error) ∧
      flushPending P disk c pending e = (disk', c, .error error)) ∨
    ∃ disk' stored e', pending.entries ≠ [] ∧
      save P disk (accounted c pending) e = (disk', .ok (stored, e')) ∧
      flushPending P disk c pending e = (disk', stored, .ok ()) := by
  unfold flushPending
  split
  · rename_i hp
    exact .inl ⟨hp, rfl⟩
  rename_i hp
  cases h : save P disk (accounted c pending) e with
  | mk disk' res =>
  cases res with
  | error error => exact .inr (.inl ⟨disk', error, rfl, rfl⟩)
  | ok r => exact .inr (.inr ⟨disk', r.1, r.2, hp, rfl, rfl⟩)

/-! ## The order of the sums -/

theorem SameUpdate.refl (p : PendingTraffic) : SameUpdate p p := ⟨rfl, .refl _⟩

theorem SameSums.refl (pending : Pending) : SameSums pending pending :=
  List.forall₂_same.2 fun x _ => ⟨rfl, .refl x.2⟩

theorem SameSums.lookup {order pending : Pending} (h : SameSums order pending) (userId : Str) :
    Option.Rel SameUpdate (order.lookup userId) (pending.lookup userId) := by
  unfold SameSums at h
  unfold AList.lookup
  generalize order.entries = xs at h
  generalize pending.entries = ys at h
  induction h with
  | nil => exact .none
  | @cons x y xs ys hxy _ ih =>
    obtain ⟨k, p⟩ := x
    obtain ⟨k', q⟩ := y
    obtain ⟨rfl, hsame⟩ : k = k' ∧ SameUpdate p q := hxy
    by_cases hk : userId = k
    · subst hk
      rw [List.dlookup_cons_eq, List.dlookup_cons_eq]
      exact .some hsame
    · rw [List.dlookup_cons_ne _ _ hk, List.dlookup_cons_ne _ _ hk]
      exact ih

/-! ## The candidate of a flush -/

/-- After the updates of a flush a record is the old one or an active one. -/
theorem lookup_foldl_applyProxy (updates : List ((_ : Str × Str) × PendingProxyTraffic))
    (traffic : Assoc Str ProxyTrafficRecord) (name : Str) :
    (updates.foldl applyProxy traffic).lookup name = traffic.lookup name ∨
      ∃ record, (updates.foldl applyProxy traffic).lookup name = some record ∧ record.active = true := by
  induction updates generalizing traffic with
  | nil => exact .inl rfl
  | cons update updates ih =>
    rw [List.foldl_cons]
    rcases ih (applyProxy traffic update) with h | h
    · rw [h, applyProxy, Assoc.lookup_alter]
      split
      · exact .inr ⟨_, rfl, rfl⟩
      · exact .inl rfl
    · exact .inr h

theorem accountUser_fields (pending : Pending) (u : ServerUser) :
    accountUser pending u = { u with
      trafficUsedBytes := (accountUser pending u).trafficUsedBytes
      trafficByProxy := (accountUser pending u).trafficByProxy } := by
  unfold accountUser
  split <;> rfl

theorem lookup_accountUser (pending : Pending) (u : ServerUser) (name : Str) :
    (accountUser pending u).trafficByProxy.lookup name = u.trafficByProxy.lookup name ∨
      ∃ record, (accountUser pending u).trafficByProxy.lookup name = some record ∧
        record.active = true := by
  unfold accountUser
  split
  · exact .inl rfl
  · exact lookup_foldl_applyProxy _ _ name

theorem accounted_column {α : Type} (f : ServerUser → α)
    (hf : ∀ u used traffic, f { u with trafficUsedBytes := used, trafficByProxy := traffic } = f u)
    (c : ServerConfig) (pending : Pending) : (accounted c pending).users.map f = c.users.map f := by
  rw [accounted, List.map_map]
  refine List.map_congr_left fun u _ => ?_
  rw [Function.comp_apply, accountUser_fields, hf]

theorem accounted_tunnels (c : ServerConfig) (pending : Pending) :
    (accounted c pending).tunnels = c.tunnels := by
  have h := accounted_column (·.tunnels) (fun _ _ _ => rfl) c pending
  rw [ServerConfig.tunnels, ServerConfig.tunnels, List.flatMap_def, h, ← List.flatMap_def]

section
variable {P : Primitives} {c : ServerConfig}

theorem accounted_userOk (hv : Valid P c) (pending : Pending) :
    ∀ u ∈ (accounted c pending).users, UserOk P c.apiSalt u := by
  intro u hu
  obtain ⟨v, hvm, rfl⟩ := List.mem_map.1 hu
  obtain ⟨h₁, h₂, h₃, h₄, h₅, h₆, h₇, h₈, h₉, h₁₀⟩ := hv.users v hvm
  rw [accountUser_fields]
  exact ⟨h₁, h₂, h₃, h₄, h₅, h₆, h₇, h₈, h₉, h₁₀⟩

theorem accounted_sorted (hv : Valid P c) (pending : Pending) :
    (accounted c pending).users.Pairwise fun u v => u.account ≤ v.account :=
  sorted_of_accounts (accounted_column (·.account) (fun _ _ _ => rfl) c pending) hv.sorted

end

end OrangeFrp.Controller
