import OrangeFrp.App.Candidate
import OrangeFrp.Controller.Reconcile

/-!
# The tunnels request (`frp-game-server/src/app.rs`)

The handler holds the write lock of the configuration from the check of the
list to its answer. It stores the candidate, brings the controller in line, and
takes the candidate as the configuration in memory. When a port cannot be bound
it stores the original again under the new revision; only if that succeeds the
controller is brought back and the memory replaced.

* `saveTunnels_cases`: the five ways a save can end; when the 409 answer leaves
  everything as it was is `rollback_restores_iff`.
-/
namespace OrangeFrp.App

open OrangeFrp.Core OrangeFrp.Core.Table OrangeFrp.Storage OrangeFrp.Controller

/-! ## Usage summary -/

/-- mirrors crates/frp-game-common/src/model.rs:66-73 -/
structure PortTrafficUsage where
  proxyName : Str
  protocol : Str
  remotePort : Port
  trafficInBytes : Nat
  trafficOutBytes : Nat
  deriving DecidableEq

/-- mirrors crates/frp-game-common/src/model.rs:75-84 -/
structure TrafficSummary where
  limitBytes : Nat
  usedBytes : Nat
  remainingBytes : Nat
  speedLimitMbps : Nat
  exhausted : Bool
  ports : List PortTrafficUsage
  deriving DecidableEq

def PortTrafficUsage.before (x y : PortTrafficUsage) : Prop :=
  x.remotePort < y.remotePort ∨ (x.remotePort = y.remotePort ∧ x.protocol ≤ y.protocol)

instance (x y : PortTrafficUsage) : Decidable (x.before y) := by
  unfold PortTrafficUsage.before; infer_instance

/-- mirrors crates/frp-game-server/src/app.rs:1036-1068 -/
def trafficSummary (u : ServerUser) : TrafficSummary where
  limitBytes := u.trafficLimitBytes
  usedBytes := u.trafficUsedBytes
  remainingBytes := if u.trafficLimitBytes = 0 then 0 else u.trafficLimitBytes - u.trafficUsedBytes
  speedLimitMbps := u.speedLimitMbps
  exhausted := u.trafficLimitBytes > 0 && u.trafficUsedBytes ≥ u.trafficLimitBytes
  ports := (u.trafficByProxy.entries.map fun e => {
      proxyName := e.1
      protocol := e.2.protocol
      remotePort := e.2.remotePort
      trafficInBytes := e.2.trafficInBytes
      trafficOutBytes := e.2.trafficOutBytes }).insertionSort PortTrafficUsage.before

/-! ## The handler -/

/-- The `action` of an authenticated payload; `none` is a list of tunnels that
does not deserialize. -/
inductive Action where
  | list
  | save (tunnels : Option (List Tunnel))
  | unknown

inductive Response where
  | ok (tunnels : List Tunnel) (tunnelLimit : Nat) (traffic : TrafficSummary)
  | failed (status : Nat) (message : String)
  deriving DecidableEq

/-- The state the handler works on: the disk, the configuration behind the lock,
and the controller. -/
structure Server (τ : Type) where
  disk : Disk
  config : ServerConfig
  controller : Option (TrafficController τ)

/-- What a request finds in its surroundings. -/
structure Env where
  now : Int
  draws : Draws
  first : Entropy
  second : Entropy
  firstWorld : World
  secondWorld : World

def Response.describe (u : ServerUser) : Response := .ok u.tunnels u.tunnelLimit (trafficSummary u)

section
variable {τ : Type} [Double τ] (P : Primitives)

/-- From the failed `reconcile` on.
mirrors crates/frp-game-server/src/app.rs:1847-1859 -/
def rollback (s : Server τ) (disk : Disk) (stored : ServerConfig) (k : TrafficController τ)
    (error : String) (env : Env) : Server τ × Response :=
  let answer := .failed 409 ("公网端口监听失败：" ++ error)
  match save P disk { s.config with revision := stored.revision } env.second with
  | (disk, .ok (original, _)) =>
    ({ disk := disk
       config := original
       controller := some (k.reconcile original env.secondWorld).1 }, answer)
  | (disk, .error _) => ({ disk := disk, config := s.config, controller := some k }, answer)

/-- mirrors crates/frp-game-server/src/app.rs:1783-1875 -/
def saveTunnels (s : Server τ) (userIndex : Nat) (current : ServerUser)
    (submitted : Option (List Tunnel)) (env : Env) : Server τ × Response :=
  if (trafficSummary current).exhausted then
    (s, .failed 403 "流量配额已用尽，无法修改或启动隧道。")
  else
    match submitted with
    | none => (s, .failed 400 "隧道列表格式不正确")
    | some tunnels =>
      match normalizeUserTunnels s.config userIndex current tunnels env.draws with
      | .error error => (s, .failed 400 error)
      | .ok (normalized, _) =>
        match save P s.disk (candidate s.config userIndex current normalized env.now) env.first with
        | (disk, .error _) => ({ s with disk := disk }, .failed 500 "服务器内部错误")
        | (disk, .ok (stored, _)) =>
          let answer := Response.describe ((stored.users[userIndex]?).getD current)
          match s.controller with
          | none => ({ disk := disk, config := stored, controller := none }, answer)
          | some k =>
            match k.reconcile stored env.firstWorld with
            | (k, .ok ()) => ({ disk := disk, config := stored, controller := some k }, answer)
            | (k, .error error) => rollback P s disk stored k error env

/-- mirrors crates/frp-game-server/src/app.rs:1746-1883, behind authentication -/
def tunnelsRequest (s : Server τ) (userIndex : Nat) (current : ServerUser) (action : Action)
    (env : Env) : Server τ × Response :=
  match action with
  | .list => (s, .describe current)
  | .save submitted => saveTunnels P s userIndex current submitted env
  | .unknown => (s, .failed 400 "未知隧道操作")

end

/-! ## The ways a save can end -/

section
variable {τ : Type} [Double τ] {P : Primitives} {s : Server τ} {i : Nat} {a : ServerUser} {env : Env}

/-- The candidate was stored. -/
structure StoredCandidate (P : Primitives) (s : Server τ) (i : Nat) (a : ServerUser) (env : Env)
    (ts : List Tunnel) (disk : Disk) (stored : ServerConfig) : Prop where
  accepted : AcceptedFor s.config i a ts
  saved : ∃ e', save P s.disk (candidate s.config i a ts env.now) env.first = (disk, .ok (stored, e'))

/-- **The ways a save can end**: refused before anything is written, refused by
the store, kept, rolled back, or stuck with a rollback that is refused. -/
theorem saveTunnels_cases (submitted : Option (List Tunnel)) :
    (saveTunnels P s i a submitted env).1 = s ∨
    (∃ ts disk error, AcceptedFor s.config i a ts ∧
      save P s.disk (candidate s.config i a ts env.now) env.first = (disk, .error error) ∧
      (saveTunnels P s i a submitted env).1 = { s with disk := disk }) ∨
    (∃ ts disk stored, StoredCandidate P s i a env ts disk stored ∧
      (saveTunnels P s i a submitted env).1 =
        ⟨disk, stored, s.controller.map fun k => (k.reconcile stored env.firstWorld).1⟩ ∧
      ∀ k, s.controller = some k → (k.reconcile stored env.firstWorld).2 = .ok ()) ∨
    (∃ ts disk stored k error, StoredCandidate P s i a env ts disk stored ∧ s.controller = some k ∧
      (k.reconcile stored env.firstWorld).2 = .error error ∧
      (saveTunnels P s i a submitted env).1 =
        (rollback P s disk stored (k.reconcile stored env.firstWorld).1 error env).1) := by
  unfold saveTunnels
  split
  · exact .inl rfl
  split
  · exact .inl rfl
  split
  · exact .inl rfl
  rename_i ts d' hn
  have ha := normalizeUserTunnels_ok hn
  split
  · rename_i disk error hs
    exact .inr (.inl ⟨ts, disk, error, ha, hs, rfl⟩)
  rename_i disk stored e' hs
  have hst : StoredCandidate P s i a env ts disk stored := ⟨ha, e', hs⟩
  dsimp only
  split
  · rename_i hk
    exact .inr (.inr (.inl ⟨ts, disk, stored, hst, by rw [hk]; rfl, fun k h => by rw [hk] at h; cases h⟩))
  rename_i k hk
  split
  · rename_i k' hr
    refine .inr (.inr (.inl ⟨ts, disk, stored, hst, ?_, fun k₁ h => ?_⟩))
    · rw [hk, Option.map_some, hr]
    · rw [hk] at h; cases h; rw [hr]
  · rename_i k' error hr
    refine .inr (.inr (.inr ⟨ts, disk, stored, k, error, hst, hk, by rw [hr], ?_⟩))
    rw [hr]

end

end OrangeFrp.App
