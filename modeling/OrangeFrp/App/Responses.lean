import OrangeFrp.App.SaveTunnels
import OrangeFrp.Common.Records

/-!
# Answers of the API as JSON (`frp-game-common/src/model.rs`, `frp-game-server/src/app.rs`)

The bodies that the handlers make with `json!`, and the records a client reads them into.

* `TrafficSummary.ofValue_toValue`: the usage of a user.
* `HelloResponse.ofValue_hello`, `LoginResponse.ofValue_login`: what a client reads is what
  the handler had.
-/
namespace OrangeFrp.App

open OrangeFrp.Core OrangeFrp.Storage

def U32_MAX : Nat := 2 ^ 32 - 1

/-! ## Usage -/

/-- mirrors crates/frp-game-common/src/model.rs:66-73 -/
def PortTrafficUsage.fields (x : PortTrafficUsage) : List (Str × Value) := [
  ("proxy_name".toList, .str x.proxyName),
  ("protocol".toList, .str x.protocol),
  ("remote_port".toList, .ofPort x.remotePort),
  ("traffic_in_bytes".toList, .ofNat x.trafficInBytes),
  ("traffic_out_bytes".toList, .ofNat x.trafficOutBytes)]

def PortTrafficUsage.toValue (x : PortTrafficUsage) : Value := .object x.fields

/-- mirrors crates/frp-game-common/src/model.rs:66-73 -/
def PortTrafficUsage.ofValue (v : Value) : Option PortTrafficUsage := do
  guard (v.isRecord 5)
  let proxyName ← v.required 0 "proxy_name".toList Value.asStr
  let protocol ← v.required 1 "protocol".toList Value.asStr
  let remotePort ← v.required 2 "remote_port".toList Value.asPort
  let trafficInBytes ← v.required 3 "traffic_in_bytes".toList (Value.asUint U64_MAX)
  let trafficOutBytes ← v.required 4 "traffic_out_bytes".toList (Value.asUint U64_MAX)
  return ⟨proxyName, protocol, remotePort, trafficInBytes, trafficOutBytes⟩

/-- mirrors crates/frp-game-common/src/model.rs:75-84 -/
def TrafficSummary.fields (x : TrafficSummary) : List (Str × Value) := [
  ("limit_bytes".toList, .ofNat x.limitBytes),
  ("used_bytes".toList, .ofNat x.usedBytes),
  ("remaining_bytes".toList, .ofNat x.remainingBytes),
  ("speed_limit_mbps".toList, .ofNat x.speedLimitMbps),
  ("exhausted".toList, .bool x.exhausted),
  ("ports".toList, .arr (x.ports.map PortTrafficUsage.toValue))]

def TrafficSummary.toValue (x : TrafficSummary) : Value := .object x.fields

/-- mirrors crates/frp-game-common/src/model.rs:75-84 -/
def TrafficSummary.ofValue (v : Value) : Option TrafficSummary := do
  guard (v.isRecord 6)
  let limitBytes ← v.required 0 "limit_bytes".toList (Value.asUint U64_MAX)
  let usedBytes ← v.required 1 "used_bytes".toList (Value.asUint U64_MAX)
  let remainingBytes ← v.required 2 "remaining_bytes".toList (Value.asUint U64_MAX)
  let speedLimitMbps ← v.required 3 "speed_limit_mbps".toList (Value.asUint U32_MAX)
  let exhausted ← v.required 4 "exhausted".toList Value.asBool
  let ports ← v.defaulted 5 "ports".toList [] (Value.asList PortTrafficUsage.ofValue)
  return ⟨limitBytes, usedBytes, remainingBytes, speedLimitMbps, exhausted, ports⟩

/-- `TrafficSummary::default()`. -/
def TrafficSummary.default : TrafficSummary := ⟨0, 0, 0, 0, false, []⟩

/-- The counters are of the integers of the source. -/
structure PortTrafficUsage.Fits (x : PortTrafficUsage) : Prop where
  inBytes : x.trafficInBytes ≤ U64_MAX
  outBytes : x.trafficOutBytes ≤ U64_MAX

structure TrafficSummary.Fits (x : TrafficSummary) : Prop where
  limit : x.limitBytes ≤ U64_MAX
  used : x.usedBytes ≤ U64_MAX
  remaining : x.remainingBytes ≤ U64_MAX
  speed : x.speedLimitMbps ≤ U32_MAX
  ports : ∀ y ∈ x.ports, y.Fits

theorem PortTrafficUsage.ofValue_toValue {x : PortTrafficUsage} (h : x.Fits) :
    PortTrafficUsage.ofValue x.toValue = some x := by
  have hn : (x.fields.map Prod.fst).Nodup := by
    show (["proxy_name", "protocol", "remote_port", "traffic_in_bytes", "traffic_out_bytes"].map String.toList).Nodup
    decide +kernel
  have hstr (s : Str) : (Value.str s).asStr = some s := rfl
  unfold PortTrafficUsage.ofValue PortTrafficUsage.toValue
  rw [Value.required_object hn 0 rfl (hstr _), Value.required_object hn 1 rfl (hstr _),
    Value.required_object hn 2 rfl (Value.asPort_ofPort _),
    Value.required_object hn 3 rfl (Value.asUint_ofNat h.inBytes),
    Value.required_object hn 4 rfl (Value.asUint_ofNat h.outBytes)]
  rfl

theorem TrafficSummary.ofValue_toValue {x : TrafficSummary} (h : x.Fits) :
    TrafficSummary.ofValue x.toValue = some x := by
  have hn : (x.fields.map Prod.fst).Nodup := by
    show (["limit_bytes", "used_bytes", "remaining_bytes", "speed_limit_mbps", "exhausted",
      "ports"].map String.toList).Nodup
    decide +kernel
  have hbool (b : Bool) : (Value.bool b).asBool = some b := rfl
  have hports : (Value.arr (x.ports.map PortTrafficUsage.toValue)).asList PortTrafficUsage.ofValue =
      some x.ports := Value.asList_map fun y hy => PortTrafficUsage.ofValue_toValue (h.ports y hy)
  unfold TrafficSummary.ofValue TrafficSummary.toValue
  rw [Value.required_object hn 0 rfl (Value.asUint_ofNat h.limit),
    Value.required_object hn 1 rfl (Value.asUint_ofNat h.used),
    Value.required_object hn 2 rfl (Value.asUint_ofNat h.remaining),
    Value.required_object hn 3 rfl (Value.asUint_ofNat h.speed), Value.required_object hn 4 rfl (hbool _),
    Value.defaulted_object hn 5 rfl hports]
  rfl

/-! ## Hello and login -/

/-- mirrors crates/frp-game-common/src/model.rs:110-122 -/
structure HelloResponse where
  ok : Bool
  version : Nat
  salt : Str
  apiPort : Port
  frpsPort : Port
  frpsVersion : Str
  frpsOnline : Bool
  serverTime : Int
  deriving DecidableEq

/-- mirrors crates/frp-game-common/src/model.rs:124-137 -/
structure LoginResponse where
  ok : Bool
  frpsPort : Port
  frpsToken : Str
  frpsVersion : Str
  traffic : TrafficSummary
  tunnelLimit : Nat
  tunnels : List Tunnel
  serverTime : Int
  deriving DecidableEq

/-- mirrors crates/frp-game-common/src/model.rs:110-122 -/
def HelloResponse.ofValue (v : Value) : Option HelloResponse := do
  guard (v.isRecord 8)
  let ok ← v.required 0 "ok".toList Value.asBool
  let version ← v.required 1 "version".toList (Value.asUint 255)
  let salt ← v.required 2 "salt".toList Value.asStr
  let apiPort ← v.required 3 "api_port".toList Value.asPort
  let frpsPort ← v.required 4 "frps_port".toList Value.asPort
  let frpsVersion ← v.defaulted 5 "frps_version".toList [] Value.asStr
  let frpsOnline ← v.defaulted 6 "frps_online".toList false Value.asBool
  let serverTime ← v.required 7 "server_time".toList Value.asI64
  return ⟨ok, version, salt, apiPort, frpsPort, frpsVersion, frpsOnline, serverTime⟩

/-- mirrors crates/frp-game-common/src/model.rs:124-137 -/
def LoginResponse.ofValue (v : Value) : Option LoginResponse := do
  guard (v.isRecord 8)
  let ok ← v.required 0 "ok".toList Value.asBool
  let frpsPort ← v.required 1 "frps_port".toList Value.asPort
  let frpsToken ← v.required 2 "frps_token".toList Value.asStr
  let frpsVersion ← v.defaulted 3 "frps_version".toList [] Value.asStr
  let traffic ← v.defaulted 4 "traffic".toList .default TrafficSummary.ofValue
  let tunnelLimit ← v.defaulted 5 "tunnel_limit".toList DEFAULT_TUNNEL_LIMIT (Value.asUint U32_MAX)
  let tunnels ← v.required 6 "tunnels".toList Tunnel.listOfValue
  let serverTime ← v.required 7 "server_time".toList Value.asI64
  return ⟨ok, frpsPort, frpsToken, frpsVersion, traffic, tunnelLimit, tunnels, serverTime⟩

/-- The body of an error.
mirrors crates/frp-game-server/src/app.rs:1583-1585 -/
def errorBody (message : Str) : Value := .object [
  ("ok".toList, .bool false),
  ("message".toList, .str message)]

/-- mirrors crates/frp-game-server/src/app.rs:1683-1693 -/
def helloFields (c : ServerConfig) (serverVersion frpsVersion : Str) (frpsOnline : Bool) (serverTime : Int) :
    List (Str × Value) := [
  ("ok".toList, .bool true),
  ("version".toList, .ofNat 1),
  ("server_version".toList, .str serverVersion),
  ("salt".toList, .str c.apiSalt),
  ("api_port".toList, .ofPort c.apiPort),
  ("frps_port".toList, .ofPort c.frpsBindPort),
  ("frps_version".toList, .str frpsVersion),
  ("frps_online".toList, .bool frpsOnline),
  ("server_time".toList, .int serverTime)]

/-- mirrors crates/frp-game-server/src/app.rs:1733-1742 -/
def loginFields (u : ServerUser) (frpsBindPort : Port) (frpsToken frpsVersion : Str) (serverTime : Int) :
    List (Str × Value) := [
  ("ok".toList, .bool true),
  ("frps_port".toList, .ofPort frpsBindPort),
  ("frps_token".toList, .str frpsToken),
  ("tunnels".toList, Tunnel.listToValue u.tunnels),
  ("tunnel_limit".toList, .ofNat u.tunnelLimit),
  ("frps_version".toList, .str frpsVersion),
  ("traffic".toList, (trafficSummary u).toValue),
  ("server_time".toList, .int serverTime)]

/-- mirrors crates/frp-game-server/src/app.rs:1911-1915 -/
def usageBody (u : ServerUser) : Value := .object [
  ("ok".toList, .bool true),
  ("tunnel_limit".toList, .ofNat u.tunnelLimit),
  ("traffic".toList, (trafficSummary u).toValue)]

/-- mirrors crates/frp-game-server/src/app.rs:1775-1780,1868-1873 -/
def tunnelsBody (tunnels : List Tunnel) (tunnelLimit : Nat) (traffic : TrafficSummary) : Value := .object [
  ("ok".toList, .bool true),
  ("tunnels".toList, Tunnel.listToValue tunnels),
  ("tunnel_limit".toList, .ofNat tunnelLimit),
  ("traffic".toList, traffic.toValue)]

/-- A clock that fits its type. -/
def IsI64 (n : Int) : Prop := I64_MIN ≤ n ∧ n ≤ I64_MAX

theorem asI64_int {n : Int} (h : IsI64 n) : (Value.int n).asI64 = some n := if_pos h

theorem HelloResponse.ofValue_hello (c : ServerConfig) (serverVersion frpsVersion : Str) (frpsOnline : Bool)
    {serverTime : Int} (ht : IsI64 serverTime) :
    HelloResponse.ofValue (.object (helloFields c serverVersion frpsVersion frpsOnline serverTime)) =
      some ⟨true, 1, c.apiSalt, c.apiPort, c.frpsBindPort, frpsVersion, frpsOnline, serverTime⟩ := by
  have hn : ((helloFields c serverVersion frpsVersion frpsOnline serverTime).map Prod.fst).Nodup := by
    show (["ok", "version", "server_version", "salt", "api_port", "frps_port", "frps_version", "frps_online",
      "server_time"].map String.toList).Nodup
    decide +kernel
  have hbool (b : Bool) : (Value.bool b).asBool = some b := rfl
  have hstr (s : Str) : (Value.str s).asStr = some s := rfl
  have hversion : (Value.ofNat 1).asUint 255 = some 1 := Value.asUint_ofNat (by decide)
  unfold HelloResponse.ofValue
  rw [Value.required_object hn 0 rfl (hbool _), Value.required_object hn 1 rfl hversion,
    Value.required_object hn 3 rfl (hstr _), Value.required_object hn 4 rfl (Value.asPort_ofPort _),
    Value.required_object hn 5 rfl (Value.asPort_ofPort _), Value.defaulted_object hn 6 rfl (hstr _),
    Value.defaulted_object hn 7 rfl (hbool _), Value.required_object hn 8 rfl (asI64_int ht)]
  rfl

/-- A user whose counters are of the integers of the source. -/
structure CountsFit (u : ServerUser) : Prop where
  tunnelLimit : u.tunnelLimit ≤ U32_MAX
  speed : u.speedLimitMbps ≤ U32_MAX
  limit : u.trafficLimitBytes ≤ U64_MAX
  used : u.trafficUsedBytes ≤ U64_MAX
  records : ∀ e ∈ u.trafficByProxy.entries, e.2.trafficInBytes ≤ U64_MAX ∧ e.2.trafficOutBytes ≤ U64_MAX

theorem CountsFit.summary {u : ServerUser} (h : CountsFit u) : (trafficSummary u).Fits where
  limit := h.limit
  used := h.used
  remaining := by
    have := h.limit
    show (if u.trafficLimitBytes = 0 then 0 else u.trafficLimitBytes - u.trafficUsedBytes) ≤ U64_MAX
    split <;> omega
  speed := h.speed
  ports := by
    intro y hy
    obtain ⟨e, he, rfl⟩ := List.mem_map.1 ((List.perm_insertionSort _ _).mem_iff.1 hy)
    exact ⟨(h.records e he).1, (h.records e he).2⟩

/-- **What a client reads is what the handler had.** The timestamp of the envelope is no
field of it. -/
theorem LoginResponse.ofValue_login {u : ServerUser} (h : CountsFit u) (frpsBindPort : Port)
    (frpsToken frpsVersion : Str) {serverTime : Int} (ht : IsI64 serverTime) (now : Int) :
    LoginResponse.ofValue (stamped (.object (loginFields u frpsBindPort frpsToken frpsVersion serverTime)) now) =
      some ⟨true, frpsBindPort, frpsToken, frpsVersion, trafficSummary u, u.tunnelLimit, u.tunnels, serverTime⟩ := by
  have hkeys : (loginFields u frpsBindPort frpsToken frpsVersion serverTime).map Prod.fst =
      ["ok", "frps_port", "frps_token", "tunnels", "tunnel_limit", "frps_version", "traffic",
        "server_time"].map String.toList := rfl
  rw [stamped_object (by rw [hkeys]; decide +kernel)]
  have hn : ((loginFields u frpsBindPort frpsToken frpsVersion serverTime ++
      [("ts".toList, Value.int now)]).map Prod.fst).Nodup := by
    rw [List.map_append, hkeys]
    show (["ok", "frps_port", "frps_token", "tunnels", "tunnel_limit", "frps_version", "traffic", "server_time",
      "ts"].map String.toList).Nodup
    decide +kernel
  have hbool (b : Bool) : (Value.bool b).asBool = some b := rfl
  have hstr (s : Str) : (Value.str s).asStr = some s := rfl
  unfold LoginResponse.ofValue
  rw [Value.required_object hn 0 rfl (hbool _), Value.required_object hn 1 rfl (Value.asPort_ofPort _),
    Value.required_object hn 2 rfl (hstr _), Value.defaulted_object hn 5 rfl (hstr _),
    Value.defaulted_object hn 6 rfl (TrafficSummary.ofValue_toValue h.summary),
    Value.defaulted_object hn 4 rfl (Value.asUint_ofNat h.tunnelLimit),
    Value.required_object hn 3 rfl (Tunnel.listOfValue_toValue _), Value.required_object hn 7 rfl (asI64_int ht)]
  rfl

end OrangeFrp.App
