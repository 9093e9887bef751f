import Mathlib.Data.List.Sort
import Mathlib.Data.List.Lex
import Mathlib.Data.Char
import OrangeFrp.Core.Assoc
import OrangeFrp.Core.Except
import OrangeFrp.Common.Model
import OrangeFrp.Common.Crypto

/-!
# The server configuration (`frp-game-server/src/storage.rs`)

The in-memory configuration and `normalize_loaded_config`, which every read
and every write runs on it: one pass over all users and tunnels that rewrites
fields (trimmed accounts, fresh ids, recomputed proxy names) while it inserts
into eight hash sets (`Seen`), and sorts the users at the end.

Errors are the texts the program reports. A hash set is the list of what was
inserted.
-/
namespace OrangeFrp.Storage

open OrangeFrp.Core

def DEFAULT_PLUGIN_PORT : Port := 7632
def DEFAULT_PUBLIC_BIND : Str := "0.0.0.0".toList
def BACKEND_PORT_START : Nat := 20000
def BACKEND_PORT_END : Nat := 59999
def MAX_TUNNELS_PER_USER : Nat := MAX_TUNNEL_LIMIT

/-- mirrors crates/frp-game-server/src/storage.rs:59-66 -/
structure ProxyTrafficRecord where
  protocol : Str
  remotePort : Port
  trafficInBytes : Nat
  trafficOutBytes : Nat
  active : Bool
  deriving DecidableEq

/-- mirrors crates/frp-game-server/src/storage.rs:42-57 -/
structure ServerUser where
  id : Str
  account : Str
  passwordHash : Str
  passwordEncrypted : Str
  secret : Str
  tunnels : List Tunnel
  tunnelLimit : Nat
  trafficLimitBytes : Nat
  trafficUsedBytes : Nat
  speedLimitMbps : Nat
  trafficByProxy : Assoc Str ProxyTrafficRecord
  createdAt : Int
  updatedAt : Int
  deriving DecidableEq

/-- mirrors crates/frp-game-server/src/storage.rs:26-40 -/
structure ServerConfig where
  revision : Int
  apiSalt : Str
  apiBind : Str
  apiPort : Port
  frpsBindPort : Port
  frpsToken : Str
  frpsBinary : Str
  pluginPort : Port
  publicBind : Str
  users : List ServerUser
  createdAt : Int
  updatedAt : Int
  deriving DecidableEq

/-- The three ports of the server itself. -/
def ServerConfig.reserved (c : ServerConfig) : List Port := [c.apiPort, c.frpsBindPort, c.pluginPort]

/-- All tunnels, in the order of the users. -/
def ServerConfig.tunnels (c : ServerConfig) : List Tunnel := c.users.flatMap (·.tunnels)

/-! ## Passwords -/

section
variable (P : Primitives)

/-- mirrors crates/frp-game-server/src/storage.rs:327-338; `salt` is the
generated one. -/
def hashPassword (password salt : Str) : Except String Str :=
  if password = [] then .error "密码不能为空。" else .ok (P.argon2Hash (utf8 salt) password)

/-- mirrors crates/frp-game-server/src/storage.rs:340-349 -/
def verifyPassword (passwordHash password : Str) : Bool := P.argon2Verify passwordHash password

/-- mirrors crates/frp-game-server/src/storage.rs:364-371 -/
def encryptUserPassword (apiSalt secret password : Str) (nonce : Bytes) : Except String Str :=
  if password = [] then .error "密码不能为空。"
  else (encryptStoredText P secret apiSalt password nonce).mapError fun _ => "加密用户密码失败"

/-- mirrors crates/frp-game-server/src/storage.rs:373-385 -/
def decryptUserPassword (apiSalt secret passwordEncrypted : Str) : Except String (Option Str) :=
  if isBlank passwordEncrypted then .ok none
  else
    match decryptStoredText P secret apiSalt passwordEncrypted with
    | .ok password => .ok (some password)
    | .error _ => .error "解密用户密码失败"

end

/-- mirrors crates/frp-game-server/src/storage.rs:387-389 -/
def newUserId (d : Draws) : Str × Draws := (d.head.simple.take 16, d.tail)

/-- The first free port of the range, marked as used.
mirrors crates/frp-game-server/src/storage.rs:975-982 -/
def allocateBackendPort (usedPorts : List Port) : Except String (Port × List Port) :=
  match (List.range' BACKEND_PORT_START (BACKEND_PORT_END + 1 - BACKEND_PORT_START)).find?
      fun n => UInt16.ofNat n ∉ usedPorts with
  | some n => .ok (UInt16.ofNat n, UInt16.ofNat n :: usedPorts)
  | none => .error "没有可用的 FRPS 本机后端端口。"

/-! ## `normalize_loaded_config` -/

/-- The eight hash sets of `normalize_loaded_config`. -/
structure Seen where
  accounts : List Str
  userIds : List Str
  secrets : List Str
  tunnelIds : List Str
  proxyNames : List Str
  publicPorts : List (Str × Port)
  publicPortNumbers : List Port
  backendPorts : List Port

def Seen.empty : Seen := ⟨[], [], [], [], [], [], [], []⟩

def Seen.insertTunnel (seen : Seen) (t : Tunnel) : Seen :=
  { seen with
    tunnelIds := t.id :: seen.tunnelIds
    proxyNames := t.proxyName :: seen.proxyNames
    publicPorts := t.publicKey :: seen.publicPorts
    publicPortNumbers := t.remotePort :: seen.publicPortNumbers
    backendPorts := t.backendPort :: seen.backendPorts }

def Seen.insertUser (seen : Seen) (account id secret : Str) : Seen :=
  { seen with
    accounts := account :: seen.accounts
    userIds := id :: seen.userIds
    secrets := secret :: seen.secrets }

/-- The body of the inner loop; a failed insertion aborts, so the insertions
can be made at its end.
mirrors crates/frp-game-server/src/storage.rs:830-854 -/
def checkTunnel (reserved : List Port) (seen : Seen) (tunnel : Tunnel) (d : Draws) :
    Except String (Seen × Tunnel × Draws) := do
  let name := proxyNameFor tunnel.id d
  let tunnel := { tunnel with proxyName := name.1 }
  bailIf (tunnel.id ∈ seen.tunnelIds ∨ tunnel.proxyName ∈ seen.proxyNames)
    ("隧道 ID 或代理标识重复：" ++ String.ofList tunnel.id)
  bailIf (tunnel.remotePort ∈ reserved) ("远程端口 " ++ toString tunnel.remotePort ++ " 是服务端保留端口。")
  bailIf (tunnel.publicKey ∈ seen.publicPorts)
    (String.ofList tunnel.protocol ++ " 远程端口 " ++ toString tunnel.remotePort ++ " 已被占用。")
  bailIf (tunnel.backendPort = 0 ∨ tunnel.backendPort ∈ reserved ∨ tunnel.backendPort ∈ seen.backendPorts)
    ("隧道 " ++ String.ofList tunnel.name ++ " 的后端端口无效或重复。")
  return (seen.insertTunnel tunnel, tunnel, name.2)

def checkTunnels (reserved : List Port) :
    Seen → List Tunnel → Draws → Except String (Seen × List Tunnel × Draws)
  | seen, [], d => .ok (seen, [], d)
  | seen, t :: ts, d => do
    let one ← checkTunnel reserved seen t d
    let rest ← checkTunnels reserved one.1 ts one.2.2
    return (rest.1, one.2.1 :: rest.2.1, rest.2.2)

section
variable (P : Primitives)

/-- A stored password must decrypt unless it is blank.
mirrors crates/frp-game-server/src/storage.rs:811-814 -/
def checkPassword (apiSalt account : Str) (user : ServerUser) : Except String Unit :=
  if isBlank user.passwordEncrypted then .ok ()
  else
    match decryptUserPassword P apiSalt user.secret user.passwordEncrypted with
    | .ok _ => .ok ()
    | .error _ => .error ("用户 " ++ String.ofList account ++ " 的加密密码无效。")

/-- The body of the outer loop.
mirrors crates/frp-game-server/src/storage.rs:788-855 -/
def checkUser (apiSalt : Str) (reserved : List Port) (seen : Seen) (user : ServerUser) (d : Draws) :
    Except String (Seen × ServerUser × Draws) := do
  let account := trim user.account
  let ident := if isBlank user.id then newUserId d else (user.id, d)
  bailIf (account = [] ∨ account ∈ seen.accounts) ("用户账号为空或重复：" ++ String.ofList account)
  bailIf (ident.1 ∈ seen.userIds) ("用户 ID 重复：" ++ String.ofList ident.1)
  bailIf (isBlank user.passwordHash = true) ("用户 " ++ String.ofList account ++ " 的密码摘要为空。")
  bailIf (utf8Len user.secret ≠ 36 ∨ user.secret.all Char.isAlphanum = false ∨ user.secret ∈ seen.secrets)
    ("用户 " ++ String.ofList account ++ " 的 36 位混合密钥无效或重复。")
  checkPassword P apiSalt account user
  bailIf (user.tunnelLimit > MAX_TUNNEL_LIMIT)
    ("用户 " ++ String.ofList account ++ " 的隧道限制超过最大值 " ++ toString MAX_TUNNEL_LIMIT ++ "。")
  bailIf (user.tunnels.length > MAX_TUNNELS_PER_USER)
    ("用户 " ++ String.ofList account ++ " 的隧道数量超过上限 " ++ toString MAX_TUNNELS_PER_USER ++ "。")
  let normalized ← (normalizeTunnels user.tunnels ident.2).mapError FrpGameError.text
  let checked ← checkTunnels reserved (seen.insertUser account ident.1 user.secret) normalized.1
    normalized.2
  return (checked.1, { user with account := account, id := ident.1, tunnels := checked.2.1 },
    checked.2.2)

def checkUsers (apiSalt : Str) (reserved : List Port) :
    Seen → List ServerUser → Draws → Except String (Seen × List ServerUser × Draws)
  | seen, [], d => .ok (seen, [], d)
  | seen, u :: us, d => do
    let one ← checkUser P apiSalt reserved seen u d
    let rest ← checkUsers apiSalt reserved one.1 us one.2.2
    return (rest.1, one.2.1 :: rest.2.1, rest.2.2)

/-- `users.sort_by(|left, right| left.account.cmp(&right.account))`. -/
def sortUsers (users : List ServerUser) : List ServerUser :=
  users.insertionSort fun left right => left.account ≤ right.account

/-- The checks before the loop.
mirrors crates/frp-game-server/src/storage.rs:757-777 -/
def checkSettings (config : ServerConfig) : Except String Unit := do
  bailIf (config.apiPort = 0 ∨ config.frpsBindPort = 0 ∨ config.pluginPort = 0) "服务端端口不能为 0。"
  bailIf (config.apiPort = config.frpsBindPort ∨ config.apiPort = config.pluginPort ∨
    config.frpsBindPort = config.pluginPort) "认证 API、FRPS 和控制插件端口不能重复。"
  bailIf (isBlank config.apiBind = true ∨ isBlank config.publicBind = true) "服务端监听地址不能为空。"
  match P.b64decode config.apiSalt with
  | none => .error "认证 API 盐值格式不正确。"
  | some salt =>
    bailIf (salt.length ≠ 32 ∨ isBlank config.frpsToken = true ∨ isBlank config.frpsBinary = true)
      "服务端认证参数不完整。"

/-- mirrors crates/frp-game-server/src/storage.rs:756-867 -/
def normalizeLoadedConfig (config : ServerConfig) (d : Draws) : Except String (ServerConfig × Draws) := do
  checkSettings P config
  let checked ← checkUsers P config.apiSalt config.reserved Seen.empty config.users d
  match checked.1.publicPortNumbers.find? (· ∈ checked.1.backendPorts) with
  | some port => .error ("公网端口 " ++ toString port ++ " 与 FRPS 本机后端端口冲突。")
  | none => return ({ config with users := sortUsers checked.2.1 }, checked.2.2)

end

/-! ## A small configuration to run the model on -/

def sampleTunnel (id : Str) (remotePort backendPort : Port) : Tunnel where
  id := id
  proxyName := fgPrefix ++ cleanedId id
  protocol := tcp
  name := id
  remark := id
  localIp := id
  localPort := 80
  remotePort := remotePort
  backendPort := backendPort

def sampleUser (account : Char) (tunnels : List Tunnel) : ServerUser where
  id := [account]
  account := [account]
  passwordHash := [account]
  passwordEncrypted := []
  secret := List.replicate 36 account
  tunnels := tunnels
  tunnelLimit := 256
  trafficLimitBytes := 0
  trafficUsedBytes := 0
  speedLimitMbps := 0
  trafficByProxy := ∅
  createdAt := 0
  updatedAt := 0

def sampleConfig (users : List ServerUser) : ServerConfig where
  revision := 1
  apiSalt := ['s']
  apiBind := ['h']
  apiPort := API_PORT
  frpsBindPort := FRPS_PORT
  frpsToken := ['t']
  frpsBinary := ['f']
  pluginPort := DEFAULT_PLUGIN_PORT
  publicBind := ['h']
  users := users
  createdAt := 0
  updatedAt := 0

/-- One user with one tunnel. -/
def oneTunnel : ServerConfig := sampleConfig [sampleUser 'a' [sampleTunnel ['x'] 5 20000]]

end OrangeFrp.Storage
