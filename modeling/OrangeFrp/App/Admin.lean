import OrangeFrp.Storage.Store

/-!
# Administration commands (`frp-game-server/src/app.rs`)

Every command reads the stored configuration, changes a copy, and saves the
copy. The prompts are left out: an index stands for the user they select, and
the values are those they return. Byte counts are taken after `gb_to_bytes`,
which computes in doubles.
-/
namespace OrangeFrp.App

open OrangeFrp.Core OrangeFrp.Storage

/-- `char::is_control`: the Unicode category `Cc`. -/
def isControl (c : Char) : Bool := c.toNat < 0x20 || (0x7F ≤ c.toNat && c.toNat < 0xA0)

/-- mirrors crates/frp-game-server/src/app.rs:828-830 -/
def accountExists (c : ServerConfig) (account : Str) : Bool :=
  c.users.any fun u => u.account = account

/-- mirrors crates/frp-game-server/src/app.rs:832-838 -/
def validateAccount (account : Str) : Except String Unit :=
  bailIf (¬ (1 ≤ account.length ∧ account.length ≤ 64) ∨ account.any isControl = true)
    "账号必须为 1-64 个字符且不能包含控制字符。"

/-- mirrors crates/frp-game-server/src/app.rs:840-846 -/
def validatePassword (password : Str) : Except String Unit :=
  bailIf (¬ (8 ≤ password.length ∧ password.length ≤ 128) ∨ password.any isControl = true)
    "密码必须为 8-128 个字符且不能包含控制字符。"

/-- mirrors crates/frp-game-server/src/app.rs:848-853 -/
def validateTunnelLimit (limit : Nat) : Except String Unit :=
  bailIf (limit > MAX_TUNNEL_LIMIT) ("隧道数量限制必须在 0-" ++ toString MAX_TUNNEL_LIMIT ++ " 之间。")

/-- The values of a new user; the secret comes from `random_secret`. -/
structure NewUser where
  account : Str
  password : Str
  trafficLimitBytes : Nat
  speedLimitMbps : Nat
  tunnelLimit : Nat
  secret : Str

/-- The values of a new installation; salt and token are random. -/
structure NewServer where
  apiBind : Str
  apiPort : Port
  frpsPort : Port
  frpsBinary : Str
  apiSalt : Str
  frpsToken : Str

inductive Command where
  | addUser (new : NewUser)
  | deleteUser (index : Nat)
  | changeAccount (index : Nat) (account : Str)
  | changePassword (index : Nat) (password : Str)
  | rotateKey (index : Nat) (secret : Str)
  | setTrafficLimit (index : Nat) (bytes : Nat)
  | setTrafficUsed (index : Nat) (bytes : Nat)
  | setSpeedLimit (index : Nat) (mbps : Nat)
  | setTunnelLimit (index : Nat) (limit : Nat)
  | setup (apiBind : Str) (apiPort frpsPort : Port) (frpsBinary : Str)

/-- mirrors crates/frp-game-server/src/app.rs:385-406 -/
def newConfig (new : NewServer) (now : Int) : ServerConfig where
  revision := 0
  apiSalt := new.apiSalt
  apiBind := new.apiBind
  apiPort := new.apiPort
  frpsBindPort := new.frpsPort
  frpsToken := new.frpsToken
  frpsBinary := new.frpsBinary
  pluginPort := DEFAULT_PLUGIN_PORT
  publicBind := DEFAULT_PUBLIC_BIND
  users := []
  createdAt := now
  updatedAt := now

/-- Changes the user at the index, and the times. -/
def editUser (c : ServerConfig) (index : Nat) (now : Int)
    (edit : ServerUser → Except String ServerUser) : Except String ServerConfig :=
  match c.users[index]? with
  | none => .error "index out of bounds"
  | some u => do
    let u ← edit u
    return { c with users := c.users.set index { u with updatedAt := now }, updatedAt := now }

section
variable (P : Primitives) (c : ServerConfig) (now : Int) (e : Entropy)

/-- mirrors crates/frp-game-server/src/app.rs:949-1010 -/
def commandAddUser (new : NewUser) : Except String ServerConfig := do
  let account := trim new.account
  validateAccount account
  bailIf (accountExists c account = true) ("账号已存在：" ++ String.ofList account)
  bailIf (new.password = []) "密码不能为空。"
  validatePassword new.password
  validateTunnelLimit new.tunnelLimit
  let passwordHash ← hashPassword P new.password e.salts.head
  let passwordEncrypted ← encryptUserPassword P c.apiSalt new.secret new.password e.nonces.head
  let user : ServerUser := {
    id := (newUserId e.uuids).1
    account := account
    passwordHash := passwordHash
    passwordEncrypted := passwordEncrypted
    secret := new.secret
    tunnels := []
    tunnelLimit := new.tunnelLimit
    trafficLimitBytes := new.trafficLimitBytes
    trafficUsedBytes := 0
    speedLimitMbps := new.speedLimitMbps
    trafficByProxy := ∅
    createdAt := now
    updatedAt := now }
  return { c with users := c.users ++ [user], updatedAt := now }

/-- mirrors crates/frp-game-server/src/app.rs:1244-1253 -/
def commandDeleteUser (index : Nat) : Except String ServerConfig :=
  if index < c.users.length then .ok { c with users := c.users.eraseIdx index, updatedAt := now }
  else .error "index out of bounds"

/-- mirrors crates/frp-game-server/src/app.rs:1264-1284 -/
def commandChangeAccount (index : Nat) (account : Str) : Except String ServerConfig := do
  let account := trim account
  validateAccount account
  bailIf ((c.users.eraseIdx index).any (fun u => u.account = account) = true) "账号已存在，请换一个账号。"
  editUser c index now fun u => .ok { u with account := account }

/-- mirrors crates/frp-game-server/src/app.rs:1295-1305 -/
def commandChangePassword (index : Nat) (password : Str) : Except String ServerConfig := do
  validatePassword password
  editUser c index now fun u => do
    let passwordEncrypted ← encryptUserPassword P c.apiSalt u.secret password e.nonces.head
    let passwordHash ← hashPassword P password e.salts.head
    return { u with passwordEncrypted := passwordEncrypted, passwordHash := passwordHash }

/-- mirrors crates/frp-game-server/src/app.rs:1321-1337 -/
def commandRotateKey (index : Nat) (secret : Str) : Except String ServerConfig :=
  editUser c index now fun u => do
    let password ← decryptUserPassword P c.apiSalt u.secret u.passwordEncrypted
    match password with
    | none => return { u with passwordEncrypted := [], secret := secret }
    | some password => do
      let passwordEncrypted ← encryptUserPassword P c.apiSalt secret password e.nonces.head
      return { u with passwordEncrypted := passwordEncrypted, secret := secret }

/-- mirrors crates/frp-game-server/src/app.rs:1130-1154 -/
def commandSetTrafficLimit (index bytes : Nat) : Except String ServerConfig :=
  editUser c index now fun u => .ok { u with trafficLimitBytes := bytes }

/-- mirrors crates/frp-game-server/src/app.rs:1156-1180 -/
def commandSetTrafficUsed (index bytes : Nat) : Except String ServerConfig :=
  editUser c index now fun u => .ok { u with trafficUsedBytes := bytes }

/-- mirrors crates/frp-game-server/src/app.rs:1182-1206 -/
def commandSetSpeedLimit (index mbps : Nat) : Except String ServerConfig :=
  editUser c index now fun u => .ok { u with speedLimitMbps := mbps }

/-- mirrors crates/frp-game-server/src/app.rs:1208-1238 -/
def commandSetTunnelLimit (index limit : Nat) : Except String ServerConfig := do
  validateTunnelLimit limit
  editUser c index now fun u => .ok { u with tunnelLimit := limit }

/-- mirrors crates/frp-game-server/src/app.rs:771-776 -/
def commandSetup (apiBind : Str) (apiPort frpsPort : Port) (frpsBinary : Str) : ServerConfig :=
  { c with
    apiBind := apiBind
    apiPort := apiPort
    frpsBindPort := frpsPort
    frpsBinary := frpsBinary
    updatedAt := now }

/-- What a command makes of the configuration it has read. -/
def Command.apply : Command → Except String ServerConfig
  | .addUser new => commandAddUser P c now e new
  | .deleteUser index => commandDeleteUser c now index
  | .changeAccount index account => commandChangeAccount c now index account
  | .changePassword index password => commandChangePassword P c now e index password
  | .rotateKey index secret => commandRotateKey P c now e index secret
  | .setTrafficLimit index bytes => commandSetTrafficLimit c now index bytes
  | .setTrafficUsed index bytes => commandSetTrafficUsed c now index bytes
  | .setSpeedLimit index mbps => commandSetSpeedLimit c now index mbps
  | .setTunnelLimit index limit => commandSetTunnelLimit c now index limit
  | .setup apiBind apiPort frpsPort frpsBinary =>
    .ok (commandSetup c now apiBind apiPort frpsPort frpsBinary)

end

end OrangeFrp.App
