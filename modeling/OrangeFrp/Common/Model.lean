import Mathlib.Data.Stream.Init
import OrangeFrp.Common.Text

/-!
# Tunnels (`frp-game-common/src/model.rs`)

The tunnel record, the proxy name derived from a tunnel id, and
`normalize_tunnels`, the validation that both the API and the store run on a
tunnel list.

`Uuid::new_v4` is a stream of draws that the functions consume from the front
(`Draws`); nothing is assumed about the values beyond their format, 32 lower
case hex digits.

* `proxyNameFor`: `fg-` and the cleaned id. An id with no letter, digit or
  underscore (`DashOnly`) has an empty cleaned form and gets a fresh random
  name at every call.
* `normalizeTunnels_wellFormed`: what the validation accepts is well formed
  (`TunnelsOk`).
* `normalizeTunnels_self`: on a well formed list it changes and draws nothing.
-/
namespace OrangeFrp

abbrev Port := UInt16

instance : LawfulBEq (Str × Port) := inferInstance

def isLowerHex (c : Char) : Bool := c.isDigit || ('a' ≤ c && c ≤ 'f')

theorem isLowerHex_iff (c : Char) : isLowerHex c = true ↔
    48 ≤ c.toNat ∧ c.toNat ≤ 57 ∨ 97 ≤ c.toNat ∧ c.toNat ≤ 102 := by
  simp only [isLowerHex, Char.isDigit, Bool.or_eq_true, Bool.and_eq_true, decide_eq_true_eq,
    ge_iff_le, UInt32.le_iff_toNat_le, Char.le_def]
  rfl

/-- `Uuid::new_v4().simple()`. -/
structure Uuid where
  simple : Str
  length_eq : simple.length = 32
  hex : ∀ c ∈ simple, isLowerHex c = true

/-- The identifier made of one digit. -/
def Uuid.ofDigit (c : Char) (h : isLowerHex c = true) : Uuid where
  simple := List.replicate 32 c
  length_eq := List.length_replicate
  hex := fun _ hd => (List.eq_of_mem_replicate hd).symm ▸ h

/-- The random identifiers still to be drawn. -/
abbrev Draws := Stream' Uuid

/-- One value over and over. -/
def Draws.constant : Draws := fun _ => .ofDigit 'e' rfl

/-- mirrors crates/frp-game-common/src/model.rs:143-145 -/
def newTunnelId (d : Draws) : Str × Draws := (d.head.simple.take 12, d.tail)

/-- mirrors crates/frp-game-common/src/lib.rs:14-17 -/
def API_PORT : Port := 7631
def FRPS_PORT : Port := 7000
def DEFAULT_TUNNEL_LIMIT : Nat := 256
def MAX_TUNNEL_LIMIT : Nat := 256

def tcp : Str := ['T', 'C', 'P']
def udp : Str := ['U', 'D', 'P']
def fgPrefix : Str := ['f', 'g', '-']

/-- mirrors crates/frp-game-common/src/model.rs:13-33 -/
inductive FrpGameError where
  | emptyServer
  | invalidServer
  | invalidProtocol
  | missingTunnelField
  | controlCharacter
  | tunnelFieldTooLong
  | invalidPort
  | duplicateName (name : Str)
  | duplicateRemotePort (protocol : Str) (port : Port)
  deriving DecidableEq

def FrpGameError.text : FrpGameError → String
  | .emptyServer => "请填写服务器IP。"
  | .invalidServer => "服务器IP格式不正确。"
  | .invalidProtocol => "协议只能选择 TCP 或 UDP。"
  | .missingTunnelField => "请完整填写所有字段。"
  | .controlCharacter => "隧道信息不能包含控制字符。"
  | .tunnelFieldTooLong => "隧道名、备注或本地地址过长。"
  | .invalidPort => "端口必须是 1-65535 的数字。"
  | .duplicateName name => "隧道名已存在：" ++ String.ofList name
  | .duplicateRemotePort protocol port =>
    String.ofList protocol ++ " 远程端口已存在：" ++ toString port

/-- mirrors crates/frp-game-common/src/model.rs:35-47 -/
structure Tunnel where
  id : Str
  proxyName : Str
  protocol : Str
  name : Str
  remark : Str
  localIp : Str
  localPort : Port
  remotePort : Port
  backendPort : Port
  deriving DecidableEq

/-! ## Proxy names -/

/-- The id with every character other than a letter, digit, `_` or `-`
replaced by `-`, and the outer dashes dropped.
mirrors crates/frp-game-common/src/model.rs:148-159 -/
def cleanedId (tunnelId : Str) : Str :=
  trimBy (· == '-') (tunnelId.map fun ch => if ch.isAlphanum || ch == '_' || ch == '-' then ch else '-')

/-- mirrors crates/frp-game-common/src/model.rs:147-165 -/
def proxyNameFor (tunnelId : Str) (d : Draws) : Str × Draws :=
  if cleanedId tunnelId = [] then
    let (fresh, d) := newTunnelId d
    (fgPrefix ++ fresh, d)
  else (fgPrefix ++ cleanedId tunnelId, d)

/-- Nothing is left of the id once it is cleaned. -/
def DashOnly (tunnelId : Str) : Prop := cleanedId tunnelId = []

instance (tunnelId : Str) : Decidable (DashOnly tunnelId) :=
  inferInstanceAs (Decidable (cleanedId tunnelId = []))

/-- The name is one that `proxyNameFor` can give the id. -/
def NameFor (tunnelId name : Str) : Prop :=
  if DashOnly tunnelId then ∃ u : Uuid, name = fgPrefix ++ u.simple.take 12
  else name = fgPrefix ++ cleanedId tunnelId

theorem proxyNameFor_nameFor (tunnelId : Str) (d : Draws) :
    NameFor tunnelId (proxyNameFor tunnelId d).1 := by
  unfold NameFor proxyNameFor DashOnly
  split
  · exact ⟨d.head, rfl⟩
  · rfl

theorem proxyNameFor_of_clean {tunnelId : Str} (h : ¬ DashOnly tunnelId) (d : Draws) :
    proxyNameFor tunnelId d = (fgPrefix ++ cleanedId tunnelId, d) := if_neg h

theorem proxyNameFor_of_dash {tunnelId : Str} (h : DashOnly tunnelId) (d : Draws) :
    proxyNameFor tunnelId d = (fgPrefix ++ d.head.simple.take 12, d.tail) := if_pos h

/-- For every name there is a draw that gives another one. -/
theorem exists_other_name (name : Str) : ∃ x : Uuid, name ≠ fgPrefix ++ x.simple.take 12 := by
  by_cases h : name = fgPrefix ++ List.replicate 12 'a'
  · exact ⟨.ofDigit 'b' rfl, by rw [h]; decide⟩
  · exact ⟨.ofDigit 'a' rfl, h⟩

theorem NameFor.eq_of_clean {tunnelId name : Str} (h : NameFor tunnelId name)
    (hc : ¬ DashOnly tunnelId) : name = fgPrefix ++ cleanedId tunnelId := by
  unfold NameFor at h
  rwa [if_neg hc] at h

theorem isBlank_fg (s : Str) : isBlank (fgPrefix ++ s) = false := by
  rw [Bool.eq_false_iff, Ne, isBlank_iff]
  intro h
  exact absurd (h 'f' (by simp [fgPrefix])) (by decide)

theorem NameFor.not_blank {tunnelId name : Str} (h : NameFor tunnelId name) :
    isBlank name = false := by
  unfold NameFor at h
  split at h
  · obtain ⟨u, rfl⟩ := h; exact isBlank_fg _
  · subst h; exact isBlank_fg _

/-! ## `normalize_tunnels` -/

/-- mirrors crates/frp-game-common/src/model.rs:167-169 -/
def isValidPort (value : Port) : Bool := value > 0

/-- The rewriting half of the loop body: trims, upper-cases, and fills a blank
id or proxy name.
mirrors crates/frp-game-common/src/model.rs:236-247 -/
def normalizeItem (tunnel : Tunnel) (d : Draws) : Tunnel × Draws :=
  let (id, d) := if isBlank tunnel.id then newTunnelId d else (tunnel.id, d)
  let (proxyName, d) := if isBlank tunnel.proxyName then proxyNameFor id d else (tunnel.proxyName, d)
  ({ tunnel with
      id := id
      proxyName := proxyName
      protocol := toAsciiUppercase (trim tunnel.protocol)
      name := trim tunnel.name
      remark := trim tunnel.remark
      localIp := trim tunnel.localIp }, d)

/-- The checks of the loop body before the two set insertions.
mirrors crates/frp-game-common/src/model.rs:248-271 -/
def checkItem (item : Tunnel) : Except FrpGameError Unit :=
  if item.protocol ≠ tcp ∧ item.protocol ≠ udp then .error .invalidProtocol
  else if item.name = [] ∨ item.remark = [] ∨ item.localIp = [] then .error .missingTunnelField
  else if item.name.length > 64 ∨ item.remark.length > 256 ∨ item.localIp.length > 255 then
    .error .tunnelFieldTooLong
  else if (item.name ++ item.remark ++ item.localIp).any (· < ' ') then .error .controlCharacter
  else if !isValidPort item.localPort || !isValidPort item.remotePort then .error .invalidPort
  else .ok ()

/-- The loop, with the sets `names` and `remote_ports` as lists.
mirrors crates/frp-game-common/src/model.rs:235-283 -/
def normalizeTunnelsFrom (names : List Str) (remotePorts : List (Str × Port)) :
    List Tunnel → Draws → Except FrpGameError (List Tunnel × Draws)
  | [], d => .ok ([], d)
  | tunnel :: rest, d =>
    let (item, d) := normalizeItem tunnel d
    match checkItem item with
    | .error e => .error e
    | .ok () =>
      if item.name ∈ names then .error (.duplicateName item.name)
      else if (item.protocol, item.remotePort) ∈ remotePorts then
        .error (.duplicateRemotePort item.protocol item.remotePort)
      else
        match normalizeTunnelsFrom (item.name :: names)
            ((item.protocol, item.remotePort) :: remotePorts) rest d with
        | .error e => .error e
        | .ok (items, d) => .ok (item :: items, d)

/-- mirrors crates/frp-game-common/src/model.rs:230-286 -/
def normalizeTunnels (tunnels : List Tunnel) (d : Draws) :
    Except FrpGameError (List Tunnel × Draws) :=
  normalizeTunnelsFrom [] [] tunnels d

/-! ## Well-formed tunnels -/

/-- What the loop body leaves in one tunnel. -/
structure TunnelOk (t : Tunnel) : Prop where
  id : isBlank t.id = false
  proxyName : isBlank t.proxyName = false
  protocol : t.protocol = tcp ∨ t.protocol = udp
  name_trim : trim t.name = t.name
  remark_trim : trim t.remark = t.remark
  localIp_trim : trim t.localIp = t.localIp
  checked : checkItem t = .ok ()

def Tunnel.publicKey (t : Tunnel) : Str × Port := (t.protocol, t.remotePort)

/-- A list that `normalize_tunnels` accepts and leaves alone. -/
structure TunnelsOk (ts : List Tunnel) : Prop where
  each : ∀ t ∈ ts, TunnelOk t
  names : (ts.map (·.name)).Nodup
  ports : (ts.map Tunnel.publicKey).Nodup

theorem checkItem_protocol {item : Tunnel} (h : checkItem item = .ok ()) :
    item.protocol = tcp ∨ item.protocol = udp := by
  unfold checkItem at h
  split at h
  · cases h
  · rename_i hp
    by_contra hne
    push Not at hne
    exact hp hne

/-- A nonempty piece of a drawn identifier is not blank: no hex digit is white space. -/
theorem draw_not_blank (d : Draws) (n : Nat) (hn : 0 < n) :
    isBlank (d.head.simple.take n) = false := by
  rw [Bool.eq_false_iff, Ne, isBlank_iff]
  intro h
  have hlen := d.head.length_eq
  cases hs : d.head.simple with
  | nil => simp [hs] at hlen
  | cons c cs =>
    have hc : c ∈ d.head.simple.take n := by
      rw [hs]
      obtain ⟨m, rfl⟩ : ∃ m, n = m + 1 := ⟨n - 1, by omega⟩
      simp
    have hw := h c hc
    have hx := d.head.hex c (by simp [hs])
    rw [isLowerHex_iff] at hx
    simp only [isWhitespace, Bool.or_eq_true, Bool.and_eq_true, decide_eq_true_eq,
      beq_iff_eq] at hw
    omega

theorem newTunnelId_not_blank (d : Draws) : isBlank (newTunnelId d).1 = false :=
  draw_not_blank d 12 (by decide)

theorem normalizeItem_ok {tunnel item : Tunnel} {d d' : Draws}
    (h : normalizeItem tunnel d = (item, d')) (hc : checkItem item = .ok ()) : TunnelOk item := by
  have hid : isBlank item.id = false := by
    unfold normalizeItem at h
    cases hb : isBlank tunnel.id <;> simp only [hb, if_true, if_false, Bool.false_eq_true] at h <;>
      obtain ⟨rfl, -⟩ := Prod.mk.inj h
    · exact hb
    · exact newTunnelId_not_blank d
  have hpn : isBlank item.proxyName = false := by
    unfold normalizeItem at h
    cases hb : isBlank tunnel.proxyName <;>
      simp only [hb, if_true, if_false, Bool.false_eq_true] at h <;>
      obtain ⟨rfl, -⟩ := Prod.mk.inj h
    · exact hb
    · exact (proxyNameFor_nameFor _ _).not_blank
  refine ⟨hid, hpn, checkItem_protocol hc, ?_, ?_, ?_, hc⟩
  all_goals
    unfold normalizeItem at h
    obtain ⟨rfl, -⟩ := Prod.mk.inj h
    exact trim_trim _

/-- A well-formed tunnel passes through unchanged, with nothing drawn. -/
theorem normalizeItem_self {t : Tunnel} (h : TunnelOk t) (d : Draws) :
    normalizeItem t d = (t, d) := by
  have hp : toAsciiUppercase (trim t.protocol) = t.protocol := by
    rcases h.protocol with e | e <;> rw [e] <;> decide
  unfold normalizeItem
  simp only [h.id, h.proxyName, Bool.false_eq_true, if_false, h.name_trim, h.remark_trim,
    h.localIp_trim, hp]

theorem normalizeTunnelsFrom_ok {names : List Str} {ports : List (Str × Port)} {ts items : List Tunnel}
    {d d' : Draws} (h : normalizeTunnelsFrom names ports ts d = .ok (items, d')) :
    TunnelsOk items ∧ items.length = ts.length ∧ (∀ t ∈ items, t.name ∉ names) ∧
      (∀ t ∈ items, t.publicKey ∉ ports) := by
  induction ts generalizing names ports d d' items with
  | nil =>
    simp only [normalizeTunnelsFrom, Except.ok.injEq, Prod.mk.injEq] at h
    obtain ⟨rfl, -⟩ := h
    exact ⟨⟨by simp, by simp, by simp⟩, rfl, by simp, by simp⟩
  | cons t ts ih =>
    rw [normalizeTunnelsFrom] at h
    split at h
    rename_i item d₁ hitem
    split at h
    · cases h
    rename_i hc
    split at h
    · cases h
    rename_i hname
    split at h
    · cases h
    rename_i hport
    split at h
    · cases h
    rename_i rest d₂ hrest
    simp only [Except.ok.injEq, Prod.mk.injEq] at h
    obtain ⟨rfl, -⟩ := h
    obtain ⟨⟨he, hn, hp⟩, hlen, hnn, hpp⟩ := ih hrest
    refine ⟨⟨?_, ?_, ?_⟩, by simp [hlen], ?_, ?_⟩
    · intro x hx
      rcases List.mem_cons.1 hx with rfl | hx
      · exact normalizeItem_ok hitem hc
      · exact he x hx
    · rw [List.map_cons, List.nodup_cons]
      refine ⟨fun hm => ?_, hn⟩
      obtain ⟨x, hx, hxe⟩ := List.mem_map.1 hm
      exact hnn x hx (by simp [hxe])
    · rw [List.map_cons, List.nodup_cons]
      refine ⟨fun hm => ?_, hp⟩
      obtain ⟨x, hx, hxe⟩ := List.mem_map.1 hm
      exact hpp x hx (by rw [hxe]; exact List.mem_cons_self)
    · intro x hx
      rcases List.mem_cons.1 hx with rfl | hx
      · exact hname
      · exact fun hm => hnn x hx (List.mem_cons_of_mem _ hm)
    · intro x hx
      rcases List.mem_cons.1 hx with rfl | hx
      · exact hport
      · exact fun hm => hpp x hx (List.mem_cons_of_mem _ hm)

theorem normalizeTunnels_wellFormed {ts items : List Tunnel} {d d' : Draws}
    (h : normalizeTunnels ts d = .ok (items, d')) : TunnelsOk items ∧ items.length = ts.length :=
  have := normalizeTunnelsFrom_ok h
  ⟨this.1, this.2.1⟩

theorem normalizeTunnelsFrom_self {ts : List Tunnel} (names : List Str) (ports : List (Str × Port))
    (d : Draws) (h : TunnelsOk ts) (hn : ∀ t ∈ ts, t.name ∉ names)
    (hp : ∀ t ∈ ts, t.publicKey ∉ ports) :
    normalizeTunnelsFrom names ports ts d = .ok (ts, d) := by
  induction ts generalizing names ports with
  | nil => rfl
  | cons t ts ih =>
    obtain ⟨he, hnd, hpd⟩ := h
    simp only [List.map_cons, List.nodup_cons, List.mem_map, not_exists, not_and] at hnd hpd
    have ht := he t List.mem_cons_self
    have hrest : TunnelsOk ts := ⟨fun x hx => he x (List.mem_cons_of_mem _ hx), hnd.2, hpd.2⟩
    have hn' : ∀ x ∈ ts, x.name ∉ t.name :: names := by
      intro x hx hm
      rcases List.mem_cons.1 hm with e | hm
      · exact hnd.1 x hx e
      · exact hn x (List.mem_cons_of_mem _ hx) hm
    have hp' : ∀ x ∈ ts, x.publicKey ∉ (t.protocol, t.remotePort) :: ports := by
      intro x hx hm
      rcases List.mem_cons.1 hm with e | hm
      · exact hpd.1 x hx e
      · exact hp x (List.mem_cons_of_mem _ hx) hm
    rw [normalizeTunnelsFrom, normalizeItem_self ht d]
    simp only [ht.checked, if_neg (hn t List.mem_cons_self)]
    rw [if_neg (show (t.protocol, t.remotePort) ∉ ports from hp t List.mem_cons_self),
      ih _ _ hrest hn' hp']

/-- **Stability.** A well-formed list is accepted and returned as it is. -/
theorem normalizeTunnels_self {ts : List Tunnel} (h : TunnelsOk ts) (d : Draws) :
    normalizeTunnels ts d = .ok (ts, d) :=
  normalizeTunnelsFrom_self [] [] d h (by simp) (by simp)

end OrangeFrp
