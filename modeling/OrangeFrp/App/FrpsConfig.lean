import OrangeFrp.Core.Escapes
import OrangeFrp.Common.Server
import OrangeFrp.Storage.Valid

/-!
# The configuration of frps (`frp-game-server/src/app.rs`)

`write_frps_config` writes `frps.toml`; the token goes through `toml_string`,
which is the JSON encoder. A JSON string may hold U+007F as it is and a TOML
string may not.

`serde_json::to_string` is the parameter `SerdeJson`; `SerdeJson.Lawful` is what
is documented of it on strings. Of the two `create_dir_all` and the atomic write
only the content is modelled.

* `frpsContent_lines`: no token adds a line to the file or takes one away.
* `token_carried_iff`: the value after `token = ` reads as the token, and as
  nothing else, exactly when the token has no U+007F.
-/
namespace OrangeFrp.App

open OrangeFrp.Core OrangeFrp.Storage

/-! ## The file -/

def LOG_DIR : Str := "/var/log/frp-game".toList

/-- `serde_json::to_string` of a `&str`. -/
structure SerdeJson where
  toString : Str → Option Str

/-- mirrors crates/frp-game-server/src/app.rs:1456-1458 -/
def tomlString (J : SerdeJson) (value : Str) : Str := (J.toString value).getD "\"\"".toList

/-- The array that is joined to `content`.
mirrors crates/frp-game-server/src/app.rs:1463-1486 -/
def frpsLines (J : SerdeJson) (config : ServerConfig) : List Str :=
  [ "bindAddr = \"0.0.0.0\"".toList,
    "bindPort = ".toList ++ decimal config.frpsBindPort,
    "proxyBindAddr = \"127.0.0.1\"".toList,
    [],
    "[auth]".toList,
    "method = \"token\"".toList,
    "token = ".toList ++ tomlString J config.frpsToken,
    [],
    "[[httpPlugins]]".toList,
    "name = \"orange-control\"".toList,
    "addr = \"127.0.0.1:".toList ++ decimal config.pluginPort ++ "\"".toList,
    "path = \"/handler\"".toList,
    "ops = [\"Login\", \"NewProxy\", \"CloseProxy\"]".toList,
    [],
    "[log]".toList,
    "to = ".toList ++ tomlString J (LOG_DIR ++ "/frps.log".toList),
    "level = \"info\"".toList,
    "maxDays = 7".toList,
    [] ]

/-- mirrors crates/frp-game-server/src/app.rs:1463-1487 -/
def frpsContent (J : SerdeJson) (config : ServerConfig) : Str := ['\n'].intercalate (frpsLines J config)

/-! ## What is documented of the encoder -/

/-- `"`, `\` and the control characters below U+0020 are escaped, the others written as they are. -/
structure SerdeJson.Lawful (J : SerdeJson) : Prop where
  quoted : ∀ value, ∃ written, J.toString value = some written ∧ Quoted JsonBody written value

theorem SerdeJson.Lawful.tomlString_eq {J : SerdeJson} (hJ : J.Lawful) (value : Str) :
    ∃ inner, tomlString J value = '"' :: (inner ++ ['"']) ∧ JsonBody inner value := by
  obtain ⟨written, hwritten, inner, rfl, hbody⟩ := hJ.quoted value
  exact ⟨inner, by rw [tomlString, hwritten, Option.getD_some], hbody⟩

theorem SerdeJson.Lawful.one_line {J : SerdeJson} (hJ : J.Lawful) (value : Str) :
    '\n' ∉ tomlString J value := by
  obtain ⟨inner, heq, hbody⟩ := hJ.tomlString_eq value
  rw [heq]
  simp [hbody.one_line]

/-- A JSON string is a TOML string, of the same text and no other, if the text has no U+007F. -/
theorem SerdeJson.Lawful.toml_iff {J : SerdeJson} (hJ : J.Lawful) (value : Str) :
    (∀ text, Quoted TomlBody (tomlString J value) text ↔ text = value) ↔ '\x7f' ∉ value := by
  obtain ⟨inner, heq, hbody⟩ := hJ.tomlString_eq value
  simp only [heq, quoted_iff]
  rw [← hbody.toml_iff]
  refine ⟨?_, ?_⟩
  · intro h
    exact (h value).2 rfl
  · intro h text
    refine ⟨?_, ?_⟩
    · intro htext
      exact htext.unique h
    · intro htext
      rw [htext]
      exact h

/-! ## The lines -/

theorem decimal_one_line (port : Port) : '\n' ∉ decimal port := by
  intro hmem
  exact absurd (decimal_plain port '\n' hmem).1 (by decide)

/-- **A token stays on its line.** -/
theorem frpsContent_lines {J : SerdeJson} (hJ : J.Lawful) (config : ServerConfig) :
    (frpsContent J config).splitOn '\n' = frpsLines J config := by
  refine List.splitOn_intercalate '\n' ?_ (by simp [frpsLines])
  simp [frpsLines, decimal_one_line, hJ.one_line]

/-! ## The token -/

/-- The lines before the token's. -/
def linesBefore (frpsBindPort : Port) : List Str :=
  [ "bindAddr = \"0.0.0.0\"".toList,
    "bindPort = ".toList ++ decimal frpsBindPort,
    "proxyBindAddr = \"127.0.0.1\"".toList,
    [],
    "[auth]".toList,
    "method = \"token\"".toList ]

/-- The lines after the token's. -/
def linesAfter (J : SerdeJson) (pluginPort : Port) : List Str :=
  [ [],
    "[[httpPlugins]]".toList,
    "name = \"orange-control\"".toList,
    "addr = \"127.0.0.1:".toList ++ decimal pluginPort ++ "\"".toList,
    "path = \"/handler\"".toList,
    "ops = [\"Login\", \"NewProxy\", \"CloseProxy\"]".toList,
    [],
    "[log]".toList,
    "to = ".toList ++ tomlString J (LOG_DIR ++ "/frps.log".toList),
    "level = \"info\"".toList,
    "maxDays = 7".toList,
    [] ]

/-- The file has the same lines around every token, and the value on the token's line is a basic
string that reads as the token and as nothing else. -/
structure TokenCarried (J : SerdeJson) (config : ServerConfig) (token : Str) : Prop where
  lines : (frpsContent J config).splitOn '\n' = linesBefore config.frpsBindPort ++
    ("token = ".toList ++ tomlString J token) :: linesAfter J config.pluginPort
  value : ∀ text, Quoted TomlBody (tomlString J token) text ↔ text = token

/-- **The token is carried** if and only if it has no U+007F. -/
theorem token_carried_iff {J : SerdeJson} (hJ : J.Lawful) {P : Primitives} {config : ServerConfig}
    {d : Draws} {r : ServerConfig × Draws} (h : normalizeLoadedConfig P config d = .ok r) :
    TokenCarried J r.1 config.frpsToken ↔ '\x7f' ∉ config.frpsToken := by
  have htoken : r.1.frpsToken = config.frpsToken := by rw [(normalize_valid P h).2]
  rw [← htoken, ← hJ.toml_iff]
  refine ⟨?_, ?_⟩
  · intro hcarried
    exact hcarried.value
  · intro hvalue
    exact ⟨frpsContent_lines hJ r.1, hvalue⟩

/-! ## Two tokens -/

/-- The encoder that `serde_json` is. -/
def serdeJson : SerdeJson where
  toString value := some (jsonString value)

theorem serdeJson_lawful : serdeJson.Lawful := ⟨fun value => ⟨_, rfl, jsonString_quoted value⟩⟩

def withToken (token : Str) : ServerConfig := { sampleConfig [] with frpsToken := token }

/-- A quotation mark, a backslash, a line feed, a tab, a control character and an `é`. -/
def hostileToken : Str := ['"', '\\', '\n', '\t', '\x01', 'é']

theorem hostile_token_carried : ∃ d', normalizeLoadedConfig .plain (withToken hostileToken) Draws.constant =
      .ok (withToken hostileToken, d') ∧
    TokenCarried serdeJson (withToken hostileToken) hostileToken := by
  obtain ⟨d', hn⟩ := exists_of_fst (show (normalizeLoadedConfig .plain (withToken hostileToken)
    Draws.constant).toOption.map Prod.fst = some (withToken hostileToken) by decide +kernel)
  exact ⟨d', hn, (token_carried_iff serdeJson_lawful hn).2 (by decide)⟩

def deleteToken : Str := ['a', '\x7f']

/-- **A token that frps cannot read.** It is accepted, and its value is no basic string. -/
theorem delete_token_unreadable : ∃ d', normalizeLoadedConfig .plain (withToken deleteToken) Draws.constant =
      .ok (withToken deleteToken, d') ∧
    serdeJson.Lawful ∧ (∀ text, ¬ Quoted TomlBody (tomlString serdeJson deleteToken) text) ∧
    ¬ TokenCarried serdeJson (withToken deleteToken) deleteToken := by
  obtain ⟨d', hn⟩ := exists_of_fst (show (normalizeLoadedConfig .plain (withToken deleteToken)
    Draws.constant).toOption.map Prod.fst = some (withToken deleteToken) by decide +kernel)
  have hunreadable : ∀ text, ¬ Quoted TomlBody (tomlString serdeJson deleteToken) text := by
    intro text hquoted
    have hbody : TomlBody ['a', '\x7f'] text := quoted_iff.1 hquoted
    exact hbody.no_delete (by decide)
  exact ⟨d', hn, serdeJson_lawful, hunreadable, fun hcarried => hunreadable _ ((hcarried.value _).2 rfl)⟩

end OrangeFrp.App
