import Mathlib
import OrangeFrp.Core.Except
import OrangeFrp.Common.Model

/-!
# Server addresses (`frp-game-common/src/model.rs`)

`normalize_server` reads an address with the `url` crate and writes it out in
three ways. The crate reports no port where none is typed, and none either where
the typed one is that of the scheme; the function takes both for `API_PORT`.

`Url::parse` is the parameter `UrlCrate`. Only URLs that are a host, or a host
and a port, occur below; `UrlCrate.Lawful` says of them what the crate documents.

* `serverOfUrl_host`: the three renderings of a host and a port.
* `port_respected_iff`: a typed port is kept, and what is returned gives the same
  again, exactly when the port is not 80.
-/
namespace OrangeFrp

open OrangeFrp.Core

/-! ## The url crate -/

/-- `Url::host_str` and `Url::port`. -/
structure Url where
  host : Option Str
  port : Option Port
  deriving DecidableEq

/-- `Url::parse`. -/
structure UrlCrate where
  parse : Str → Option Url

def http : Str := ['h', 't', 't', 'p', ':', '/', '/']

/-- A port as it is written, `{port}`. -/
def decimal (port : Port) : Str := Nat.toDigits 10 port.toNat

def withPort (host : Str) (port : Port) : Str := host ++ ':' :: decimal port

/-! ## The function -/

/-- mirrors crates/frp-game-common/src/model.rs:205-227 -/
def serverOfUrl (url : Url) : Except FrpGameError (Str × Str × Port × Str) :=
  match url.host with
  | none => .error .invalidServer
  | some hostStr =>
    let host := (hostStr.dropWhile (· == '[')).rdropWhile (· == ']')
    let port := url.port.getD API_PORT
    let formattedHost := if ':' ∈ host then '[' :: (host ++ [']']) else host
    let display := if port = API_PORT then formattedHost else withPort formattedHost port
    .ok (display, host, port, http ++ withPort formattedHost port)

/-- mirrors crates/frp-game-common/src/model.rs:195-228 -/
def normalizeServer (U : UrlCrate) (value : Str) : Except FrpGameError (Str × Str × Port × Str) := do
  let raw := trim value
  bailIf (raw = []) .emptyServer
  let url ← match if [':', '/', '/'] <:+: raw then U.parse raw else U.parse (http ++ raw) with
    | some url => .ok url
    | none => .error .invalidServer
  serverOfUrl url

/-! ## Hosts -/

/-- Letters and digits of any script, and the marks of host names. -/
def isHostChar (ch : Char) : Bool :=
  ch.isAlphanum || ch == '-' || ch == '.' || ch == '_' || (0x80 ≤ ch.toNat && !isWhitespace ch)

def isIpv6Char (ch : Char) : Bool := isLowerHex ch || ('A' ≤ ch && ch ≤ 'F') || ch == ':' || ch == '.'

/-- The text of a host name, an IPv4 address or a bracketed IPv6 address. -/
inductive HostText : Str → Prop
  | name {host : Str} (hne : host ≠ []) (hall : ∀ ch ∈ host, isHostChar ch = true) : HostText host
  | ipv6 {host : Str} (hcolon : ':' ∈ host) (hall : ∀ ch ∈ host, isIpv6Char ch = true) :
    HostText ('[' :: (host ++ [']']))

/-- The crate takes `h` for a host and gives it back as `g`: a name or an IPv4 address in lower
case, an IPv6 address in its brackets. -/
structure UrlCrate.Reads (U : UrlCrate) (h g : Str) : Prop where
  host : HostText h
  written : HostText g
  parsed : U.parse (http ++ h) = some ⟨some g, none⟩

/-- What is documented of the crate. -/
structure UrlCrate.Lawful (U : UrlCrate) : Prop where
  /-- A host that was written out reads as itself. -/
  again : ∀ h g, U.Reads h g → U.Reads g g
  /-- A port after the host is reported unless it is the default of the scheme. -/
  port : ∀ h g p, U.Reads h g →
    U.parse (http ++ withPort h p) = some ⟨some g, if p = 80 then none else some p⟩

/-! ## What is written and read again -/

theorem ne_of_class {p : Char → Bool} {ch other : Char} (h : p ch = true) (hother : p other = false) :
    ch ≠ other := by
  intro heq
  rw [heq, hother] at h
  cases h

/-- Neither white space nor a slash. -/
def Plain (s : Str) : Prop := ∀ ch ∈ s, isWhitespace ch = false ∧ ch ≠ '/'

theorem plain_of_visible {ch : Char} (h : 0x20 < ch.toNat ∧ ch.toNat < 0x7F) (hne : ch ≠ '/') :
    isWhitespace ch = false ∧ ch ≠ '/' := by
  refine ⟨?_, hne⟩
  simp only [isWhitespace, Bool.or_eq_false_iff, Bool.and_eq_false_iff, decide_eq_false_iff_not,
    beq_eq_false_iff_ne]
  omega

theorem plain_of_alphanum {ch : Char} (h : ch.isAlphanum = true) : isWhitespace ch = false ∧ ch ≠ '/' := by
  have hn := (isAlphanum_iff ch).1 h
  exact plain_of_visible (by omega) (ne_of_class h (by decide))

theorem decimal_plain (p : Port) : Plain (decimal p) := by
  intro ch hch
  have hdigit := Nat.isDigit_of_mem_toDigits (by decide) (by decide) hch
  exact plain_of_alphanum (by simp [Char.isAlphanum, hdigit])

theorem plain_of_hostChar {ch : Char} (h : isHostChar ch = true) : isWhitespace ch = false ∧ ch ≠ '/' := by
  have hslash : ch ≠ '/' := ne_of_class h (by decide)
  simp only [isHostChar, Bool.or_eq_true, Bool.and_eq_true, beq_iff_eq, decide_eq_true_eq] at h
  rcases h with (((h | rfl) | rfl) | rfl) | h
  · exact plain_of_alphanum h
  · decide
  · decide
  · decide
  · exact ⟨by simpa using h.2, hslash⟩

theorem plain_of_ipv6Char {ch : Char} (h : isIpv6Char ch = true) : isWhitespace ch = false ∧ ch ≠ '/' := by
  have hslash : ch ≠ '/' := ne_of_class h (by decide)
  simp only [isIpv6Char, Bool.or_eq_true, Bool.and_eq_true, beq_iff_eq, decide_eq_true_eq, isLowerHex_iff,
    Char.le_def, UInt32.le_iff_toNat_le] at h
  rcases h with ((h | h) | rfl) | rfl
  · exact plain_of_visible (by omega) hslash
  · have hn : 65 ≤ ch.toNat ∧ ch.toNat ≤ 70 := h
    exact plain_of_visible (by omega) hslash
  · decide
  · decide

theorem plain_singleton {ch : Char} (h : isWhitespace ch = false ∧ ch ≠ '/') : Plain [ch] := by
  intro c hc
  rw [List.mem_singleton.1 hc]
  exact h

theorem Plain.append {s t : Str} (hs : Plain s) (ht : Plain t) : Plain (s ++ t) := by
  intro ch hch
  rcases List.mem_append.1 hch with h | h
  · exact hs ch h
  · exact ht ch h

theorem HostText.plain {h : Str} (hh : HostText h) : Plain h := by
  cases hh with
  | name hne hall => exact fun ch hch => plain_of_hostChar (hall ch hch)
  | @ipv6 host hcolon hall =>
    have hhost : Plain host := fun ch hch => plain_of_ipv6Char (hall ch hch)
    exact (plain_singleton (by decide)).append (hhost.append (plain_singleton (by decide)))

theorem HostText.ne_nil {h : Str} (hh : HostText h) : h ≠ [] := by
  cases hh with
  | name hne hall => exact hne
  | ipv6 hcolon hall => simp

theorem HostText.withPort_plain {h : Str} (hh : HostText h) (p : Port) : Plain (withPort h p) := by
  exact hh.plain.append ((plain_singleton (by decide)).append (decimal_plain p))

/-- **An address reads the same** with the scheme and without it. -/
theorem normalizeServer_of_parse {U : UrlCrate} {s : Str} {url : Url} (hs : Plain s) (hne : s ≠ [])
    (hu : U.parse (http ++ s) = some url) :
    normalizeServer U s = serverOfUrl url ∧ normalizeServer U (http ++ s) = serverOfUrl url := by
  have hscheme : ¬ [':', '/', '/'] <:+: s := fun h => (hs '/' (h.subset (by simp))).2 rfl
  have hhttp : [':', '/', '/'] <:+: http ++ s := ⟨['h', 't', 't', 'p'], s, rfl⟩
  have htrim : trim s = s := trimBy_self fun ch hch => (hs ch hch).1
  have hvisible : http.all (fun ch => !isWhitespace ch) = true := by decide
  have htrim' : trim (http ++ s) = http ++ s := by
    refine trimBy_self fun ch hch => ?_
    rcases List.mem_append.1 hch with h | h
    · simpa using List.all_eq_true.1 hvisible ch h
    · exact (hs ch h).1
  refine ⟨?_, ?_⟩
  · simp only [normalizeServer, htrim, if_neg hscheme, hu, bailIf, if_neg hne]
    rfl
  · simp only [normalizeServer, htrim', if_pos hhttp, hu, bailIf]
    rw [if_neg (by simp [http])]
    rfl

/-- The host without its brackets. -/
def bare (host : Str) : Str := (host.dropWhile (· == '[')).rdropWhile (· == ']')

theorem trimEnd_self {host : Str} (hclose : ']' ∉ host) : host.rdropWhile (· == ']') = host := by
  refine List.rdropWhile_eq_self_iff.2 fun hne heq => hclose ?_
  rw [← beq_iff_eq.1 heq]
  exact List.getLast_mem hne

theorem trimStart_self {host : Str} (hopen : '[' ∉ host) : host.dropWhile (· == '[') = host := by
  refine List.dropWhile_eq_self_iff.2 fun hlt heq => hopen ?_
  rw [← beq_iff_eq.1 heq]
  exact List.getElem_mem hlt

theorem bare_self {host : Str} (hopen : '[' ∉ host) (hclose : ']' ∉ host) : bare host = host := by
  rw [bare, trimStart_self hopen, trimEnd_self hclose]

theorem bare_bracketed {host : Str} (hopen : '[' ∉ host) (hclose : ']' ∉ host) :
    bare ('[' :: (host ++ [']'])) = host := by
  rw [bare, List.dropWhile_cons_of_pos (by decide), trimStart_self (by simp [hopen]),
    List.rdropWhile_concat_pos _ _ _ (by decide), trimEnd_self hclose]

/-- The brackets of an IPv6 address, and no others, are put back. -/
theorem HostText.bare_formatted {g : Str} (hg : HostText g) :
    (if ':' ∈ bare g then '[' :: (bare g ++ [']']) else bare g) = g := by
  cases hg with
  | name hne hall =>
    have hnot (ch : Char) (hch : isHostChar ch = false) : ch ∉ g := fun hmem => ne_of_class (hall ch hmem) hch rfl
    rw [bare_self (hnot '[' (by decide)) (hnot ']' (by decide)), if_neg (hnot ':' (by decide))]
  | @ipv6 host hcolon hall =>
    have hnot (ch : Char) (hch : isIpv6Char ch = false) : ch ∉ host :=
      fun hmem => ne_of_class (hall ch hmem) hch rfl
    rw [bare_bracketed (hnot '[' (by decide)) (hnot ']' (by decide)), if_pos hcolon]

/-- **The three renderings** of a host and a port. -/
theorem serverOfUrl_host {g : Str} (hg : HostText g) (port : Option Port) :
    serverOfUrl ⟨some g, port⟩ = .ok (if port.getD API_PORT = API_PORT then g else withPort g (port.getD API_PORT),
      bare g, port.getD API_PORT, http ++ withPort g (port.getD API_PORT)) := by
  have hformat := hg.bare_formatted
  simp only [serverOfUrl]
  unfold bare at hformat ⊢
  rw [hformat]

/-! ## Typed ports -/

/-- The port that was typed is kept, with or without the scheme, and the display string and
the base URL give the same four values again. -/
def PortRespected (U : UrlCrate) (h g : Str) (p : Port) : Prop :=
  ∃ display host,
    normalizeServer U (withPort h p) = .ok (display, host, p, http ++ withPort g p) ∧
    normalizeServer U (http ++ withPort h p) = .ok (display, host, p, http ++ withPort g p) ∧
    normalizeServer U display = .ok (display, host, p, http ++ withPort g p) ∧
    normalizeServer U (http ++ withPort g p) = .ok (display, host, p, http ++ withPort g p)

/-- What is read of a host with a port. -/
theorem UrlCrate.Lawful.normalize {U : UrlCrate} (hU : U.Lawful) {h g : Str} (hr : U.Reads h g) (p : Port) :
    normalizeServer U (withPort h p) = serverOfUrl ⟨some g, if p = 80 then none else some p⟩ ∧
    normalizeServer U (http ++ withPort h p) = serverOfUrl ⟨some g, if p = 80 then none else some p⟩ :=
  normalizeServer_of_parse (hr.host.withPort_plain p) (by simp [withPort]) (hU.port h g p hr)

/-- **A typed port is respected** if and only if it is not 80. -/
theorem port_respected_iff {U : UrlCrate} (hU : U.Lawful) {h g : Str} (hr : U.Reads h g) (p : Port) :
    PortRespected U h g p ↔ p ≠ 80 := by
  have hg := hU.again h g hr
  refine ⟨?_, ?_⟩
  · intro hrespected hp
    obtain ⟨display, host, hnormal, -⟩ := hrespected
    rw [(hU.normalize hr p).1, serverOfUrl_host hr.written, if_pos hp] at hnormal
    have hport : API_PORT = p := congrArg (fun r => r.2.2.1) (Except.ok.inj hnormal)
    rw [hp] at hport
    exact absurd hport (by decide)
  · intro hp
    have hread := hU.normalize hr p
    have hagain := hU.normalize hg p
    rw [if_neg hp, serverOfUrl_host hr.written, Option.getD_some] at hread hagain
    refine ⟨_, _, hread.1, hread.2, ?_, hagain.2⟩
    split
    · rename_i hapi
      have hdefault := (normalizeServer_of_parse hg.host.plain hg.host.ne_nil hg.parsed).1
      rw [serverOfUrl_host hg.host] at hdefault
      rw [hdefault, Option.getD_none, hapi, if_pos rfl]
    · rename_i hother
      rw [hagain.1, if_neg hother]

/-! ## A crate that reads plain URLs -/

/-- The host in front of a port, and what follows it. -/
def splitHost (s : Str) : Str × Str :=
  if s.head? = some '[' then
    (s.takeWhile (· != ']') ++ [']'], (s.dropWhile (· != ']')).drop 1)
  else (s.takeWhile isHostChar, s.dropWhile isHostChar)

/-- `Url::parse` of `http://host` and `http://host:port`. -/
def plainUrl : UrlCrate where
  parse s :=
    if http <+: s then
      let (host, tail) := splitHost (s.drop http.length)
      match tail with
      | [] => some ⟨some (host.map Char.toLower), none⟩
      | ':' :: digits =>
        let port := Nat.ofDigitChars 10 digits 0
        if digits.all Char.isDigit ∧ port < 65536 then
          some ⟨some (host.map Char.toLower), if port = 80 then none else some (UInt16.ofNat port)⟩
        else none
      | _ => none
    else none

theorem HostText.splitHost_append {h : Str} (hh : HostText h) {tail : Str}
    (htail : ∀ ch ∈ tail.head?, ch = ':') : splitHost (h ++ tail) = (h, tail) := by
  cases hh with
  | name hne hall =>
    have hhead : (h ++ tail).head? ≠ some '[' := by
      obtain ⟨ch, host, rfl⟩ := List.exists_cons_of_ne_nil hne
      have hopen : ch ≠ '[' := ne_of_class (hall ch (by simp)) (by decide)
      simpa using hopen
    have hstop : tail.takeWhile isHostChar = [] ∧ tail.dropWhile isHostChar = tail := by
      cases tail with
      | nil => simp
      | cons ch digits =>
        rw [htail ch (by simp), List.takeWhile_cons_of_neg (by decide), List.dropWhile_cons_of_neg (by decide)]
        exact ⟨rfl, rfl⟩
    rw [splitHost, if_neg hhead, List.takeWhile_append_of_pos hall, List.dropWhile_append_of_pos hall, hstop.1,
      hstop.2, List.append_nil]
  | @ipv6 host hcolon hall =>
    have hinner : ∀ ch ∈ '[' :: host, (ch != ']') = true := by
      intro ch hch
      rcases List.mem_cons.1 hch with rfl | hmem
      · decide
      · exact bne_iff_ne.2 (ne_of_class (hall ch hmem) (by decide))
    have hsplit : '[' :: (host ++ [']']) ++ tail = ('[' :: host) ++ ']' :: tail := by simp
    have hhead : ('[' :: (host ++ [']']) ++ tail).head? = some '[' := rfl
    rw [splitHost, if_pos hhead, hsplit, List.takeWhile_append_of_pos hinner, List.dropWhile_append_of_pos hinner,
      List.takeWhile_cons_of_neg (by decide), List.dropWhile_cons_of_neg (by decide)]
    simp

theorem plainUrl_host {h : Str} (hh : HostText h) :
    plainUrl.parse (http ++ h) = some ⟨some (h.map Char.toLower), none⟩ := by
  have hsplit := @HostText.splitHost_append h hh [] (by simp)
  rw [List.append_nil] at hsplit
  simp only [plainUrl, List.prefix_append, if_true, List.drop_left]
  rw [hsplit]

theorem plainUrl_port {h : Str} (hh : HostText h) (p : Port) :
    plainUrl.parse (http ++ withPort h p) =
      some ⟨some (h.map Char.toLower), if p = 80 then none else some p⟩ := by
  have hsplit := @HostText.splitHost_append h hh (':' :: decimal p) (by simp)
  have hdigits : (decimal p).all Char.isDigit = true :=
    List.all_eq_true.2 fun ch hch => Nat.isDigit_of_mem_toDigits (by decide) (by decide) hch
  have hvalue : Nat.ofDigitChars 10 (decimal p) 0 = p.toNat := Nat.ofDigitChars_ten_toDigits
  have heighty : p.toNat = 80 ↔ p = 80 := by
    rw [← UInt16.toNat_inj]
    rfl
  simp only [plainUrl, List.prefix_append, if_true, List.drop_left, withPort]
  rw [hsplit]
  simp only [hdigits, hvalue, p.toNat_lt, heighty, true_and, if_true, UInt16.ofNat_toNat]

theorem plainUrl_lawful : plainUrl.Lawful := by
  have hlower {h g : Str} (hr : plainUrl.Reads h g) : g = h.map Char.toLower := by
    have hparsed := hr.parsed
    rw [plainUrl_host hr.host] at hparsed
    exact (Option.some.inj (congrArg Url.host (Option.some.inj hparsed))).symm
  refine ⟨?_, ?_⟩
  · intro h g hr
    refine ⟨hr.written, hr.written, ?_⟩
    rw [plainUrl_host hr.written, hlower hr]
    simp
  · intro h g p hr
    rw [plainUrl_port hr.host, hlower hr]

theorem plainUrl_reads {h : Str} (hh : HostText h) (hlower : h.map Char.toLower = h) : plainUrl.Reads h h :=
  ⟨hh, hh, by rw [plainUrl_host hh, hlower]⟩

/-- `example.com` -/
def exampleHost : Str := ['e', 'x', 'a', 'm', 'p', 'l', 'e', '.', 'c', 'o', 'm']

theorem exampleHost_reads : plainUrl.Reads exampleHost exampleHost :=
  plainUrl_reads (.name (by decide) (List.all_eq_true.1 (by decide))) (by decide)

/-- `[::1]` -/
def loopback : Str := ['[', ':', ':', '1', ']']

theorem loopback_reads : plainUrl.Reads loopback loopback :=
  plainUrl_reads (@HostText.ipv6 [':', ':', '1'] (by decide) (List.all_eq_true.1 (by decide))) (by decide)

theorem loopback_port_respected : PortRespected plainUrl loopback loopback 8000 :=
  (port_respected_iff plainUrl_lawful loopback_reads 8000).2 (by decide)

/-- **The port of the scheme is lost.** `example.com:80` is answered with port 7631. -/
theorem scheme_port_lost :
    plainUrl.Lawful ∧ plainUrl.Reads exampleHost exampleHost ∧
    normalizeServer plainUrl (withPort exampleHost 80) =
      .ok (exampleHost, exampleHost, 7631, http ++ withPort exampleHost 7631) ∧
    ¬ PortRespected plainUrl exampleHost exampleHost 80 := by
  have hlost : normalizeServer plainUrl (withPort exampleHost 80) =
      .ok (exampleHost, exampleHost, 7631, http ++ withPort exampleHost 7631) := by decide +kernel
  refine ⟨plainUrl_lawful, exampleHost_reads, hlost, ?_⟩
  intro hrespected
  obtain ⟨display, host, hnormal, -⟩ := hrespected
  rw [hlost] at hnormal
  have hport : (7631 : Port) = 80 := congrArg (fun r => r.2.2.1) (Except.ok.inj hnormal)
  exact absurd hport (by decide)

end OrangeFrp
