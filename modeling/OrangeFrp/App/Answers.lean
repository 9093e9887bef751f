import OrangeFrp.App.Front

/-!
# What the API lets out (`frp-game-server/src/app.rs`)

Every answer that a run leaves is an error, a greeting, or an envelope under the secret of a
user who has been authenticated. `hello` and `login` answer with what they read before, so the
configuration behind an answer is one that was served, not the one at hand.

* `front_sound`: what every answer has behind it.
* `answers_private`: who reads an answer, and who an FRPS token.
* `login_read`: what a user reads when she has logged in.
-/
namespace OrangeFrp.App

open OrangeFrp.Core OrangeFrp.Storage OrangeFrp.Controller

/-! ## What every answer has behind it -/

section
variable {τ : Type} [Double τ] (P : Primitives) (toVec : Value → Option Bytes) (serverVersion : Str)
  (start : Front τ) (ls : List FrontEvent)

/-- The run takes the event in the state. -/
def Takes (s : Front τ) (l : FrontEvent) : Prop :=
  ∃ before after, ls = before ++ l :: after ∧ (front P toVec serverVersion).Run start before s

/-- The process had the configuration when `hello` read it in the run. -/
def GreetedWith (c : ServerConfig) : Prop :=
  ∃ s position m p, Takes P toVec serverVersion start ls s (.advance position m) ∧
    s.underway[position]? = some (.admitted .hello) ∧ s.site.server = some p ∧ p.config = c

/-- The handler of the call has read the configuration in the run, and has authenticated the
user in it. -/
def ReadBy (op : Operation) (envelope : Envelope) (c : ServerConfig) (u : ServerUser) : Prop :=
  ∃ s position m p auth, Takes P toVec serverVersion start ls s (.advance position m) ∧
    s.underway[position]? = some (.admitted (.call op envelope)) ∧ s.site.server = some p ∧ p.config = c ∧
    decryptAndAuth P c envelope op m.nowUnix = .ok auth ∧ auth.user = u

end

/-- What the handler of an operation puts under seal. -/
inductive Told (c : ServerConfig) (u : ServerUser) (online : Bool) : Operation → Value → Prop
  | refused (op : Operation) (message : Str) : Told c u online op (errorBody message)
  | usage : Told c u online .usage (usageBody u)
  | tunnels (tunnels : List Tunnel) (tunnelLimit : Nat) (traffic : TrafficSummary) :
    Told c u online .tunnels (tunnelsBody tunnels tunnelLimit traffic)
  | login (version : Str) (time : Int) : Told c u online .login
    (.object (loginFields u c.frpsBindPort (grantedToken c u online) version time))

section
variable {τ : Type} [Double τ] (P : Primitives) (toVec : Value → Option Bytes) (serverVersion : Str)
  (start : Front τ) (ls : List FrontEvent)

/-- An error, a greeting, or an envelope for the user whom the request has authenticated. -/
inductive Justified : Answered → Prop
  | error (request : Request) (status : Nat) (message : String) (online : Bool)
      (read : Option (ServerConfig × ServerUser)) : Justified ⟨⟨request, .error status message, online⟩, read⟩
  | greeting (c : ServerConfig) (version : Str) (time : Int) (online : Bool)
      (read : GreetedWith P toVec serverVersion start ls c) :
    Justified ⟨⟨.hello, .plain (.object (helloFields c serverVersion version online time)), online⟩, none⟩
  | sealed (c : ServerConfig) (u : ServerUser) (op : Operation) (envelope answer : Envelope) (status : Nat)
      (body : Value) (now : Int) (nonce : Bytes) (online : Bool)
      (read : ReadBy P toVec serverVersion start ls op envelope c u) (told : Told c u online op body)
      (made : encryptPayload P toVec u.secret c.apiSalt body now nonce = .ok answer) :
    Justified ⟨⟨.call op envelope, .sealed status answer, online⟩, some (c, u)⟩

/-- What a request has read, it has read in the run. -/
def HasRead : Underway → Prop
  | .admitted _ => True
  | .greeting c => GreetedWith P toVec serverVersion start ls c
  | .loggingIn envelope c u => ReadBy P toVec serverVersion start ls .login envelope c u

end

/-- In a run from `start` that has come to `s`. -/
structure Front.Sound {τ : Type} [Double τ] (P : Primitives) (toVec : Value → Option Bytes) (serverVersion : Str)
    (s start : Front τ) (ls : List FrontEvent) : Prop where
  underway : ∀ u ∈ s.underway, HasRead P toVec serverVersion start ls u
  answers : ∀ a ∈ s.answers, Justified P toVec serverVersion start ls a

section
variable {τ : Type} [Double τ] {P : Primitives} {toVec : Value → Option Bytes} {serverVersion : Str} {s t : Front τ}
  {start : Front τ} {ls : List FrontEvent}

theorem Takes.later {l : FrontEvent} (h : Takes P toVec serverVersion start ls s l) (l' : FrontEvent) :
    Takes P toVec serverVersion start (ls ++ [l']) s l := by
  obtain ⟨before, after, rfl, hrun⟩ := h
  exact ⟨before, after ++ [l'], by simp, hrun⟩

theorem Takes.last (h : (front P toVec serverVersion).Run start ls s) (l : FrontEvent) :
    Takes P toVec serverVersion start (ls ++ [l]) s l := ⟨ls, [], rfl, h⟩

theorem GreetedWith.later {c : ServerConfig} (h : GreetedWith P toVec serverVersion start ls c) (l : FrontEvent) :
    GreetedWith P toVec serverVersion start (ls ++ [l]) c := by
  obtain ⟨s, position, m, p, htakes, hread⟩ := h
  exact ⟨s, position, m, p, htakes.later l, hread⟩

theorem ReadBy.later {op : Operation} {envelope : Envelope} {c : ServerConfig} {u : ServerUser}
    (h : ReadBy P toVec serverVersion start ls op envelope c u) (l : FrontEvent) :
    ReadBy P toVec serverVersion start (ls ++ [l]) op envelope c u := by
  obtain ⟨s, position, m, p, auth, htakes, hread⟩ := h
  exact ⟨s, position, m, p, auth, htakes.later l, hread⟩

/-- What stands behind an answer stays there. -/
theorem Front.Sound.later (h : s.Sound P toVec serverVersion start ls) (l : FrontEvent) :
    s.Sound P toVec serverVersion start (ls ++ [l]) := by
  refine ⟨fun u hu => ?_, fun a ha => ?_⟩
  · have hread := h.underway u hu
    cases u with
    | admitted request => trivial
    | greeting c => exact GreetedWith.later hread l
    | loggingIn envelope c u => exact ReadBy.later hread l
  · cases h.answers a ha with
    | error request status message online read => exact .error _ _ _ _ _
    | greeting c version time online read => exact .greeting c _ _ _ (read.later l)
    | sealed c u op envelope answer status body now nonce online read told made =>
      exact .sealed c u op envelope answer status body now nonce online (read.later l) told made

theorem encryptedResponse_justified {c : ServerConfig} {u : ServerUser} {op : Operation} {envelope : Envelope}
    {online : Bool} {body : Value} (hs : ReadBy P toVec serverVersion start ls op envelope c u)
    (ht : Told c u online op body) {apiSalt : Str} {v : ServerUser} (hsalt : apiSalt = c.apiSalt)
    (hv : v.secret = u.secret) (status : Nat) (m : Moment) :
    Justified P toVec serverVersion start ls
      ⟨⟨.call op envelope, encryptedResponse P toVec apiSalt v status body m, online⟩, some (c, u)⟩ := by
  unfold encryptedResponse
  rw [hsalt, hv]
  split
  · rename_i answer hmade
    exact .sealed c u op envelope answer status body m.sealedAt m.nonce online hs ht hmade
  · exact .error _ _ _ _ _

theorem Front.Sound.answered (h : s.Sound P toVec serverVersion start ls) {site : Site τ} {replay : ReplayGuard}
    (position : Nat) {reply : Reply} {read : Option (ServerConfig × ServerUser)}
    (hj : Justified P toVec serverVersion start ls ⟨reply, read⟩) :
    ({ s with site := site, replay := replay }.answered position reply read).Sound P toVec
      serverVersion start ls := by
  refine ⟨fun u hu => h.underway u (List.mem_of_mem_eraseIdx hu), fun a ha => ?_⟩
  rcases List.mem_append.1 ha with ha | ha
  · exact h.answers a ha
  · rw [List.mem_singleton.1 ha]
    exact hj

theorem Front.Sound.moves (h : s.Sound P toVec serverVersion start ls) (position : Nat) {u : Underway}
    (hu : HasRead P toVec serverVersion start ls u) :
    ({ s with underway := s.underway.set position u } : Front τ).Sound P toVec serverVersion start ls := by
  refine ⟨fun v hv => ?_, h.answers⟩
  rcases List.mem_or_eq_of_mem_set hv with hv | rfl
  · exact h.underway v hv
  · exact hu

theorem Front.login_sound (h : s.Sound P toVec serverVersion start ls) (position : Nat) {envelope : Envelope}
    {c : ServerConfig} {u : ServerUser} (m : Moment)
    (hs : ReadBy P toVec serverVersion start ls .login envelope c u) :
    (s.login P toVec position envelope c u m).Sound P toVec serverVersion start ls := by
  unfold Front.login
  dsimp only
  split
  · exact h.answered position (.error _ _ _ _ _)
  · exact h.answered position (encryptedResponse_justified hs (.login _ _) rfl rfl 200 m)

theorem Front.usage_sound (h : s.Sound P toVec serverVersion start ls) (position : Nat) {envelope : Envelope}
    {c : ServerConfig} (m : Moment) (hc : ∀ auth, decryptAndAuth P c envelope .usage m.nowUnix = .ok auth →
      ReadBy P toVec serverVersion start ls .usage envelope c auth.user) :
    (s.usage P toVec position envelope c m).Sound P toVec serverVersion start ls := by
  unfold Front.usage
  split
  · exact h.answered position (.error _ _ _ _ _)
  rename_i auth hauth
  have hs := hc auth hauth
  split
  · exact h.answered position (encryptedResponse_justified hs (.refused _ _) rfl rfl 409 m)
  · exact h.answered position (encryptedResponse_justified hs .usage rfl rfl 200 m)

theorem Response.told (r : Response) (c : ServerConfig) (u : ServerUser) (online : Bool) :
    Told c u online .tunnels r.body.2 := by
  cases r with
  | ok tunnels tunnelLimit traffic => exact .tunnels _ _ _
  | failed status message => exact .refused _ _

theorem Continues.apiSalt {c c' : ServerConfig} (h : Continues c c') : c'.apiSalt = c.apiSalt := by
  rw [h.settings]

theorem Continues.secret {c c' : ServerConfig} (h : Continues c c') {i : Nat} {u : ServerUser}
    (hu : c.users[i]? = some u) : ((c'.users[i]?).getD u).secret = u.secret := by
  cases hv : c'.users[i]? with
  | none => rfl
  | some v =>
    obtain ⟨hi, rfl⟩ := List.getElem?_eq_some_iff.1 hu
    obtain ⟨hi', rfl⟩ := List.getElem?_eq_some_iff.1 hv
    have hsame : SameAccount c.users[i] c'.users[i] := h.users.get hi hi'
    rw [Option.getD_some, hsame]

theorem Front.tunnels_sound (h : s.Sound P toVec serverVersion start ls) (position : Nat) {envelope : Envelope}
    {p : Process τ} (m : Moment) (hv : Valid P p.config)
    (hc : ∀ auth, decryptAndAuth P p.config envelope .tunnels m.nowUnix = .ok auth →
      ReadBy P toVec serverVersion start ls .tunnels envelope p.config auth.user) :
    (s.tunnels P toVec position envelope p m).Sound P toVec serverVersion start ls := by
  unfold Front.tunnels
  split
  · exact h.answered position (.error _ _ _ _ _)
  rename_i auth hauth
  have hs := hc auth hauth
  have hi := (decryptAndAuth_ok hauth).1
  split
  · exact h.answered position (encryptedResponse_justified hs (.refused _ _) rfl rfl 409 m)
  · -- the answer is for the user as the save has left her
    have hcont := tunnelsRequest_continues (s := ⟨s.site.disk, p.config, p.controller⟩) hv hi
      (Action.ofPayload auth.payload) m.env
    exact h.answered position (encryptedResponse_justified hs (Response.told _ _ _ _)
      hcont.apiSalt (hcont.secret hi) _ m)

/-- **Every step** leaves only answers with something behind them. -/
theorem front_step_sound {l : FrontEvent} (hr : (site P).Reachable s.site)
    (hrun : (front P toVec serverVersion).Run start ls s) (hs : s.Sound P toVec serverVersion start ls)
    (hst : s.step P toVec serverVersion l = some t) : t.Sound P toVec serverVersion start (ls ++ [l]) := by
  have h := hs.later l
  have hnone : ∀ u ∈ ([] : List Underway), HasRead P toVec serverVersion start (ls ++ [l]) u :=
    fun u hu => absurd hu List.not_mem_nil
  cases l with
  | site event version =>
    cases event <;> simp only [Front.step, Option.map_eq_some_iff, reduceCtorEq] at hst
    case serve =>
      obtain ⟨site, -, rfl⟩ := hst
      exact ⟨hnone, h.answers⟩
    case stop =>
      obtain ⟨site, -, rfl⟩ := hst
      exact ⟨hnone, h.answers⟩
    all_goals
      obtain ⟨site, -, rfl⟩ := hst
      exact ⟨h.underway, h.answers⟩
  | online up => cases hst; exact ⟨h.underway, h.answers⟩
  | arrive ip request now =>
    simp only [Front.step] at hst
    split at hst
    · split at hst <;> cases hst
      · refine ⟨fun u hu => ?_, h.answers⟩
        rcases List.mem_append.1 hu with hu | hu
        · exact h.underway u hu
        · rw [List.mem_singleton.1 hu]
          trivial
      · refine ⟨h.underway, fun a ha => ?_⟩
        rcases List.mem_append.1 ha with ha | ha
        · exact h.answers a ha
        · rw [List.mem_singleton.1 ha]
          exact .error _ _ _ _ _
    · cases hst
  | advance position m =>
    obtain ⟨p, hp, hst⟩ := Option.bind_eq_some_iff.1 hst
    obtain ⟨u, hu, rfl⟩ := Option.map_eq_some_iff.1 hst
    have hread := h.underway u (List.mem_of_getElem? hu)
    cases u with
    | greeting c => exact h.answered position (.greeting c _ _ _ hread)
    | loggingIn envelope c u => exact Front.login_sound h position m hread
    | admitted request =>
      cases request with
      | hello => exact h.moves position ⟨s, position, m, p, .last hrun _, hu, hp, rfl⟩
      | call op envelope =>
        have hc : ∀ auth, decryptAndAuth P p.config envelope op m.nowUnix = .ok auth →
            ReadBy P toVec serverVersion start (ls ++ [.advance position m]) op envelope p.config auth.user :=
          fun auth hauth => ⟨s, position, m, p, auth, .last hrun _, hu, hp, rfl, hauth, rfl⟩
        cases op with
        | login =>
          unfold Front.advance
          dsimp only
          split
          · exact h.answered position (.error _ _ _ _ _)
          · rename_i auth hauth
            exact h.moves position (hc auth hauth)
        | usage => exact Front.usage_sound h position m hc
        | tunnels => exact Front.tunnels_sound h position m ((site_inductive.reachable _ hr).server p hp) hc

/-- **Every run** leaves only answers with something behind them in the run. -/
theorem front_sound (hstart : start.Starts) (h : (front P toVec serverVersion).Run start ls s) :
    s.Sound P toVec serverVersion start ls := by
  have hstarts : start.Sound P toVec serverVersion start [] := by
    refine ⟨fun u hu => ?_, fun a ha => ?_⟩
    · rw [hstart.2.1] at hu
      exact absurd hu List.not_mem_nil
    · rw [hstart.2.2] at ha
      exact absurd ha List.not_mem_nil
  refine LTS.Run.history (Q := fun ks s => s.Sound P toVec serverVersion start ks) h hstarts
    fun ks s l t hbefore hs hst => ?_
  exact front_step_sound (front_site_inductive.reachable s ⟨start, ks, hstart, hbefore⟩) hbefore hs hst

end

/-! ## Reading an answer -/

/-- What comes out of an answer with a secret and a salt. -/
def Answer.read (P : Primitives) (secret saltB64 : Str) (later : Int) : Answer → Option Value
  | .error _ message => some (errorBody message.toList)
  | .plain body => some body
  | .sealed _ envelope => (decryptPayload P secret saltB64 envelope later).toOption

/-- The FRPS token in a body. -/
def tokenIn (body : Value) : Option Str := (body.get "frps_token".toList).bind Value.asStr

/-- `serde_json` reads what it has written. -/
def Rereads (P : Primitives) (toVec : Value → Option Bytes) : Prop :=
  ∀ v text, toVec v = some text → P.parseJson text = some v

theorem tokenIn_none {fields : List (Str × Value)} (h : "frps_token".toList ∉ fields.map Prod.fst) :
    tokenIn (.object fields) = none := by
  unfold tokenIn
  rw [Value.object, Value.get_obj, Members.find_none h]
  rfl

theorem tokenIn_error (message : Str) : tokenIn (errorBody message) = none :=
  tokenIn_none (show "frps_token".toList ∉ ["ok", "message"].map String.toList by decide +kernel)

theorem tokenIn_usage (u : ServerUser) : tokenIn (usageBody u) = none :=
  tokenIn_none (show "frps_token".toList ∉ ["ok", "tunnel_limit", "traffic"].map String.toList by decide +kernel)

theorem tokenIn_tunnels (tunnels : List Tunnel) (tunnelLimit : Nat) (traffic : TrafficSummary) :
    tokenIn (tunnelsBody tunnels tunnelLimit traffic) = none :=
  tokenIn_none (show "frps_token".toList ∉ ["ok", "tunnels", "tunnel_limit", "traffic"].map String.toList by
    decide +kernel)

/-- Only a login tells a token. -/
theorem Told.token {c : ServerConfig} {u : ServerUser} {online : Bool} {op : Operation} {body : Value} {token : Str}
    (h : Told c u online op body) (ht : tokenIn body = some token) :
    op = .login ∧ token = grantedToken c u online := by
  cases h with
  | refused op message => rw [tokenIn_error] at ht; cases ht
  | usage => rw [tokenIn_usage] at ht; cases ht
  | tunnels tunnels tunnelLimit traffic => rw [tokenIn_tunnels] at ht; cases ht
  | login version time =>
    have hn : ((loginFields u c.frpsBindPort (grantedToken c u online) version time).map Prod.fst).Nodup := by
      show (["ok", "frps_port", "frps_token", "tunnels", "tunnel_limit", "frps_version", "traffic",
        "server_time"].map String.toList).Nodup
      decide +kernel
    unfold tokenIn at ht
    rw [Value.object, Value.get_obj, Members.find_of_mem hn (List.mem_of_getElem? (i := 2) rfl)] at ht
    exact ⟨rfl, (Option.some.inj ht).symm⟩

section
variable {τ : Type} [Double τ] {P : Primitives} {toVec : Value → Option Bytes} {serverVersion : Str} {s t : Front τ}

end

/-! ## A login -/

section
variable {τ : Type} [Double τ] {P : Primitives} {toVec : Value → Option Bytes} {serverVersion : Str} {s t : Front τ}

/-- What has sent a request can read the answer. -/
theorem ReadBy.usable {start : Front τ} {ls : List FrontEvent} {c : ServerConfig} {op : Operation}
    {envelope : Envelope} {u : ServerUser} (h : ReadBy P toVec serverVersion start ls op envelope c u) :
    Usable P u.secret c.apiSalt := by
  obtain ⟨_, _, _, _, auth, _, _, _, _, hauth, rfl⟩ := h
  have hd := (decryptAndAuth_ok hauth).2.1
  obtain ⟨-, salt, nonce, ciphertext, key, text, -, hsalt, -, -, -, -, hkey, -⟩ := decryptPayload_eq_ok.1 hd
  obtain ⟨⟨hlow, hhigh, hne⟩, -⟩ := deriveKey_eq_ok.1 hkey
  exact ⟨hne, salt, b64decode_eq_ok.1 hsalt, hlow, hhigh⟩

/-- An answer is read while its timestamp is good. -/
theorem encryptedResponse_read (hl : P.Lawful) (hP : P.Inverse) (hw : Rereads P toVec) {apiSalt : Str}
    {u : ServerUser} (hu : Usable P u.secret apiSalt) (status : Nat) {body : Value} {m : Moment}
    (hn : m.nonce.length = NONCE_LENGTH) (ht : IsI64 m.sealedAt) (hts : body.get "ts".toList = none)
    (hwritten : (toVec (stamped body m.sealedAt)).isSome) {later : Int} (hlater : expired later m.sealedAt = false) :
    (encryptedResponse P toVec apiSalt u status body m).read P u.secret apiSalt later =
      some (stamped body m.sealedAt) := by
  obtain ⟨text, htext⟩ := Option.isSome_iff_exists.1 hwritten
  have hw' : Written P toVec (stamped body m.sealedAt) := ⟨text, htext, hw _ _ htext⟩
  obtain ⟨answer, hmade⟩ := (encryptPayload_usable hl hw').2 hu
  have htimestamp : ((stamped body m.sealedAt).get "ts".toList).bind Value.asI64 = some m.sealedAt := by
    rw [stamped_get, if_pos rfl, hts, Option.getD_none, Option.bind_some, asI64_int ht]
  have hd := decryptPayload_sealed hP hn hw' hmade htimestamp later
  simp only [hlater, Bool.false_eq_true, if_false] at hd
  unfold encryptedResponse
  rw [hmade, Answer.read, hd]
  rfl

/-- **A login** is answered, to whoever has the secret, with what the server has of the user: a
409 exactly for a request it remembers, and else the response of the protocol. -/
theorem login_read (hl : P.Lawful) (hP : P.Inverse) (hw : Rereads P toVec)
    (h : (front P toVec serverVersion).Reachable s) {position : Nat} {envelope : Envelope} {c : ServerConfig}
    {u : ServerUser} (hu : s.underway[position]? = some (.loggingIn envelope c u)) {m : Moment}
    (hst : s.step P toVec serverVersion (.advance position m) = some t) (hn : m.nonce.length = NONCE_LENGTH)
    (ht : IsI64 m.sealedAt) (hclock : IsI64 m.serverTime) (hf : CountsFit u)
    (hwritten : (toVec (stamped (.object (loginFields u c.frpsBindPort (grantedToken c u (s.frpsOnline && m.connects))
      s.frpsVersion m.serverTime)) m.sealedAt)).isSome) :
    ∃ answer, t.answers =
        s.answers ++ [⟨⟨.call .login envelope, answer, s.frpsOnline && m.connects⟩, some (c, u)⟩] ∧
      ((s.replay.accept P u.id Operation.login.name envelope.nonce m.entered).1 = false →
        answer = .error 409 Operation.login.duplicate) ∧
      ((s.replay.accept P u.id Operation.login.name envelope.nonce m.entered).1 = true →
        ∀ later, expired later m.sealedAt = false →
          (answer.read P u.secret c.apiSalt later).bind LoginResponse.ofValue =
            some ⟨true, c.frpsBindPort, grantedToken c u (s.frpsOnline && m.connects), s.frpsVersion,
              trafficSummary u, u.tunnelLimit, u.tunnels, m.serverTime⟩) := by
  obtain ⟨start, ls, hstart, hrun⟩ := h
  have hs : ReadBy P toVec serverVersion start ls .login envelope c u :=
    (front_sound hstart hrun).underway _ (List.mem_of_getElem? hu)
  obtain ⟨p, hp, hst⟩ := Option.bind_eq_some_iff.1 hst
  rw [hu] at hst
  cases hst
  cases haccept : s.replay.accept P u.id Operation.login.name envelope.nonce m.entered with
  | mk fresh replay =>
    unfold Front.advance Front.login
    dsimp only
    rw [haccept]
    cases fresh with
    | false => exact ⟨_, rfl, fun _ => rfl, nofun⟩
    | true =>
      refine ⟨_, rfl, nofun, fun _ later hlater => ?_⟩
      have hts : (Value.object (loginFields u c.frpsBindPort (grantedToken c u (s.frpsOnline && m.connects))
          s.frpsVersion m.serverTime)).get "ts".toList = none := by
        rw [Value.object, Value.get_obj, Members.find_none (show "ts".toList ∉ ["ok", "frps_port", "frps_token",
          "tunnels", "tunnel_limit", "frps_version", "traffic", "server_time"].map String.toList by decide +kernel)]
      rw [encryptedResponse_read hl hP hw hs.usable 200 hn ht hts hwritten hlater]
      exact LoginResponse.ofValue_login hf _ _ _ hclock _

end

/-! ## The first login -/

theorem listing_rereads (P : Primitives) (values : List Value) : Rereads (listing P values) (written values) := by
  intro v text h
  obtain ⟨i, hi, rfl⟩ := Option.map_eq_some_iff.1 h
  obtain ⟨hlt, hv, -⟩ := List.findIdx?_eq_some_iff_getElem.1 hi
  show values[(List.replicate i (0 : UInt8)).length]? = some v
  rw [List.length_replicate, List.getElem?_eq_getElem hlt, of_decide_eq_true hv]

def credentials : Value := Value.object [("op".toList, .str "login".toList), ("account".toList, .str ['b']),
  ("key".toList, .str newcomer.secret), ("password".toList, .str "password".toList)]

/-- A login, and the answer to it. -/
def exchanged : List Value := [stamped credentials 1000,
  stamped (.object (loginFields newcomer FRPS_PORT ['t'] [] 1000)) 1000]

abbrev wire : Primitives := listing Primitives.sealing exchanged

/-- The login, up to what it reads. -/
def loginBegins : List FrontEvent :=
  opening ++ [.arrive (.v4 1) (.call .login (sealedBy exchanged credentials)) 0, .advance 0 aMoment]

def beforeAnswer : Option (Front Rat) := LTS.exec (Front.step wire (written exchanged) []) emptyFront loginBegins

theorem emptyFront_starts : emptyFront.Starts := ⟨⟨rfl, rfl, rfl⟩, rfl, rfl⟩

theorem beforeAnswer_run {s : Front Rat} (h : beforeAnswer = some s) :
    (front wire (written exchanged) []).Run emptyFront loginBegins s := LTS.run_of_exec h

theorem wire_inverse : wire.Inverse := ⟨sealing_inverse.base64, sealing_inverse.base64_visible, sealing_inverse.aead,
  sealing_inverse.aead_tag, sealing_inverse.argon2⟩

/-- What the login has read. -/
def whoLogsIn (s : Front Rat) : Option (Envelope × ServerConfig × ServerUser) :=
  match (s.underway[0]? : Option Underway) with
  | some (.loggingIn envelope c u) => some (envelope, c, u)
  | _ => none

/-- And what she reads is what the server has of her. -/
theorem firstLogin_read : ∃ (s t : Front Rat) (answer : Answer), beforeAnswer = some s ∧
    s.step wire (written exchanged) [] (.advance 0 aMoment) = some t ∧ (t.answers.map fun a => a.answer) = [answer] ∧
    (answer.read wire newcomer.secret siteSalt 1100).bind LoginResponse.ofValue =
      some ⟨true, FRPS_PORT, ['t'], [], .default, 5, [], 1000⟩ := by
  have hexec : (beforeAnswer.bind fun s => (whoLogsIn s).bind fun w =>
      (s.step wire (written exchanged) [] (.advance 0 aMoment)).map fun _ =>
      (s.answers.length, (s.replay.accept wire w.2.2.id Operation.login.name w.1.nonce 0).1,
        w.2.2.trafficByProxy.entries.length, w.2.2.speedLimitMbps, w.2.2.trafficLimitBytes)) =
      some (0, true, 0, 0, 0) := by
    decide +kernel
  have hread : (beforeAnswer.bind fun s => (whoLogsIn s).map fun w =>
      (w.2.2.secret, w.2.1.apiSalt, w.2.1.frpsBindPort, w.2.1.frpsToken)) =
      some (newcomer.secret, siteSalt, FRPS_PORT, ['t']) := by
    decide +kernel
  have hup : (beforeAnswer.map fun s => (s.frpsOnline, s.frpsVersion)) = some (true, []) := by decide +kernel
  have huser : (beforeAnswer.bind fun s => (whoLogsIn s).map fun w =>
      (trafficSummary w.2.2, w.2.2.tunnelLimit, w.2.2.tunnels, w.2.2.trafficUsedBytes)) =
      some (.default, 5, [], 0) := by
    decide +kernel
  obtain ⟨s, hs, hexec⟩ := Option.bind_eq_some_iff.1 hexec
  rw [hs, Option.bind_some] at hread huser
  rw [hs, Option.map_some] at hup
  obtain ⟨⟨envelope, c, u⟩, hw, hexec⟩ := Option.bind_eq_some_iff.1 hexec
  rw [hw, Option.map_some] at hread huser
  obtain ⟨t, ht, hexec⟩ := Option.map_eq_some_iff.1 hexec
  simp only [Prod.mk.injEq, Option.some.injEq] at hexec hread huser hup
  obtain ⟨hempty, hfresh, hrecords, hspeed, hlimit⟩ := hexec
  obtain ⟨hsecret, hsalt, hport, htoken⟩ := hread
  obtain ⟨honline, hversion⟩ := hup
  obtain ⟨hsummary, htunnelLimit, htunnels, hused⟩ := huser
  have hu : s.underway[0]? = some (.loggingIn envelope c u) := by
    unfold whoLogsIn at hw
    split at hw
    · rename_i h
      cases hw
      exact h
    · cases hw
  have hl : wire.Lawful := ⟨sealing_lawful.aead_total⟩
  have hf : CountsFit u := by
    refine ⟨?_, ?_, ?_, ?_, fun e he => ?_⟩
    · rw [htunnelLimit]; decide
    · rw [hspeed]; decide
    · rw [hlimit]; decide
    · rw [hused]; decide
    · rw [List.length_eq_zero_iff.1 hrecords] at he
      cases he
  have hwritten : (written exchanged (stamped (.object (loginFields u c.frpsBindPort
      (grantedToken c u (s.frpsOnline && aMoment.connects)) s.frpsVersion aMoment.serverTime)) aMoment.sealedAt)).isSome := by
    have hsame : loginFields u c.frpsBindPort (grantedToken c u (s.frpsOnline && aMoment.connects)) s.frpsVersion
        aMoment.serverTime = loginFields newcomer FRPS_PORT ['t'] [] 1000 := by
      unfold loginFields grantedToken
      rw [hsummary, hport, htoken, honline, hversion, htunnels, htunnelLimit]
      decide +kernel
    rw [hsame]
    decide +kernel
  obtain ⟨answer, hanswers, -, hanswered⟩ := login_read hl wire_inverse (listing_rereads _ _)
    ⟨emptyFront, loginBegins, emptyFront_starts, beforeAnswer_run hs⟩ hu ht rfl ⟨by decide, by decide⟩ ⟨by decide, by decide⟩ hf hwritten
  refine ⟨s, t, answer, hs, ht, ?_, ?_⟩
  · rw [hanswers, List.length_eq_zero_iff.1 hempty]
    rfl
  · have hdata := hanswered hfresh 1100 (by decide)
    rw [hsecret, hsalt] at hdata
    rw [hdata, hport, hsummary, htunnelLimit, htunnels, hversion]
    unfold grantedToken
    rw [hsummary, htoken, honline]
    rfl

end OrangeFrp.App
