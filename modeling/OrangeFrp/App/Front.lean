import OrangeFrp.App.Ledger
import OrangeFrp.App.RateLimit
import OrangeFrp.App.Requests
import OrangeFrp.App.Site

/-!
# The API in front of a site (`frp-game-server/src/app.rs`)

A request passes the limiter, is read under the lock of the configuration, and, if it is
authenticated, passes the replay guard. `usage` and `tunnels` keep the lock to their end.
`hello` and `login` give it back and go on with what they have read; until they answer the
administrators, the other requests and the accounting go on, and the service may stop.

A `tunnels` request is one step here: no administrator saves between its two saves, and its
handler is not dropped while it brings the listeners up. `App.Service` has these splits.

* `tunnelsRequest_continues`: what a request leaves of the configuration.
* `front_refines`: to the site a request is nothing, or the save of the user it is from.
-/
namespace OrangeFrp.App

open OrangeFrp.Core OrangeFrp.Storage OrangeFrp.Controller

/-! ## Requests and answers -/

inductive Request where
  | hello
  | call (op : Operation) (envelope : Envelope)

/-- mirrors crates/frp-game-server/src/app.rs:1670,1702,1751,1890 -/
def Request.cost : Request → Rat
  | .hello => 1
  | .call .login _ => 8
  | .call .tunnels _ => 3
  | .call .usage _ => 2

/-- mirrors crates/frp-game-server/src/app.rs:1671,1703,1752,1891 -/
def Request.limited : Request → String
  | .call .login _ => "登录请求过于频繁"
  | _ => "请求过于频繁"

/-- `api_error`, a body in the clear, and an envelope. -/
inductive Answer where
  | error (status : Nat) (message : String)
  | plain (body : Value)
  | sealed (status : Nat) (envelope : Envelope)

/-- An answer, with whether its handler took frps to be online (ghost). -/
structure Reply where
  request : Request
  answer : Answer
  online : Bool

/-- And with what the handler of a call has read: the configuration, and the user in it who
was authenticated (ghost). -/
structure Answered extends Reply where
  read : Option (ServerConfig × ServerUser)

/-- Where a request is: behind the limiter, or with what it has read. -/
inductive Underway where
  | admitted (request : Request)
  | greeting (c : ServerConfig)
  | loggingIn (envelope : Envelope) (c : ServerConfig) (u : ServerUser)

/-- What a step of a handler finds: the clocks of the attempts, the monotonic clock, whether
frps takes a connection, the clocks of the answer, and its nonce. -/
structure Moment where
  nowUnix : Nat → Int
  entered : Nat
  env : Env
  connects : Bool
  serverTime : Int
  sealedAt : Int
  nonce : Bytes

structure Front (τ : Type) where
  site : Site τ
  replay : ReplayGuard
  rateLimit : ApiRateLimiter
  frpsVersion : Str
  frpsOnline : Bool
  underway : List Underway
  answers : List Answered

inductive FrontEvent where
  | site (event : SiteEvent) (frpsVersion : Str)
  | online (up : Bool)
  | arrive (ip : IpAddr) (request : Request) (now : Rat)
  | advance (position : Nat) (m : Moment)

/-- mirrors crates/frp-game-server/src/app.rs:1775-1780,1789,1801,1812,1842,1858,1868-1873,1880 -/
def Response.body : Response → Nat × Value
  | .ok tunnels tunnelLimit traffic => (200, tunnelsBody tunnels tunnelLimit traffic)
  | .failed status message => (status, errorBody message.toList)

section
variable {τ : Type} [Double τ] (P : Primitives) (toVec : Value → Option Bytes) (serverVersion : Str)

/-- mirrors crates/frp-game-server/src/app.rs:1587-1600 -/
def encryptedResponse (apiSalt : Str) (u : ServerUser) (status : Nat) (body : Value) (m : Moment) : Answer :=
  match encryptPayload P toVec u.secret apiSalt body m.sealedAt m.nonce with
  | .ok envelope => .sealed status envelope
  | .error _ => .error 500 "服务器内部错误"

/-- The FRPS token that a login gives.
mirrors crates/frp-game-server/src/app.rs:1721-1728 -/
def grantedToken (c : ServerConfig) (u : ServerUser) (online : Bool) : Str :=
  if (trafficSummary u).exhausted || !online then [] else c.frpsToken

namespace Front

/-- The request is answered. -/
def answered (s : Front τ) (position : Nat) (reply : Reply) (read : Option (ServerConfig × ServerUser)) :
    Front τ :=
  { s with underway := s.underway.eraseIdx position, answers := s.answers ++ [⟨reply, read⟩] }

/-- mirrors crates/frp-game-server/src/app.rs:1718-1743 -/
def login (s : Front τ) (position : Nat) (envelope : Envelope) (c : ServerConfig) (u : ServerUser) (m : Moment) :
    Front τ :=
  let online := s.frpsOnline && m.connects
  match s.replay.accept P u.id Operation.login.name envelope.nonce m.entered with
  | (false, replay) =>
    { s with replay := replay }.answered position
      ⟨.call .login envelope, .error 409 Operation.login.duplicate, online⟩ (some (c, u))
  | (true, replay) =>
    { s with replay := replay }.answered position
      ⟨.call .login envelope, encryptedResponse P toVec c.apiSalt u 200
        (.object (loginFields u c.frpsBindPort (grantedToken c u online) s.frpsVersion m.serverTime)) m, online⟩
      (some (c, u))

/-- mirrors crates/frp-game-server/src/app.rs:1893-1916 -/
def usage (s : Front τ) (position : Nat) (envelope : Envelope) (c : ServerConfig) (m : Moment) : Front τ :=
  match decryptAndAuth P c envelope .usage m.nowUnix with
  | .error _ => s.answered position ⟨.call .usage envelope, .error 401 "认证失败", false⟩ none
  | .ok auth =>
    match s.replay.accept P auth.user.id Operation.usage.name envelope.nonce m.entered with
    | (false, replay) =>
      { s with replay := replay }.answered position
        ⟨.call .usage envelope,
          encryptedResponse P toVec c.apiSalt auth.user 409 (errorBody Operation.usage.duplicate.toList) m, false⟩
        (some (c, auth.user))
    | (true, replay) =>
      { s with replay := replay }.answered position
        ⟨.call .usage envelope, encryptedResponse P toVec c.apiSalt auth.user 200 (usageBody auth.user) m, false⟩
        (some (c, auth.user))

/-- mirrors crates/frp-game-server/src/app.rs:1754-1882 -/
def tunnels (s : Front τ) (position : Nat) (envelope : Envelope) (p : Process τ) (m : Moment) : Front τ :=
  match decryptAndAuth P p.config envelope .tunnels m.nowUnix with
  | .error _ => s.answered position ⟨.call .tunnels envelope, .error 401 "认证失败", false⟩ none
  | .ok auth =>
    match s.replay.accept P auth.user.id Operation.tunnels.name envelope.nonce m.entered with
    | (false, replay) =>
      { s with replay := replay }.answered position
        ⟨.call .tunnels envelope,
          encryptedResponse P toVec p.config.apiSalt auth.user 409 (errorBody Operation.tunnels.duplicate.toList) m,
          false⟩
        (some (p.config, auth.user))
    | (true, replay) =>
      let r := tunnelsRequest P ⟨s.site.disk, p.config, p.controller⟩ auth.userIndex auth.user
        (Action.ofPayload auth.payload) m.env
      let user := (r.1.config.users[auth.userIndex]?).getD auth.user
      { s with
        site := { s.site with disk := r.1.disk, server := some ⟨r.1.config, r.1.controller⟩ }
        replay := replay }.answered position
        ⟨.call .tunnels envelope, encryptedResponse P toVec r.1.config.apiSalt user r.2.body.1 r.2.body.2 m, false⟩
        (some (p.config, auth.user))

/-- The next step of a request.
mirrors crates/frp-game-server/src/app.rs:1666-1917 -/
def advance (s : Front τ) (position : Nat) (m : Moment) (p : Process τ) : Underway → Front τ
  | .admitted .hello => { s with underway := s.underway.set position (.greeting p.config) }
  | .admitted (.call .login envelope) =>
    match decryptAndAuth P p.config envelope .login m.nowUnix with
    | .error _ => s.answered position ⟨.call .login envelope, .error 401 "认证失败", false⟩ none
    | .ok auth => { s with underway := s.underway.set position (.loggingIn envelope p.config auth.user) }
  | .admitted (.call .usage envelope) => s.usage P toVec position envelope p.config m
  | .admitted (.call .tunnels envelope) => s.tunnels P toVec position envelope p m
  | .greeting c =>
    let online := s.frpsOnline && m.connects
    s.answered position
      ⟨.hello, .plain (.object (helloFields c serverVersion s.frpsVersion online m.serverTime)), online⟩ none
  | .loggingIn envelope c u => s.login P toVec position envelope c u m

/-- A start of the service has a new limiter and a new guard; requests end with it.
mirrors crates/frp-game-server/src/app.rs:1666-1917,2072-2119 -/
def step (s : Front τ) : FrontEvent → Option (Front τ)
  | .site (.request ..) _ => none
  | .site (.serve apiOnly world e) version =>
    (Site.step P s.site (.serve apiOnly world e)).map fun site =>
      { s with
        site := site, replay := ⟨∅, []⟩, rateLimit := .default, frpsVersion := version, frpsOnline := false
        underway := [] }
  | .site .stop _ => (Site.step P s.site .stop).map fun site => { s with site := site, underway := [] }
  | .site event _ => (Site.step P s.site event).map fun site => { s with site := site }
  | .online up => some { s with frpsOnline := up }
  | .arrive ip request now =>
    if s.site.server.isSome then
      match s.rateLimit.allow ip request.cost now with
      | (true, l) => some { s with rateLimit := l, underway := s.underway ++ [.admitted request] }
      | (false, l) =>
        some { s with
          rateLimit := l, answers := s.answers ++ [⟨⟨request, .error 429 request.limited, false⟩, none⟩] }
    else none
  | .advance position m =>
    s.site.server.bind fun p => (s.underway[position]?).map (s.advance P toVec serverVersion position m p)

end Front

/-- A site before its first start. -/
def Front.Starts (s : Front τ) : Prop :=
  (s.site.disk.db.settings = none ∧ s.site.commands = [] ∧ s.site.server = none) ∧ s.underway = [] ∧ s.answers = []

def front : LTS (Front τ) FrontEvent := .ofFn Front.Starts (Front.step P toVec serverVersion)

end

/-! ## What a request leaves alone -/

/-- The users differ in tunnels, records and the clock. -/
def SameAccount (u v : ServerUser) : Prop :=
  v = { u with tunnels := v.tunnels, trafficByProxy := v.trafficByProxy, updatedAt := v.updatedAt }

/-- The settings stay, and so do the users, one by one. -/
structure Continues (c c' : ServerConfig) : Prop where
  settings : c' = { c with revision := c'.revision, updatedAt := c'.updatedAt, users := c'.users }
  users : List.Forall₂ SameAccount c.users c'.users

section
variable {P : Primitives}

theorem sameAccount_refl (us : List ServerUser) : List.Forall₂ SameAccount us us := by
  induction us with
  | nil => exact .nil
  | cons u us ih => exact .cons rfl ih

theorem sameAccount_of_sameName {u v : ServerUser} (h : SameButNames u v) : SameAccount u v := by
  unfold SameAccount
  rw [h.1]

theorem SameAccount.trans {u v w : ServerUser} (h : SameAccount u v) (h' : SameAccount v w) : SameAccount u w := by
  unfold SameAccount at *
  rw [h', h]

theorem Continues.refl (c : ServerConfig) : Continues c c := ⟨rfl, sameAccount_refl c.users⟩

theorem save_settings {disk disk' : Disk} {c c' : ServerConfig} {e e' : Entropy}
    (h : save P disk c e = (disk', .ok (c', e'))) : c' = { c with revision := c'.revision, users := c'.users } := by
  obtain ⟨disk₁, e₁, hs⟩ := save_saved h
  obtain ⟨c₁, hn, rfl⟩ := hs.normalized
  have hc₁ : c₁ = { c with users := c₁.users } := (normalize_valid P hn).2
  rw [hc₁]

theorem candidate_sameAccount {c : ServerConfig} {i : Nat} {pre post : List ServerUser} {a : ServerUser}
    (hat : At c i pre a post) (ts : List Tunnel) (now : Int) :
    List.Forall₂ SameAccount c.users (candidate c i a ts now).users := by
  rw [hat.users, hat.candidate_users]
  exact List.rel_append (sameAccount_refl pre) (.cons rfl (sameAccount_refl post))

theorem forall₂_sameAccount_trans {us vs ws : List ServerUser} (h : List.Forall₂ SameAccount us vs)
    (h' : List.Forall₂ SameAccount vs ws) : List.Forall₂ SameAccount us ws := by
  induction h generalizing ws with
  | nil => cases h'; exact .nil
  | cons huv _ ih =>
    cases h' with
    | cons hvw h' => exact .cons (huv.trans hvw) (ih h')

variable {τ : Type} [Double τ] {s : Server τ} {i : Nat} {a : ServerUser} {env : Env}

omit [Double τ] in
theorem StoredCandidate.continues {ts : List Tunnel} {disk : Disk} {stored : ServerConfig}
    (h : StoredCandidate P s i a env ts disk stored) (hv : Valid P s.config) (hi : s.config.users[i]? = some a) :
    Continues s.config stored := by
  obtain ⟨pre, post, hat⟩ := exists_at hi
  obtain ⟨e', hsave⟩ := h.saved
  refine ⟨?_, forall₂_sameAccount_trans (candidate_sameAccount hat ts env.now)
    ((candidate_sameNames hv hat h.accepted hsave).imp fun _ _ => sameAccount_of_sameName)⟩
  have hset := save_settings hsave
  rw [hset]
  rfl

/-- **A request** changes of the configuration the tunnels and the records of users. -/
theorem tunnelsRequest_continues (hv : Valid P s.config) (hi : s.config.users[i]? = some a) (action : Action)
    (env : Env) :
    Continues s.config (tunnelsRequest P s i a action env).1.config := by
  have hsame := Continues.refl s.config
  cases action with
  | list => exact hsame
  | unknown => exact hsame
  | save submitted =>
    rcases @saveTunnels_cases τ _ P s i a env submitted with
      h | ⟨ts, disk, error, -, -, h⟩ | ⟨ts, disk, stored, hst, h, -⟩ |
        ⟨ts, disk, stored, k, error, hst, -, -, h⟩ <;>
      simp only [tunnelsRequest, h]
    · exact hsame
    · exact hsame
    · exact hst.continues hv hi
    · unfold rollback
      dsimp only
      split
      · rename_i disk' original e' hsave
        refine ⟨?_, (original_replaces hv hsave).2.imp fun _ _ => sameAccount_of_sameName⟩
        have hset := save_settings hsave
        rw [hset]
      · exact hsame

end

/-! ## What a step is to the site -/

/-- Nothing, an event of the administrators or of the accounting, or the save of a user. -/
inductive Mirrors {τ : Type} [Double τ] (P : Primitives) (s t : Front τ) : Prop
  | idle (same : t.site = s.site)
  | event (event : SiteEvent) (own : ∀ userIndex action env, event ≠ .request userIndex action env)
      (step : Site.step P s.site event = some t.site)
  | saved (envelope : Envelope) (p p' : Process τ) (auth : AuthContext) (submitted : Option (List Tunnel)) (m : Moment)
      (pending : .admitted (.call .tunnels envelope) ∈ s.underway)
      (server : s.site.server = some p)
      (sender : decryptAndAuth P p.config envelope .tunnels m.nowUnix = .ok auth)
      (fresh : (s.replay.accept P auth.user.id Operation.tunnels.name envelope.nonce m.entered).1 = true)
      (action : Action.ofPayload auth.payload = .save submitted)
      (step : Site.step P s.site (.request auth.userIndex (.save submitted) m.env) = some t.site)
      (after : t.site.server = some p')
      (continues : Continues p.config p'.config)

section
variable {τ : Type} [Double τ] {P : Primitives} {toVec : Value → Option Bytes} {serverVersion : Str} {s t : Front τ}

omit [Double τ] in
theorem Front.login_site (position : Nat) (envelope : Envelope) (c : ServerConfig) (u : ServerUser) (m : Moment) :
    (s.login P toVec position envelope c u m).site = s.site := by
  unfold Front.login
  dsimp only
  split <;> rfl

omit [Double τ] in
theorem Front.usage_site (position : Nat) (envelope : Envelope) (c : ServerConfig) (m : Moment) :
    (s.usage P toVec position envelope c m).site = s.site := by
  unfold Front.usage
  split
  · rfl
  split <;> rfl

theorem Front.tunnels_mirrors {position : Nat} {envelope : Envelope} {p : Process τ} (m : Moment)
    (hp : s.site.server = some p) (hv : Valid P p.config)
    (hpending : .admitted (.call .tunnels envelope) ∈ s.underway) :
    Mirrors P s (s.tunnels P toVec position envelope p m) := by
  unfold Front.tunnels
  split
  · exact .idle rfl
  rename_i auth hauth
  split
  · exact .idle rfl
  rename_i replay haccept
  have hfresh : (s.replay.accept P auth.user.id Operation.tunnels.name envelope.nonce m.entered).1 = true := by
    rw [haccept]
  have hi := (decryptAndAuth_ok hauth).1
  have hself : ({ s.site with disk := s.site.disk, server := some ⟨p.config, p.controller⟩ } : Site τ) = s.site := by
    rw [show (⟨p.config, p.controller⟩ : Process τ) = p from rfl, ← hp]
  cases haction : Action.ofPayload auth.payload with
  | list => exact .idle hself
  | unknown => exact .idle hself
  | save submitted =>
    refine .saved envelope p _ auth submitted m hpending hp hauth hfresh haction ?_ rfl
      (tunnelsRequest_continues (s := ⟨s.site.disk, p.config, p.controller⟩) hv hi (.save submitted) m.env)
    simp only [Site.step, hp, hi, bind, Option.bind]
    rfl

/-- **Every step of the API** is one of the site, or none. -/
theorem Front.step_mirrors {l : FrontEvent} (hv : ∀ p, s.site.server = some p → Valid P p.config)
    (h : s.step P toVec serverVersion l = some t) : Mirrors P s t := by
  cases l with
  | site event version =>
    cases event with
    | request userIndex action env => cases h
    | stop =>
      simp only [Front.step, Option.map_eq_some_iff] at h
      obtain ⟨site, hs, rfl⟩ := h
      exact .event .stop (fun _ _ _ => nofun) hs
    | serve apiOnly world e =>
      simp only [Front.step, Option.map_eq_some_iff] at h
      obtain ⟨site, hs, rfl⟩ := h
      exact .event (.serve apiOnly world e) (fun _ _ _ => nofun) hs
    | initializeStore e =>
      simp only [Front.step, Option.map_eq_some_iff] at h
      obtain ⟨site, hs, rfl⟩ := h
      exact .event (.initializeStore e) (fun _ _ _ => nofun) hs
    | create new now e =>
      simp only [Front.step, Option.map_eq_some_iff] at h
      obtain ⟨site, hs, rfl⟩ := h
      exact .event (.create new now e) (fun _ _ _ => nofun) hs
    | commandRead e =>
      simp only [Front.step, Option.map_eq_some_iff] at h
      obtain ⟨site, hs, rfl⟩ := h
      exact .event (.commandRead e) (fun _ _ _ => nofun) hs
    | commandSave position command now drawn e =>
      simp only [Front.step, Option.map_eq_some_iff] at h
      obtain ⟨site, hs, rfl⟩ := h
      exact .event (.commandSave position command now drawn e) (fun _ _ _ => nofun) hs
    | flush pending e =>
      simp only [Front.step, Option.map_eq_some_iff] at h
      obtain ⟨site, hs, rfl⟩ := h
      exact .event (.flush pending e) (fun _ _ _ => nofun) hs
  | online up => cases h; exact .idle rfl
  | arrive ip request now =>
    simp only [Front.step] at h
    split at h
    · split at h <;> cases h <;> exact .idle rfl
    · cases h
  | advance position m =>
    obtain ⟨p, hp, h⟩ := Option.bind_eq_some_iff.1 h
    obtain ⟨u, hu, rfl⟩ := Option.map_eq_some_iff.1 h
    cases u with
    | greeting c => exact .idle rfl
    | loggingIn envelope c u => exact .idle (Front.login_site position envelope c u m)
    | admitted request =>
      cases request with
      | hello => exact .idle rfl
      | call op envelope =>
        cases op with
        | login =>
          refine .idle ?_
          unfold Front.advance
          dsimp only
          split <;> rfl
        | usage => exact .idle (Front.usage_site position envelope p.config m)
        | tunnels => exact Front.tunnels_mirrors m hp (hv p hp) (List.mem_of_getElem? hu)

theorem Mirrors.reachable (h : Mirrors P s t) (hs : (site P).Reachable s.site) : (site P).Reachable t.site := by
  cases h with
  | idle same => rw [same]; exact hs
  | event event _ step => exact hs.step step
  | saved envelope p p' auth submitted m _ _ _ _ _ step _ _ => exact hs.step step

theorem front_site_inductive : (front P toVec serverVersion : LTS (Front τ) FrontEvent).Inductive
    fun s => (site P).Reachable s.site where
  init _ h := LTS.reachable_init h.1
  step _ _ _ h hst := (Front.step_mirrors (site_inductive.reachable _ h).server hst).reachable h

/-- **What the API does to a site.** However requests, administrators and the accounting
interleave, with a `tunnels` request as one step, the site takes steps of its own, and a step that is none of theirs is the save of a
user who is authenticated and whose request is new. It changes tunnels and records. -/
theorem front_refines (h : (front P toVec serverVersion).Reachable s) : (site P).Reachable s.site ∧
    ∀ l t, s.step P toVec serverVersion l = some t → Mirrors P s t := by
  have hr := front_site_inductive.reachable s h
  exact ⟨hr, fun l t hst => Front.step_mirrors (site_inductive.reachable _ hr).server hst⟩

end

/-! ## The first save -/

/-- `serde_json` for the values of a list; a text is as long as its value is far down the list. -/
def listing (P : Primitives) (values : List Value) : Primitives :=
  { P with parseJson := fun text => values[text.length]? }

def written (values : List Value) (v : Value) : Option Bytes :=
  (values.findIdx? fun w => w = v).map fun i => List.replicate i 0

/-- The user as `command_add_user` makes her. -/
def newcomer : ServerUser := { sampleUser 'b' [] with tunnelLimit := 5 }

def siteSalt : Str := List.replicate 32 's'

def aNonce : Bytes := List.replicate NONCE_LENGTH 7

def aMoment : Moment :=
  ⟨fun _ => 1000, 0, ⟨3, .constant, zeros, zeros, emptyWorld, emptyWorld⟩, true, 1000, 1000, aNonce⟩

/-- What she seals. -/
def sealedBy (values : List Value) (body : Value) : Envelope :=
  match encryptPayload (listing .sealing values) (written values) newcomer.secret siteSalt body 1000 aNonce with
  | .ok envelope => envelope
  | .error _ => ⟨0, [], []⟩

def emptyFront : Front Rat := ⟨⟨⟨Db.empty, none, []⟩, [], none⟩, ⟨∅, []⟩, .default, [], false, [], []⟩

/-- An installation, a user, and the service. -/
def opening : List FrontEvent := [
  .site (.create ⟨['h'], API_PORT, FRPS_PORT, ['f'], siteSalt, ['t']⟩ 1 zeros) [],
  .site (.commandRead zeros) [],
  .site (.commandSave 0 (.addUser ⟨['b'], "password".toList, 0, 0, 5, newcomer.secret⟩) 2 zeros zeros) [],
  .site (.serve true emptyWorld zeros) [],
  .online true]

def saveBody : Value := Value.object [("op".toList, .str "tunnels".toList), ("account".toList, .str ['b']),
  ("key".toList, .str newcomer.secret), ("password".toList, .str "password".toList),
  ("action".toList, .str "save".toList), ("tunnels".toList, Tunnel.listToValue [sampleTunnel ['x'] 5 0])]

def beforeSave : Option (Front Rat) :=
  let values := [stamped saveBody 1000]
  LTS.exec (Front.step (listing .sealing values) (written values) []) emptyFront
    (opening ++ [.arrive (.v4 1) (.call .tunnels (sealedBy values saveBody)) 0])

/-- She has a tunnel by a step of the site. -/
theorem firstSave_mirrored : ∃ (s t : Front Rat), beforeSave = some s ∧
    (site (listing .sealing [stamped saveBody 1000])).Reachable s.site ∧
    Mirrors (listing .sealing [stamped saveBody 1000]) s t ∧
    (t.site.server.map fun p => p.config.tunnels.length) = some 1 := by
  have hexec : (beforeSave.bind fun s => (s.step (listing .sealing [stamped saveBody 1000])
      (written [stamped saveBody 1000]) [] (.advance 0 aMoment)).bind fun t =>
        t.site.server.map fun p => p.config.tunnels.length) = some 1 := by decide +kernel
  obtain ⟨s, hs, hexec⟩ := Option.bind_eq_some_iff.1 hexec
  obtain ⟨t, ht, hone⟩ := Option.bind_eq_some_iff.1 hexec
  have hreach : (front (listing .sealing [stamped saveBody 1000]) (written [stamped saveBody 1000]) []).Reachable s :=
    ⟨emptyFront, _, ⟨⟨rfl, rfl, rfl⟩, rfl, rfl⟩, LTS.run_of_exec hs⟩
  obtain ⟨hsite, hsteps⟩ := front_refines hreach
  exact ⟨s, t, hs, hsite, hsteps _ t ht, hone⟩

end OrangeFrp.App
