import OrangeFrp.App.Front

/-!
# What an outsider sees of the API (`frp-game-server/src/app.rs`)

A caller without the credentials of a user gets greetings, refusals of the limiter and 401. An
abstract machine answers such callers from the public settings alone. In a run in which nobody
is authenticated the API is this machine, whatever users, tunnels and counters there are and
whatever administrators and the accounting do meanwhile; and the site does what they do and
nothing else.

* `PublicView.step`: the machine.
* `front_step_public`: each step of the API is one of the machine, or is not seen.
* `outsiders_see`: every run.
-/
namespace OrangeFrp.App

open OrangeFrp.Core OrangeFrp.Storage OrangeFrp.Controller

/-! ## The machine -/

/-- What `hello` tells of the configuration. -/
structure PublicSettings where
  apiSalt : Str
  apiPort : Port
  frpsBindPort : Port

def publicSettings (c : ServerConfig) : PublicSettings := ⟨c.apiSalt, c.apiPort, c.frpsBindPort⟩

inductive Waiting where
  | request (request : Request)
  | greeting (settings : PublicSettings)

structure PublicView where
  settings : Option PublicSettings
  rateLimit : ApiRateLimiter
  frpsVersion : Str
  frpsOnline : Bool
  waiting : List Waiting
  answers : List Reply

inductive PublicEvent where
  | stop
  | online (up : Bool)
  | arrive (ip : IpAddr) (request : Request) (now : Rat)
  | advance (position : Nat) (connects : Bool) (serverTime : Int)

def PublicSettings.greeting (g : PublicSettings) (serverVersion frpsVersion : Str) (frpsOnline : Bool)
    (serverTime : Int) : Value := .object [
  ("ok".toList, .bool true),
  ("version".toList, .ofNat 1),
  ("server_version".toList, .str serverVersion),
  ("salt".toList, .str g.apiSalt),
  ("api_port".toList, .ofPort g.apiPort),
  ("frps_port".toList, .ofPort g.frpsBindPort),
  ("frps_version".toList, .str frpsVersion),
  ("frps_online".toList, .bool frpsOnline),
  ("server_time".toList, .int serverTime)]

namespace PublicView

def answered (v : PublicView) (position : Nat) (reply : Reply) : PublicView :=
  { v with waiting := v.waiting.eraseIdx position, answers := v.answers ++ [reply] }

def advance (serverVersion : Str) (v : PublicView) (position : Nat) (connects : Bool) (serverTime : Int)
    (g : PublicSettings) : Waiting → PublicView
  | .request .hello => { v with waiting := v.waiting.set position (.greeting g) }
  | .request (.call op envelope) => v.answered position ⟨.call op envelope, .error 401 "认证失败", false⟩
  | .greeting g =>
    let online := v.frpsOnline && connects
    v.answered position ⟨.hello, .plain (g.greeting serverVersion v.frpsVersion online serverTime), online⟩

def step (serverVersion : Str) (v : PublicView) : PublicEvent → Option PublicView
  | .stop => some { v with settings := none, waiting := [] }
  | .online up => some { v with frpsOnline := up }
  | .arrive ip request now =>
    if v.settings.isSome then
      match v.rateLimit.allow ip request.cost now with
      | (true, l) => some { v with rateLimit := l, waiting := v.waiting ++ [.request request] }
      | (false, l) =>
        some { v with rateLimit := l, answers := v.answers ++ [⟨request, .error 429 request.limited, false⟩] }
    else none
  | .advance position connects serverTime =>
    v.settings.bind fun g => (v.waiting[position]?).map (v.advance serverVersion position connects serverTime g)

end PublicView

/-! ## What is seen -/

def Underway.view : Underway → Waiting
  | .admitted request => .request request
  | .greeting c => .greeting (publicSettings c)
  | .loggingIn envelope _ _ => .request (.call .login envelope)

def Front.view {τ : Type} (s : Front τ) : PublicView where
  settings := s.site.server.map fun p => publicSettings p.config
  rateLimit := s.rateLimit
  frpsVersion := s.frpsVersion
  frpsOnline := s.frpsOnline
  waiting := s.underway.map Underway.view
  answers := s.answers.map (·.toReply)

/-- What can be seen of an event; of the other ones nothing can. -/
def FrontEvent.seen : FrontEvent → Option PublicEvent
  | .site .stop _ => some .stop
  | .site _ _ => none
  | .online up => some (.online up)
  | .arrive ip request now => some (.arrive ip request now)
  | .advance position m => some (.advance position m.connects m.serverTime)

def FrontEvent.ofSite : FrontEvent → Option SiteEvent
  | .site event _ => some event
  | _ => none

/-- Who the call is from that a handler reads in its next step. -/
def Front.caller {τ : Type} (P : Primitives) (s : Front τ) (position : Nat) (m : Moment) : Option AuthContext := do
  let p ← s.site.server
  match s.underway[position]? with
  | some (.admitted (.call op envelope)) => (decryptAndAuth P p.config envelope op m.nowUnix).toOption
  | _ => none

/-- The service is not started, and a call that is read is nobody's. -/
def Outside {τ : Type} (P : Primitives) (s : Front τ) : FrontEvent → Prop
  | .site (.serve ..) _ => False
  | .advance position m => s.caller P position m = none
  | _ => True

instance {τ : Type} (P : Primitives) (s : Front τ) (l : FrontEvent) : Decidable (Outside P s l) := by
  unfold Outside
  split <;> infer_instance

/-- Nobody is in the middle of a login. -/
def Front.NoLogin {τ : Type} (s : Front τ) : Prop := ∀ envelope c u, .loggingIn envelope c u ∉ s.underway

section
variable {τ : Type} [Double τ] {P : Primitives} {toVec : Value → Option Bytes} {serverVersion : Str} {s t : Front τ}

omit [Double τ] in
theorem Front.NoLogin.answered (h : s.NoLogin) (position : Nat) (reply : Reply)
    (read : Option (ServerConfig × ServerUser)) : (s.answered position reply read).NoLogin := by
  intro envelope c u hu
  exact h envelope c u (List.mem_of_mem_eraseIdx hu)

omit [Double τ] in
theorem Front.answered_view (position : Nat) (reply : Reply) (read : Option (ServerConfig × ServerUser)) :
    (s.answered position reply read).view = s.view.answered position reply := by
  unfold Front.view Front.answered PublicView.answered
  simp only [PublicView.mk.injEq, true_and, List.map_append, List.map_cons, List.map_nil, and_true]
  exact (List.eraseIdx_map ..).symm

omit [Double τ] in
/-- The accounting keeps the settings. -/
theorem flushPending_publicSettings {disk : Disk} {c : ServerConfig} (pending : Pending) (e : Entropy) :
    publicSettings (flushPending P disk c pending e).2.1 = publicSettings c := by
  rcases flushPending_cases (P := P) disk c pending e with
    ⟨-, hf⟩ | ⟨disk', error, -, hf⟩ | ⟨disk', stored, e', -, hsave, hf⟩ <;> rw [hf]
  have hset := save_settings hsave
  rw [hset]
  rfl

/-- A step of the API for a caller, and for the site. -/
structure PublicStep (P : Primitives) (serverVersion : Str) (s : Front τ) (l : FrontEvent) (t : Front τ) : Prop where
  noLogin : t.NoLogin
  view : LTS.exec (PublicView.step serverVersion) s.view l.seen.toList = some t.view
  site : (site P).Run s.site l.ofSite.toList t.site

/-- A handler goes on. -/
theorem front_advance_public {position : Nat} {m : Moment} {p : Process τ} {u : Underway}
    (hs : s.NoLogin) (hp : s.site.server = some p) (hu : s.underway[position]? = some u)
    (hg : Outside P s (.advance position m)) :
    PublicStep P serverVersion s (.advance position m) (s.advance P toVec serverVersion position m p u) := by
  have hsettings : s.view.settings = some (publicSettings p.config) := by
    simp only [Front.view, hp, Option.map_some]
  have hwaiting : s.view.waiting[position]? = some u.view := by
    simp only [Front.view, List.getElem?_map, hu, Option.map_some]
  have hview : LTS.exec (PublicView.step serverVersion) s.view (FrontEvent.advance position m).seen.toList =
      some (s.view.advance serverVersion position m.connects m.serverTime (publicSettings p.config) u.view) := by
    simp only [FrontEvent.seen, Option.toList, LTS.exec, PublicView.step, hsettings, hwaiting, Option.bind_some,
      Option.map_some]
  have hrun : (OrangeFrp.App.site P : LTS (Site τ) SiteEvent).Run s.site [] s.site := .nil _
  cases u with
  | loggingIn envelope c u => exact absurd (List.mem_of_getElem? hu) (hs envelope c u)
  | greeting c =>
    -- the settings of the greeting are those of the configuration it has read
    refine ⟨hs.answered position _ _, ?_, hrun⟩
    rw [hview]
    simp only [Front.advance, Front.answered_view]
    rfl
  | admitted request =>
    cases request with
    | hello =>
      refine ⟨fun envelope c u h => ?_, ?_, hrun⟩
      · rcases List.mem_or_eq_of_mem_set h with h | h
        · exact hs envelope c u h
        · cases h
      · rw [hview]
        simp only [Front.advance, Front.view, List.map_set, Underway.view, PublicView.advance]
    | call op envelope =>
      have hnobody : (decryptAndAuth P p.config envelope op m.nowUnix).toOption = none := by
        have := hg
        simp only [Outside, Front.caller, hp, hu, bind, Option.bind] at this
        exact this
      obtain ⟨error, he⟩ : ∃ error, decryptAndAuth P p.config envelope op m.nowUnix = .error error := by
        cases h : decryptAndAuth P p.config envelope op m.nowUnix with
        | error error => exact ⟨error, rfl⟩
        | ok auth => rw [h] at hnobody; cases hnobody
      have hanswer : s.advance P toVec serverVersion position m p (.admitted (.call op envelope)) =
          s.answered position ⟨.call op envelope, .error 401 "认证失败", false⟩ none := by
        cases op with
        | login => simp only [Front.advance, he]
        | usage => simp only [Front.advance, Front.usage, he]
        | tunnels => simp only [Front.advance, Front.tunnels, he]
      rw [hanswer]
      refine ⟨hs.answered position _ _, ?_, hrun⟩
      rw [hview, Front.answered_view]
      rfl

/-- **Every step of the API** in which nobody is authenticated is one of the machine. -/
theorem front_step_public {l : FrontEvent} (hs : s.NoLogin) (hg : Outside P s l)
    (h : s.step P toVec serverVersion l = some t) : PublicStep P serverVersion s l t := by
  cases l with
  | site event version =>
    -- an event that keeps the settings of the process is not seen
    have hunseen {site : Site τ} (hst : Site.step P s.site event = some site)
        (hkeep : (site.server.map fun p => publicSettings p.config) =
          s.site.server.map fun p => publicSettings p.config)
        (hseen : (FrontEvent.site event version).seen = none) :
        PublicStep P serverVersion s (.site event version) { s with site := site } := by
      refine ⟨hs, ?_, .cons hst (.nil _)⟩
      rw [hseen]
      simp only [Option.toList, LTS.exec, Front.view, hkeep]
    cases event with
    | request userIndex action env => cases h
    | serve apiOnly world e => exact hg.elim
    | stop =>
      cases h
      exact ⟨fun _ _ _ => List.not_mem_nil, rfl, .cons rfl (.nil _)⟩
    | initializeStore e =>
      obtain ⟨site, hst, rfl⟩ := Option.map_eq_some_iff.1 h
      refine hunseen hst ?_ rfl
      simp only [Site.step] at hst
      split at hst <;> cases hst <;> rfl
    | create new now e =>
      cases h
      exact hunseen rfl rfl rfl
    | commandRead e =>
      obtain ⟨site, hst, rfl⟩ := Option.map_eq_some_iff.1 h
      refine hunseen hst ?_ rfl
      simp only [Site.step] at hst
      split at hst <;> cases hst <;> rfl
    | commandSave position command now drawn e =>
      obtain ⟨site, hst, rfl⟩ := Option.map_eq_some_iff.1 h
      refine hunseen hst ?_ rfl
      obtain ⟨c, -, hst⟩ := Option.bind_eq_some_iff.1 hst
      dsimp only at hst
      split at hst <;> cases hst <;> rfl
    | flush pending e =>
      obtain ⟨site, hst, rfl⟩ := Option.map_eq_some_iff.1 h
      refine hunseen hst ?_ rfl
      obtain ⟨p, hp, hst⟩ := Option.bind_eq_some_iff.1 hst
      cases hst
      simp only [hp, Option.map_some, flushPending_publicSettings]
  | online up =>
    cases h
    exact ⟨hs, rfl, .nil _⟩
  | arrive ip request now =>
    simp only [Front.step] at h
    split at h
    · rename_i hup
      have hpublic : s.view.settings.isSome = true := by
        simp only [Front.view, Option.isSome_map, hup]
      split at h
      · rename_i limiter hallow
        cases h
        refine ⟨fun envelope c u hu => ?_, ?_, .nil _⟩
        · rcases List.mem_append.1 hu with hu | hu
          · exact hs envelope c u hu
          · cases List.mem_singleton.1 hu
        · have hallow' : s.view.rateLimit.allow ip request.cost now = (true, limiter) := hallow
          simp only [FrontEvent.seen, Option.toList, LTS.exec, PublicView.step, hpublic, if_true, hallow',
            Option.bind_some, Option.some.injEq]
          simp only [Front.view, List.map_append, List.map_cons, List.map_nil, Underway.view]
      · rename_i limiter hallow
        cases h
        refine ⟨hs, ?_, .nil _⟩
        have hallow' : s.view.rateLimit.allow ip request.cost now = (false, limiter) := hallow
        simp only [FrontEvent.seen, Option.toList, LTS.exec, PublicView.step, hpublic, if_true, hallow',
          Option.bind_some, Option.some.injEq]
        simp only [Front.view, List.map_append, List.map_cons, List.map_nil]
    · cases h
  | advance position m =>
    obtain ⟨p, hp, h⟩ := Option.bind_eq_some_iff.1 h
    obtain ⟨u, hu, rfl⟩ := Option.map_eq_some_iff.1 h
    exact front_advance_public hs hp hu hg

/-- **What an outsider sees.** In every run, as long as the service is up and nobody is
authenticated, the greetings and refusals that callers get are those of the machine, which knows
the public settings, the limiter and the state of frps; and the site has the run of its
administrators and of its accounting, as if nobody had called. -/
theorem outsiders_see {ls : List FrontEvent} (hs : s.NoLogin)
    (h : ((front P toVec serverVersion).restrict (Outside P)).Run s ls t) :
    LTS.exec (PublicView.step serverVersion) s.view (ls.filterMap FrontEvent.seen) = some t.view ∧
      (site P).Run s.site (ls.filterMap FrontEvent.ofSite) t.site := by
  have hstep (s : Front τ) (l : FrontEvent) (t : Front τ) (hs : s.NoLogin)
      (hst : ((front P toVec serverVersion).restrict (Outside P)).step s l t) :
      PublicStep P serverVersion s l t := front_step_public hs hst.2 hst.1
  have hview : (LTS.ofFn (fun _ => True) (PublicView.step serverVersion)).Run s.view (ls.filterMap FrontEvent.seen)
      t.view := by
    refine h.seen (fun s l t hs hst => ?_) hs
    exact ⟨(hstep s l t hs hst).noLogin, LTS.run_of_exec (hstep s l t hs hst).view⟩
  have hsite : (site P).Run s.site (ls.filterMap FrontEvent.ofSite) t.site := by
    refine h.seen (fun s l t hs hst => ?_) hs
    exact ⟨(hstep s l t hs hst).noLogin, (hstep s l t hs hst).site⟩
  exact ⟨LTS.exec_of_run hview, hsite⟩

end

/-- A stray call, a greeting, and an administrator meanwhile. -/
def strayCalls : List FrontEvent := [
  .arrive (.v4 1) (.call .login ⟨0, [], []⟩) 0,
  .arrive (.v4 2) .hello 0,
  .advance 1 aMoment,
  .site (.commandRead zeros) [],
  .advance 0 aMoment,
  .advance 0 aMoment]

theorem strayCalls_seen : ∃ s t : Front Rat,
    LTS.exec (Front.step .sealing (fun _ => none) []) emptyFront opening = some s ∧ t.answers.length = 2 ∧
      LTS.exec (PublicView.step []) s.view (strayCalls.filterMap FrontEvent.seen) = some t.view ∧
      (site .sealing).Run s.site [.commandRead zeros] t.site := by
  have hexec : ((LTS.exec (Front.step .sealing (fun _ => none) []) emptyFront opening).bind fun s =>
      (LTS.exec (fun s l => if Outside .sealing s l then Front.step .sealing (fun _ => none) [] s l else none) s
        strayCalls).map fun t => (s.underway.length, t.answers.length)) = some (0, 2) := by decide +kernel
  obtain ⟨s, hs, hexec⟩ := Option.bind_eq_some_iff.1 hexec
  obtain ⟨t, ht, hexec⟩ := Option.map_eq_some_iff.1 hexec
  obtain ⟨hidle, hanswers⟩ := Prod.mk.inj hexec
  have hnone : s.NoLogin := by
    intro envelope c u hu
    rw [List.length_eq_zero_iff.1 hidle] at hu
    cases hu
  exact ⟨s, t, hs, hanswers, outsiders_see hnone (LTS.restrict_run_of_exec ht)⟩

end OrangeFrp.App
