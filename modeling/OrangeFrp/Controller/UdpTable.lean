import OrangeFrp.Controller.UdpSessions
import OrangeFrp.Core.Custody

/-!
# The table of UDP sessions (`frp-game-server/src/controller.rs`)

What the invariant of the tasks says of the map, of the limits and of the datagrams.
Seen from the datagrams, the listeners are carriers and the channels receivers of
numbered items.

* `UdpServer.step_custody`: a step of the server is a step of the carriers, or none.
* `UdpServer.step_sessions`: only a listener that has a permit makes a session.
* `udp_sessions_kept`: the map has the sessions that are not over.
-/
namespace OrangeFrp.Controller

open OrangeFrp.Core

variable {Peer : Type}

/-! ## Where each datagram is -/

/-- The listeners carry the datagrams, the channels receive them. -/
def UdpServer.custody (s : UdpServer Peer) : Custody Nat Nat where
  held l := (s.listeners[l]?).bind fun q => q.phase.datagram.map (·.number)
  given i := ((s.sessions[i]?).map fun x => x.handed.map (·.number)).getD []
  next := s.received

variable {s : UdpServer Peer} {l : Nat} {q : UdpListener Peer}

theorem UdpServer.custody_held (hq : s.listeners[l]? = some q) :
    s.custody.held l = q.phase.datagram.map (·.number) := by
  show (s.listeners[l]?).bind _ = _
  rw [hq]
  rfl

theorem UdpServer.custody_given {i : Nat} {x : UdpSession Peer} (hx : s.sessions[i]? = some x) :
    s.custody.given i = x.handed.map (·.number) := by
  show ((s.sessions[i]?).map _).getD _ = _
  rw [hx]
  rfl

theorem UdpServer.custody_setListener (hq : s.listeners[l]? = some q) (q' : UdpListener Peer) :
    (s.setListener l q').custody =
      { s.custody with held := Function.update s.custody.held l (q'.phase.datagram.map (·.number)) } := by
  refine Custody.ext (funext fun k => ?_) rfl rfl
  show ((s.listeners.set l q')[k]?).bind _ = Function.update s.custody.held l _ k
  rw [Function.update_apply]
  split
  · rename_i hk
    subst hk
    rw [(set_eq_some hq).2 (.inl ⟨rfl, rfl⟩)]
    rfl
  · rename_i hk
    rw [List.getElem?_set_ne (Ne.symm hk)]
    rfl

/-- The listener keeps what it has in hand. -/
theorem UdpServer.custody_to (hq : s.listeners[l]? = some q) {q' : UdpListener Peer}
    (hd : q'.phase.datagram = q.phase.datagram) : (s.setListener l q').custody = s.custody := by
  rw [UdpServer.custody_setListener hq, hd, ← UdpServer.custody_held hq, Function.update_eq_self]

theorem UdpServer.custody_drop (hq : s.listeners[l]? = some q) {q' : UdpListener Peer}
    (hd : q'.phase.datagram = none) : (s.setListener l q').custody = s.custody.dropped l := by
  rw [UdpServer.custody_setListener hq, hd]
  rfl

theorem UdpServer.custody_setSession {i : Nat} {x x' : UdpSession Peer} (hx : s.sessions[i]? = some x)
    (hh : x'.handed = x.handed) : (s.setSession i x').custody = s.custody := by
  refine Custody.ext rfl (funext fun k => ?_) rfl
  by_cases hk : i = k
  · subst hk
    have hset : (s.setSession i x').sessions[i]? = some x' := (set_eq_some hx).2 (.inl ⟨rfl, rfl⟩)
    rw [UdpServer.custody_given hset, UdpServer.custody_given hx, hh]
  · show (((s.sessions.set i x')[k]?).map _).getD _ = _
    rw [List.getElem?_set_ne hk]
    rfl

theorem UdpServer.custody_handed {i : Nat} {x x' : UdpSession Peer} {d : Datagram} (hx : s.sessions[i]? = some x)
    (hh : x'.handed = x.handed ++ [d]) : (s.setSession i x').custody = s.custody.added i d.number := by
  refine Custody.ext rfl (funext fun k => ?_) rfl
  simp only [Custody.added, Function.update_apply]
  split
  · rename_i hk
    subst hk
    have hset : (s.setSession k x').sessions[k]? = some x' := (set_eq_some hx).2 (.inl ⟨rfl, rfl⟩)
    rw [UdpServer.custody_given hset, UdpServer.custody_given hx, hh, List.map_append]
    rfl
  · rename_i hk
    show (((s.sessions.set i x')[k]?).map _).getD _ = _
    rw [List.getElem?_set_ne (Ne.symm hk)]
    rfl

theorem UdpServer.custody_addSession {x : UdpSession Peer} {d : Datagram} (hh : x.handed = [d]) :
    (s.addSession x).custody = s.custody.added s.sessions.length d.number := by
  refine Custody.ext rfl (funext fun k => ?_) rfl
  simp only [Custody.added, Function.update_apply]
  have hnone (i : Nat) (hi : s.sessions.length ≤ i) : s.custody.given i = [] := by
    show ((s.sessions[i]?).map _).getD _ = _
    rw [List.getElem?_eq_none hi]
    rfl
  split
  · rename_i hk
    subst hk
    rw [UdpServer.custody_given (concat_eq_some.2 (.inr ⟨rfl, rfl⟩)), hh, hnone _ (Nat.le_refl _)]
    rfl
  · rename_i hk
    show (((s.sessions ++ [x])[k]?).map _).getD _ = ((s.sessions[k]?).map _).getD _
    rw [List.getElem?_append]
    split
    · rfl
    · rename_i hge
      have hlt : ([x] : List (UdpSession Peer)).length ≤ k - s.sessions.length := by
        rw [List.length_singleton]
        omega
      rw [List.getElem?_eq_none (Nat.le_of_not_lt hge), List.getElem?_eq_none hlt]

/-- The datagram in hand goes into the channel. -/
theorem UdpServer.give_eq (hq : s.listeners[l]? = some q) {d : Datagram} (hd : q.phase.datagram = some d) (i : Nat) :
    s.custody.act (.give l i) = (s.custody.added i d.number).dropped l := by
  simp only [Custody.act, UdpServer.custody_held hq, hd]
  rfl

section
variable [DecidableEq Peer]

theorem UdpServer.advance_custody {t : UdpServer Peer} (hq : s.listeners[l]? = some q)
    (hs : s.advance l q = some t) : t.custody = s.custody ∨ ∃ a, s.custody.act a = t.custody := by
  cases UdpServer.advance_cases hs with
  | found hphase => exact .inl (UdpServer.custody_to hq (by rw [hphase]; rfl))
  | unknown hphase => exact .inl (UdpServer.custody_to hq (by rw [hphase]; rfl))
  | @sent peer datagram channel x hphase hx =>
    have hset : (s.setSession channel { x with
        queue := x.queue ++ [datagram], handed := x.handed ++ [datagram] }).custody =
        s.custody.added channel datagram.number := UdpServer.custody_handed hx rfl
    refine .inr ⟨.give l channel, ?_⟩
    rw [UdpServer.give_eq hq (by rw [hphase]; rfl), ← hset]
    exact (@UdpServer.custody_drop _ (s.setSession channel _) l q hq _ rfl).symm
  | closed hphase => exact .inl (UdpServer.custody_to hq (by rw [hphase]; rfl))
  | removed hphase => exact .inl (UdpServer.custody_to hq (by rw [hphase]; rfl))
  | admitted hphase => exact .inl (UdpServer.custody_to hq (by rw [hphase]; rfl))
  | @acquired peer datagram hphase =>
    have hadd : (s.addSession { UdpSession.new l peer with
        queue := [datagram], handed := [datagram] }).custody =
        s.custody.added s.sessions.length datagram.number := UdpServer.custody_addSession rfl
    refine .inr ⟨.give l s.sessions.length, ?_⟩
    rw [UdpServer.give_eq hq (by rw [hphase]; rfl), ← hadd]
    exact (@UdpServer.custody_drop _ (s.addSession _) l q hq _ rfl).symm
  | inserted => exact .inr ⟨.drop l, (UdpServer.custody_drop hq rfl).symm⟩
  | @spawned channel x hphase hx =>
    have hset : (s.setSession channel { x with phase := .binding }).custody = s.custody :=
      UdpServer.custody_setSession hx rfl
    refine .inr ⟨.drop l, ?_⟩
    show s.custody.dropped l = _
    rw [← hset]
    exact (@UdpServer.custody_drop _ (s.setSession channel _) l q hq _ rfl).symm
  | dropped => exact .inr ⟨.drop l, (UdpServer.custody_drop hq rfl).symm⟩

/-- **The server carries datagrams**, or goes on with what it has. -/
theorem UdpServer.step_custody {act : UdpAct Peer} {t : UdpServer Peer} (hs : s.step act = some t) :
    t.custody = s.custody ∨ ∃ a, s.custody.act a = t.custody := by
  cases act
  case cleanup i =>
    obtain ⟨x, q, hx, hphase, hq, rfl⟩ := UdpServer.cleanup_ok hs
    left
    rw [← @UdpServer.custody_setSession _ s i x { x with phase := .cleaned } hx rfl]
    exact @UdpServer.custody_to _ (s.setSession i _) x.listener q hq _ rfl
  all_goals simp only [UdpServer.step] at hs
  case listen =>
    cases hs
    refine .inl (Custody.ext (funext fun k => ?_) rfl rfl)
    show ((s.listeners ++ [_])[k]?).bind _ = (s.listeners[k]?).bind _
    rw [List.getElem?_append]
    split
    · rfl
    · rename_i hge
      rw [List.getElem?_eq_none (Nat.le_of_not_lt hge), List.getElem?_singleton]
      split <;> rfl
  case receive l result =>
    obtain ⟨q, hq, hs⟩ := Option.bind_eq_some_iff.1 hs
    split at hs
    · rename_i peer data _ _
      cases hs
      have heq := UdpServer.custody_setListener hq (q.to (.received peer ⟨s.received, data⟩))
      exact .inr ⟨.arrive l, Custody.ext (congrArg Custody.held heq).symm rfl rfl⟩
    · cases hs
      exact .inl rfl
    · cases hs
  case stop l =>
    obtain ⟨q, hq, hs⟩ := Option.bind_eq_some_iff.1 hs
    split at hs
    · cases hs
      exact .inr ⟨.drop l, (UdpServer.custody_drop hq rfl).symm⟩
    · cases hs
  case advance l =>
    obtain ⟨q, hq, hs⟩ := Option.bind_eq_some_iff.1 hs
    exact UdpServer.advance_custody hq hs
  case run i act =>
    obtain ⟨x, hx, hs⟩ := Option.bind_eq_some_iff.1 hs
    obtain ⟨x', hrun, rfl⟩ := Option.map_eq_some_iff.1 hs
    obtain ⟨-, -, phase, queue, -, -, rfl⟩ := UdpSession.run_ok hrun
    exact .inl (UdpServer.custody_setSession hx rfl)
  case release i =>
    obtain ⟨x, hx, hs⟩ := Option.bind_eq_some_iff.1 hs
    split at hs
    · cases hs
      exact .inl (UdpServer.custody_setSession hx rfl)
    · cases hs

theorem udpServer_custody : (udpServer Peer).Inductive fun s => s.custody.Sole where
  init s hs := by
    subst hs
    exact Custody.start_sole
  step s act t h hs := by
    rcases UdpServer.step_custody hs with heq | ⟨a, ha⟩
    · rw [heq]
      exact h
    · exact custody_inductive.step s.custody a t.custody h ha

/-! ## The table of sessions -/

/-- What holds of the sessions at any time, and of the step that may come next. -/
structure UdpServer.SessionsKept (s : UdpServer Peer) : Prop where
  /-- An entry is of a task that has not finished its cleanup, or of the one that its listener
  is about to spawn. -/
  entry : ∀ (l : Nat) (q : UdpListener Peer) (peer : Peer) (channel : Nat), s.listeners[l]? = some q →
    q.table.lookup peer = some channel →
    ∃ x, s.sessions[channel]? = some x ∧ x.listener = l ∧ x.peer = peer ∧ x.phase.unfinished = true ∧
      (x.phase = .made → q.phase = .spawning channel)
  alone : ∀ (i j : Nat) (x y : UdpSession Peer), s.sessions[i]? = some x → s.sessions[j]? = some y →
    x.listener = y.listener → x.peer = y.peer → x.phase.receives = true → y.phase.receives = true → i = j
  /-- A session is made for a peer of whose sessions none receives. -/
  second : ∀ (act : UdpAct Peer) (t : UdpServer Peer) (i j : Nat) (x y : UdpSession Peer), s.step act = some t →
    s.sessions.length ≤ i → t.sessions[i]? = some x → s.sessions[j]? = some y → y.listener = x.listener →
    y.peer = x.peer → y.phase.receives = false
  size : ∀ (l : Nat) (q : UdpListener Peer), s.listeners[l]? = some q → q.table.entries.length ≤ 512
  tasks : s.sessions.countP (·.phase.live) ≤ 1024
  /-- A datagram is in no two channels, and in none twice. -/
  handed : ∀ (i j : Nat) (x y : UdpSession Peer) (d e : Datagram), s.sessions[i]? = some x →
    s.sessions[j]? = some y → d ∈ x.handed → e ∈ y.handed → d.number = e.number → i = j
  once : ∀ (i : Nat) (x : UdpSession Peer), s.sessions[i]? = some x → (x.handed.map (·.number)).Nodup
  /-- A cleanup leaves the entry of another session. -/
  newer : ∀ (i : Nat) (t : UdpServer Peer) (l : Nat) (q : UdpListener Peer) (peer : Peer) (channel : Nat),
    s.step (.cleanup i) = some t → s.listeners[l]? = some q → q.table.lookup peer = some channel → channel ≠ i →
    ∃ q', t.listeners[l]? = some q' ∧ q'.table.lookup peer = some channel
  gone : ∀ (i : Nat) (t : UdpServer Peer) (l : Nat) (q : UdpListener Peer) (peer : Peer),
    s.step (.cleanup i) = some t → t.listeners[l]? = some q → q.table.lookup peer ≠ some i

/-- Only a listener that has a permit makes a session. -/
theorem UdpServer.step_sessions {act : UdpAct Peer} {t : UdpServer Peer} (hs : s.step act = some t) :
    t.sessions.length = s.sessions.length ∨ ∃ l q peer datagram x, s.listeners[l]? = some q ∧
      q.phase = .acquiring peer datagram ∧ x.listener = l ∧ x.peer = peer ∧ t.sessions = s.sessions ++ [x] := by
  cases act
  case cleanup i =>
    obtain ⟨x, q, hx, hphase, hq, rfl⟩ := UdpServer.cleanup_ok hs
    exact .inl List.length_set
  all_goals simp only [UdpServer.step] at hs
  case listen =>
    cases hs
    exact .inl rfl
  case receive l result =>
    obtain ⟨q, hq, hs⟩ := Option.bind_eq_some_iff.1 hs
    split at hs <;> cases hs
    · exact .inl rfl
    · exact .inl rfl
  case stop l =>
    obtain ⟨q, hq, hs⟩ := Option.bind_eq_some_iff.1 hs
    split at hs <;> cases hs
    exact .inl rfl
  case advance l =>
    obtain ⟨q, hq, hs⟩ := Option.bind_eq_some_iff.1 hs
    cases UdpServer.advance_cases hs with
    | @acquired peer datagram hphase =>
      exact .inr ⟨l, q, peer, datagram, _, hq, hphase, rfl, rfl, rfl⟩
    | sent => exact .inl List.length_set
    | spawned => exact .inl List.length_set
    | found | unknown | closed | removed | admitted | inserted | dropped => exact .inl rfl
  case run i act =>
    obtain ⟨x, hx, hs⟩ := Option.bind_eq_some_iff.1 hs
    obtain ⟨x', hrun, rfl⟩ := Option.map_eq_some_iff.1 hs
    exact .inl List.length_set
  case release i =>
    obtain ⟨x, hx, hs⟩ := Option.bind_eq_some_iff.1 hs
    split at hs <;> cases hs
    exact .inl List.length_set

/-- The session of an entry has its task, unless it is the one in hand. -/
theorem UdpServer.Kept.entry (h : s.Kept) {peer : Peer} {channel : Nat} (hq : s.listeners[l]? = some q)
    (hl : q.table.lookup peer = some channel) :
    ∃ x, s.sessions[channel]? = some x ∧ x.listener = l ∧ x.peer = peer ∧ x.phase.unfinished = true ∧
      (x.phase = .made → q.phase = .spawning channel) := by
  have hkept := h.listeners l q hq
  obtain ⟨x, hx, hlx, hpx, hu⟩ := hkept.entries peer channel hl
  refine ⟨x, hx, hlx, hpx, hu, fun hm => ?_⟩
  have hmaking := hkept.made channel x hx hlx hm
  have hp := hkept.phase
  cases hphase : q.phase with
  | spawning channel' =>
    rw [hphase] at hmaking
    rw [Option.some.inj hmaking]
  | inserting peer' channel' =>
    rw [hphase] at hmaking hp
    cases hmaking
    obtain ⟨hnone, -, y, hy, -, hpy, -⟩ := hp
    cases hx.symm.trans hy
    rw [← hpy, hpx, hl] at hnone
    cases hnone
  | _ =>
    rw [hphase] at hmaking
    cases hmaking

/-- What a session that receives is to its listener. -/
theorem UdpServer.Kept.alone (h : s.Kept) {i j : Nat} {x y : UdpSession Peer} (hx : s.sessions[i]? = some x)
    (hy : s.sessions[j]? = some y) (hl : x.listener = y.listener) (hp : x.peer = y.peer)
    (hrx : x.phase.receives = true) (hry : y.phase.receives = true) : i = j := by
  obtain ⟨q, hq⟩ : ∃ q, s.listeners[x.listener]? = some q := ⟨_, List.getElem?_eq_getElem (h.owned i x hx)⟩
  have hkept := h.listeners x.listener q hq
  have hcx := hkept.current i x hx rfl hrx
  have hcy := hkept.current j y hy hl.symm hry
  rw [← hp] at hcy
  have hins {k : Nat} (hlook : q.table.lookup x.peer = some k) {k' : Nat}
      (hphase : q.phase = .inserting x.peer k') : False := by
    have hk := hkept.phase
    rw [hphase] at hk
    cases hk.1.symm.trans hlook
  rcases hcx with hcx | hcx <;> rcases hcy with hcy | hcy
  · exact Option.some.inj (hcx.symm.trans hcy)
  · exact (hins hcx hcy).elim
  · exact (hins hcy hcx).elim
  · cases hcx.symm.trans hcy
    rfl

/-- Nobody who is given a session has one that receives. -/
theorem UdpServer.Kept.second (h : s.Kept) {act : UdpAct Peer} {t : UdpServer Peer} (hs : s.step act = some t)
    {i j : Nat} {x y : UdpSession Peer} (hi : s.sessions.length ≤ i) (hx : t.sessions[i]? = some x)
    (hy : s.sessions[j]? = some y) (hl : y.listener = x.listener) (hp : y.peer = x.peer) :
    y.phase.receives = false := by
  refine Bool.eq_false_iff.2 fun hr => ?_
  have hlt := (List.getElem?_eq_some_iff.1 hx).1
  rcases UdpServer.step_sessions hs with hlen | ⟨l, q, peer, datagram, z, hq, hphase, rfl, rfl, hadd⟩
  · omega
  · rw [hadd] at hx
    rcases concat_eq_some.1 hx with hx | ⟨-, rfl⟩
    · have := (List.getElem?_eq_some_iff.1 hx).1
      omega
    · have hkept := h.listeners z.listener q hq
      have hk := hkept.phase
      rw [hphase] at hk
      rcases hkept.current j y hy hl hr with hc | hins
      · rw [hp] at hc
        cases hk.1.symm.trans hc
      · cases hphase.symm.trans hins

/-- The tasks that run have their permits. -/
theorem UdpServer.Kept.tasks (h : s.Kept) : s.sessions.countP (·.phase.live) ≤ MAX_UDP_SESSIONS_TOTAL := by
  have hle : s.sessions.countP (·.phase.live) ≤ s.sessions.countP (·.phase.permitted) := by
    refine List.countP_mono_left fun x _ hx => ?_
    cases hphase : x.phase <;> rw [hphase] at hx <;> first | rfl | cases hx
  have := h.permits
  omega

/-- A cleanup takes away nothing but its own entry. -/
theorem UdpServer.cleanup_entries {i : Nat} {t : UdpServer Peer} (hs : s.step (.cleanup i) = some t)
    {peer : Peer} {channel : Nat} (hq : s.listeners[l]? = some q) (hc : q.table.lookup peer = some channel)
    (hne : channel ≠ i) : ∃ q', t.listeners[l]? = some q' ∧ q'.table.lookup peer = some channel := by
  obtain ⟨x, r, hx, hphase, hr, rfl⟩ := UdpServer.cleanup_ok hs
  by_cases hl : x.listener = l
  · subst hl
    cases hr.symm.trans hq
    refine ⟨q.without x.peer i, (set_eq_some hr).2 (.inl ⟨rfl, rfl⟩), ?_⟩
    simp only [UdpListener.without]
    split
    · rename_i hi
      rw [AList.lookup_erase_ne, hc]
      intro heq
      obtain rfl := heq
      exact hne (Option.some.inj (hc.symm.trans hi))
    · exact hc
  · exact ⟨q, (set_eq_some hr).2 (.inr ⟨hl, hq⟩), hc⟩

/-- **The map has the sessions that are not over.** In every interleaving of the listeners with
their sessions, an entry is of a session of that tunnel and peer whose cleanup is still to come,
under its own channel. -/
theorem udp_sessions_kept (hr : (udpServer Peer).Reachable s) : s.SessionsKept := by
  have h := udpServer_inductive.reachable s hr
  have hc := udpServer_custody.reachable s hr
  have hat {i : Nat} {x : UdpSession Peer} {d : Datagram} (hx : s.sessions[i]? = some x) (hd : d ∈ x.handed) :
      s.custody.At d.number (.inr i) := by
    show d.number ∈ s.custody.given i
    rw [UdpServer.custody_given hx]
    exact List.mem_map_of_mem hd
  refine ⟨fun l q peer channel hq hl => h.entry hq hl,
    fun i j x y hx hy hl hp => h.alone hx hy hl hp,
    fun act t i j x y hs hi hx hy hl hp => h.second hs hi hx hy hl hp,
    fun l q hq => (h.listeners l q hq).bounded, h.tasks, fun i j x y d e hx hy hd he hde => ?_, fun i x hx => ?_,
    fun i t l q peer channel hs hq hc hne => UdpServer.cleanup_entries hs hq hc hne, fun i t l q peer hs hq hl => ?_⟩
  · have he' := hat hy he
    rw [← hde] at he'
    exact Sum.inr.inj (hc.once d.number (.inr i) (.inr j) (hat hx hd) he')
  · rw [← UdpServer.custody_given hx]
    exact hc.nodup i
  · obtain ⟨y, hy, -, -, hu⟩ := ((h.step hs).listeners l q hq).entries peer i hl
    obtain ⟨x, r, hx, -, -, rfl⟩ := UdpServer.cleanup_ok hs
    cases ((set_eq_some hx).2 (.inl ⟨rfl, rfl⟩)).symm.trans hy
    cases hu

end

/-- A peer whose session failed is served by a second one before the first cleans up. -/
def lateCleanup : List (UdpAct Nat) :=
  [.listen, .receive 0 (some (7, [1])), .advance 0, .advance 0, .advance 0, .advance 0, .advance 0,
    .run 0 (.bind false), .receive 0 (some (7, [2])), .advance 0, .advance 0, .advance 0, .advance 0,
    .advance 0, .advance 0, .advance 0]

theorem newer_session_kept : ∃ s t : UdpServer Nat, (udpServer Nat).Reachable s ∧
    s.sessions.map (·.phase) = [.returned, .binding] ∧ s.step (.cleanup 0) = some t ∧
    ∃ q, t.listeners[0]? = some q ∧ q.table.lookup 7 = some 1 := by
  have hexec : (LTS.exec UdpServer.step UdpServer.start lateCleanup).map
      (fun s => (s.sessions.map (·.phase), (s.listeners[0]?).map (·.table.lookup 7),
        (s.step (.cleanup 0)).isSome)) = some ([.returned, .binding], some (some 1), true) := by
    decide +kernel
  obtain ⟨s, hs, hobs⟩ := Option.map_eq_some_iff.1 hexec
  simp only [Prod.mk.injEq] at hobs
  obtain ⟨hphases, hlook, hsome⟩ := hobs
  obtain ⟨t, ht⟩ := Option.isSome_iff_exists.1 hsome
  obtain ⟨q, hq, hlook⟩ := Option.map_eq_some_iff.1 hlook
  have hr : (udpServer Nat).Reachable s := ⟨_, _, rfl, LTS.run_of_exec hs⟩
  exact ⟨s, t, hr, hphases, ht, (udp_sessions_kept hr).newer 0 t 0 q 7 1 ht hq hlook (by decide)⟩

end OrangeFrp.Controller
