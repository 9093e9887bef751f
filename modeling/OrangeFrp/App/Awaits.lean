import OrangeFrp.Controller.Sessions
import OrangeFrp.Core.Waits

/-!
# Where the tasks of the server wait (`frp-game-server/src/{app,controller}.rs`)

Every task of a serving process is followed from one of its awaits to the next. What it
still has to do in its round is a list of instructions: the locks it takes and gives
back, the events it sends, the handles it awaits, and the awaits that end from outside
(timers, sockets). Which path a round takes through the code depends on data, and on
clients and peers; it is chosen at the start of the round, and any choice is a run.

* `Request.prog`, `reconcile`: the handlers, with the listeners stopped and started.
* `flushPending`, `copyLimited`, `runUdpSession`, `runUdpListener`: the other tasks.
* `World.step`: a step of the process. Locks are granted in the order in which they were
  asked for, writers like readers; the same holds for room in the queue of events.

A request may be dropped at any of its awaits, when its client goes away.
-/
namespace OrangeFrp.Awaits

open OrangeFrp.Core OrangeFrp.Controller

/-! ## Parties, locks, instructions -/

/-- The tasks. A listener is named by its number, `copy` and `session` by the number of
their listener and their own; a `copy` is one direction of a TCP connection. -/
inductive Party where
  | request (n : Nat)
  | serve
  | accounting
  | listener (i : Nat)
  | copy (i n : Nat) (direction : Direction)
  | session (i n : Nat)
  deriving DecidableEq

/-- `gate g` is the state of one gate, `sessions i` the session map of one UDP listener.
mirrors crates/frp-game-server/src/app.rs:180-188 and
crates/frp-game-server/src/controller.rs:66-69,155-162,468-470 -/
inductive LockId where
  | rateLimit
  | config
  | replay
  | gates
  | gate (g : Nat)
  | tasks
  | sessions (i : Nat)
  deriving DecidableEq

/-- What a party can await of another: a lock, room in the queue of events, the end of a
task. -/
inductive Resource where
  | lock (l : LockId)
  | room
  | ended (p : Party)
  deriving DecidableEq

/-- `outside` is an await that only the world ends. `stop keep` takes the listeners not in
`keep` out of the task map and cancels them, gives the lock back and goes on to await
them; `start g` spawns a listener on gate `g` and goes on to put it into the map, which
`register` does; `spawn i` spawns a session of listener `i`. -/
inductive Instr where
  | lock (l : LockId) (m : Mode)
  | unlock (l : LockId)
  | join (p : Party)
  | send
  | outside
  | stop (keep : List Nat)
  | start (g : Nat)
  | register (i : Nat)
  | spawn (i : Nat)
  | exit
  deriving DecidableEq

/-- What is awaited in a line. -/
def Instr.asks : Instr → Option Resource
  | .lock l _ => some (.lock l)
  | .send => some .room
  | _ => none

def Instr.awaits : Instr → Option Resource
  | .join p => some (.ended p)
  | i => i.asks

/-- A lock taken and given back with no other await between. -/
def locked (l : LockId) (m : Mode) : List Instr := [.lock l m, .unlock l]

/-! ## The handlers -/

/-- mirrors crates/frp-game-server/src/controller.rs:262-285 -/
def reconcileGates (present : List Nat) : List Instr :=
  [.lock .gates .write] ++ present.flatMap (fun g => locked (.gate g) .write) ++ [.unlock .gates]

/-- What becomes of one wanted tunnel: its listener runs already, its user has no gate,
the port cannot be bound, or a listener starts. -/
inductive Wanted where
  | running
  | noGate
  | notBound
  | starts (g : Nat)
  deriving DecidableEq

def Wanted.fails : Wanted → Bool
  | .noGate | .notBound => true
  | _ => false

/-- mirrors crates/frp-game-server/src/controller.rs:233-244,287-338 -/
def startTask : Wanted → List Instr
  | .running => locked .tasks .write
  | .noGate => locked .tasks .write ++ locked .gates .read
  | .notBound => locked .tasks .write ++ locked .gates .read ++ [.outside]
  | .starts g => locked .tasks .write ++ locked .gates .read ++ [.outside, .start g]

/-- The first failure ends the loop.
mirrors crates/frp-game-server/src/controller.rs:232-246 -/
def startTasks : List Wanted → List Instr
  | [] => []
  | w :: ws => startTask w ++ if w.fails then [] else startTasks ws

/-- One call: the users whose gates are there already, the listeners that may stay, and
what becomes of the wanted tunnels. -/
structure Reconcile where
  present : List Nat
  keep : List Nat
  wanted : List Wanted
  deriving DecidableEq

/-- mirrors crates/frp-game-server/src/controller.rs:193-247 -/
def reconcile (r : Reconcile) : List Instr :=
  reconcileGates r.present ++ [.lock .tasks .write, .stop r.keep] ++ startTasks r.wanted

def Reconcile.fails (r : Reconcile) : Bool := r.wanted.any Wanted.fails

/-- What a tunnels request does under the write lock: it is refused before its nonce is
looked at, refused or answered after that with nothing to reconcile, or it brings the
listeners up to date, and after a failure back again when the old state could be stored. -/
inductive Tunnels where
  | unauthorized
  | answered
  | saved (r : Reconcile) (rollback : Option Reconcile)
  deriving DecidableEq

/-- mirrors crates/frp-game-server/src/app.rs:1845-1862 -/
def save (r : Reconcile) (rollback : Option Reconcile) : List Instr :=
  reconcile r ++ if r.fails then rollback.elim [] reconcile else []

/-- mirrors crates/frp-game-server/src/app.rs:1754-1883 -/
def Tunnels.prog : Tunnels → List Instr
  | .unauthorized => locked .config .write
  | .answered => [.lock .config .write] ++ locked .replay .write ++ [.unlock .config]
  | .saved r rollback =>
    [.lock .config .write] ++ locked .replay .write ++ save r rollback ++ [.unlock .config]

/-- The requests, with the path each takes; `probe` is a connection to frps. -/
inductive Request where
  | limited
  | hello (probe : Bool)
  | login (authorized replayed probe : Bool)
  | tunnels (t : Tunnels)
  | usage (authorized : Bool)
  | plugin
  deriving DecidableEq

def probe (b : Bool) : List Instr := if b then [.outside] else []

/-- The awaits of a handler. Only the plugin's does not begin with `check_rate`.
mirrors crates/frp-game-server/src/app.rs:1638-1664,1666-1744,1746-1758,1885-1925 -/
def Request.body : Request → List Instr
  | .limited => locked .rateLimit .write
  | .hello p => locked .rateLimit .write ++ locked .config .read ++ probe p
  | .login authorized replayed p =>
    locked .rateLimit .write ++ locked .config .read ++
      if authorized then locked .replay .write ++ if replayed then [] else probe p else []
  | .tunnels t => locked .rateLimit .write ++ t.prog
  | .usage authorized =>
    locked .rateLimit .write ++ [.lock .config .read] ++
      (if authorized then locked .replay .write else []) ++ [.unlock .config]
  | .plugin => locked .config .read

def Request.prog (r : Request) : List Instr := r.body ++ [.exit]

/-- The end of `serve`: the listeners are stopped and awaited, then the accounting task,
then frps and the servers.
mirrors crates/frp-game-server/src/app.rs:2184-2203 and
crates/frp-game-server/src/controller.rs:249-260 -/
def shutdown : List Instr :=
  [.lock .tasks .write, .stop [], .join .accounting, .outside, .exit]

/-! ## The accounting task and the sessions -/

/-- mirrors crates/frp-game-server/src/controller.rs:663-698 -/
def flushPending (pending : Bool) : List Instr :=
  if pending then locked .config .write else []

/-- `waits` counts the rounds that found too few tokens and slept.
mirrors crates/frp-game-server/src/controller.rs:104-137 -/
def reserve (g : Nat) : Nat → List Instr
  | 0 => locked (.gate g) .write
  | waits + 1 => locked (.gate g) .write ++ [.outside] ++ reserve g waits

/-- How a round of `copy_limited` ends: all of what was read is passed on, the gate gives
no more, writing fails, the peer has closed, or reading fails. -/
inductive CopyEnd where
  | passed
  | refused (waits : Nat)
  | notWritten (waits : Nat)
  | closed
  | notRead
  deriving DecidableEq

/-- mirrors crates/frp-game-server/src/controller.rs:438-455 -/
def chunk (g waits : Nat) : List Instr := reserve g waits ++ [.outside, .send]

/-- A round after its read: `chunks` gives the sleeps before each chunk passed on.
mirrors crates/frp-game-server/src/controller.rs:432-457 -/
def copyLimited (g : Nat) (chunks : List Nat) (e : CopyEnd) : List Instr :=
  chunks.flatMap (chunk g) ++
    match e with
    | .passed => []
    | .refused waits => reserve g waits ++ [.outside, .exit]
    | .notWritten waits => reserve g waits ++ [.outside, .exit]
    | .closed => [.outside, .exit]
    | .notRead => [.exit]

/-- mirrors crates/frp-game-server/src/controller.rs:520-527 -/
def leaveMap (i : Nat) : List Instr := locked (.sessions i) .write ++ [.exit]

inductive PacketEnd where
  | passed
  | refused
  | notSent
  deriving DecidableEq

/-- An empty packet needs no tokens, and is not waited for.
mirrors crates/frp-game-server/src/controller.rs:100-107 -/
def reserveDatagram (g : Nat) : Option Nat → List Instr
  | none => []
  | some waits => reserve g waits

/-- A packet of a session, in either direction.
mirrors crates/frp-game-server/src/controller.rs:556-589 -/
def runUdpSession (i g : Nat) (waits : Option Nat) (e : PacketEnd) : List Instr :=
  reserveDatagram g waits ++
    match e with
    | .passed => [.outside, .send]
    | .refused => leaveMap i
    | .notSent => .outside :: leaveMap i

/-- What a listener does with a datagram: hand it to the session there is, or find that
session gone; then there are too many sessions (of this listener or of all), or a new
one is opened. -/
inductive Datagram where
  | delivered
  | tooMany (gone : Bool)
  | opened (gone : Bool)
  deriving DecidableEq

/-- The session of the peer is looked up, and taken out when it is gone.
mirrors crates/frp-game-server/src/controller.rs:481-488 -/
def lookUp (i : Nat) (gone : Bool) : List Instr :=
  locked (.sessions i) .write ++ if gone then locked (.sessions i) .write else []

/-- Neither the count of all sessions nor the queue of one is awaited.
mirrors crates/frp-game-server/src/controller.rs:480-528 -/
def runUdpListener (i : Nat) : Datagram → List Instr
  | .delivered => lookUp i false
  | .tooMany gone => lookUp i gone ++ locked (.sessions i) .write
  | .opened gone => lookUp i gone ++ locked (.sessions i) .write ++ locked (.sessions i) .write ++ [.spawn i]

/-! ## The process -/

inductive Life where
  | unborn
  | running (prog : List Instr)
  | finished
  deriving DecidableEq

/-- `next` is the number of the next party born. `pending` says that the accounting task
has something to store. `stopping` is the token of `serve`, `cancelled` the listeners
whose token is cancelled, and with it that of their sessions. -/
structure World where
  life : Party → Life
  holders : LockId → List (Party × Mode)
  line : Resource → List Party
  queue : Nat
  pending : Bool
  tasks : List Nat
  gateOf : Nat → Nat
  next : Nat
  cancelled : List Nat
  stopping : Bool

def World.become (w : World) (p : Party) (x : Life) : World :=
  { w with life := Function.update w.life p x }

def World.goto (w : World) (p : Party) (prog : List Instr) : World := w.become p (.running prog)

def World.ask (w : World) (p : Party) (r : Resource) : World :=
  { w with line := Function.update w.line r (w.line r ++ [p]) }

def World.leaveLine (w : World) (p : Party) (r : Resource) : World :=
  { w with line := Function.update w.line r ((w.line r).filter (· ≠ p)) }

def World.take (w : World) (p : Party) (l : LockId) (m : Mode) : World :=
  { w.leaveLine p (.lock l) with holders := Function.update w.holders l ((p, m) :: w.holders l) }

def World.release (w : World) (p : Party) (l : LockId) : World :=
  { w with holders := Function.update w.holders l ((w.holders l).filter (·.1 ≠ p)) }

/-- A task that ends gives back its locks and leaves its lines. The end of the accounting
task closes the queue. -/
def World.quit (w : World) (p : Party) : World :=
  { w with
    life := Function.update w.life p .finished
    holders := fun l => (w.holders l).filter (·.1 ≠ p)
    line := fun r => (w.line r).filter (· ≠ p)
    queue := if p = .accounting then 0 else w.queue }

/-- A task or two are born, with one number. -/
def World.born (w : World) (ps : List Party) (prog : List Instr) : World :=
  { w with life := fun p => if p ∈ ps then .running prog else w.life p, next := w.next + 1 }

/-- mirrors crates/frp-game-server/src/controller.rs:211-227 -/
def World.stopTasks (w : World) (keep : List Nat) : World :=
  { w with
    tasks := w.tasks.filter (· ∈ keep)
    cancelled := w.tasks.filter (· ∉ keep) ++ w.cancelled }

/-- The task is first in its line and what it awaits is there. -/
def World.opens (w : World) (p : Party) : Instr → Bool
  | .lock l m => (w.line (.lock l)).head? = some p && m.admits (w.holders l)
  | .send => (w.line .room).head? = some p && decide (w.queue < ACCOUNTING_QUEUE_CAPACITY)
  | _ => true

/-- A running task carries out its next instruction. -/
def World.exec (w : World) (p : Party) (prog : List Instr) : Instr → Option World
  | .lock l m =>
    if p ∉ w.line (.lock l) then some (w.ask p (.lock l))
    else if w.opens p (.lock l m) then some ((w.take p l m).goto p prog)
    else none
  | .unlock l => some ((w.release p l).goto p prog)
  | .join q => if w.life q = .finished then some (w.goto p prog) else none
  | .send =>
    -- a send to a closed queue returns at once
    if w.life .accounting = .finished then some ((w.leaveLine p .room).goto p prog)
    else if p ∉ w.line .room then some (w.ask p .room)
    else if w.opens p .send then
      some (({ w with queue := w.queue + 1 }.leaveLine p .room).goto p prog)
    else none
  | .outside => none
  | .stop keep =>
    some (((w.stopTasks keep).release p .tasks).goto p
      ((w.tasks.filter (· ∉ keep)).map (fun i => .join (.listener i)) ++ prog))
  | .start g =>
    some (({ w with gateOf := Function.update w.gateOf w.next g }.born [.listener w.next] []).goto p
      (.lock .tasks .write :: .register w.next :: .unlock .tasks :: prog))
  | .register i => some ({ w with tasks := i :: w.tasks }.goto p prog)
  | .spawn i => some ((w.born [.session i w.next] [.outside]).goto p prog)
  | .exit => some (w.quit p)

def World.run (w : World) (p : Party) : Option World :=
  match w.life p with
  | .running (i :: prog) => w.exec p prog i
  | _ => none

/-- The accounting task empties the queue, and stores what it has got unless there is
nothing. What could not be stored stays pending.
mirrors crates/frp-game-server/src/controller.rs:617-631,636-643 -/
def World.drain (w : World) (stored : Bool) (rest : List Instr) : World :=
  let pending := w.pending || decide (0 < w.queue)
  { w with queue := 0, pending := pending && !stored }.goto .accounting (flushPending pending ++ rest)

/-- The token a task looks at between its rounds is cancelled. -/
def World.told (w : World) : Party → Bool
  | .listener i | .session i _ => decide (i ∈ w.cancelled)
  | .accounting => w.stopping
  | _ => false

/-- A task sees that its token is cancelled. -/
def World.leave (w : World) (p : Party) (stored : Bool) : Option World :=
  if w.told p then
    match p, w.life p with
    | .listener _, .running [] => some (w.quit p)
    | .session i _, .running [] => some (w.goto p (leaveMap i))
    | .accounting, .running [] => some (w.drain stored [.exit])
    | _, _ => none
  else none

/-- A round begins. -/
def World.begin (w : World) (p : Party) (prog : List Instr) : Option World :=
  if w.life p = .running [] then some (w.goto p prog) else none

/-- `run`, `leave` and `receive` are the steps a task takes of itself; the others are the
world's. `lapse` is the end of a session for another reason than its token, `drop` that
of a request whose client has gone, or of one direction of a connection when the other
has ended or the token of their listener is cancelled. -/
inductive Act where
  | run (p : Party)
  | leave (p : Party) (stored : Bool)
  | receive
  | arrive (r : Request)
  | signal
  | tick (stored : Bool)
  | accept (i : Nat)
  | datagram (i : Nat) (d : Datagram)
  | read (i n : Nat) (direction : Direction) (chunks : List Nat) (e : CopyEnd)
  | packet (i n : Nat) (waits : Option Nat) (e : PacketEnd)
  | lapse (i n : Nat)
  | reply (p : Party)
  | drop (p : Party)

def droppable : Party → Bool
  | .request _ | .copy .. => true
  | _ => false

def World.step (w : World) : Act → Option World
  | .run p => w.run p
  | .leave p stored => w.leave p stored
  | .receive =>
    if w.life .accounting = .running [] ∧ 0 < w.queue then
      some { w with queue := w.queue - 1, pending := true }
    else none
  | .arrive r => some (w.born [.request w.next] r.prog)
  | .signal =>
    if w.life .serve = .running [] then some ({ w with stopping := true }.goto .serve shutdown) else none
  | .tick stored => if w.life .accounting = .running [] then some (w.drain stored []) else none
  | .accept i =>
    if w.life (.listener i) = .running [] then
      some (w.born [.copy i w.next .inbound, .copy i w.next .outbound] [.outside])
    else none
  | .datagram i d => w.begin (.listener i) (runUdpListener i d)
  | .read i n direction chunks e => w.begin (.copy i n direction) (copyLimited (w.gateOf i) chunks e)
  | .packet i n waits e => w.begin (.session i n) (runUdpSession i (w.gateOf i) waits e)
  | .lapse i n => w.begin (.session i n) (leaveMap i)
  | .reply p =>
    match w.life p with
    | .running (.outside :: prog) => some (w.goto p prog)
    | _ => none
  | .drop p =>
    match droppable p, w.life p with
    | true, .running _ => some (w.quit p)
    | _, _ => none

/-- `serve` has started the listeners of its configuration, on the gates given, and the
accounting task, or none of them. -/
def World.serving (apiOnly : Bool) (gates : List Nat) : World where
  life
    | .serve => .running []
    | .accounting => if apiOnly then .finished else .running []
    | .listener i => if i < gates.length && !apiOnly then .running [] else .unborn
    | _ => .unborn
  holders _ := []
  line _ := []
  queue := 0
  pending := false
  tasks := if apiOnly then [] else List.range gates.length
  gateOf i := gates.getD i 0
  next := gates.length
  cancelled := []
  stopping := false

def process : LTS World Act :=
  LTS.ofFn (fun w => ∃ apiOnly gates, w = World.serving apiOnly gates) World.step

end OrangeFrp.Awaits
