import MeshLight.Board
import MeshLight.Encoder
import MeshLight.Engine
import MeshLight.Stack

/-!
# MeshLight.Node

The whole node on a simulated stack and board: the engine, its timers, the journal, the local
inputs, and the queue in which events wait. All that happens between two passes of the main loop
only queues events; a pass lets time pass, looks at the inputs, and deals with what is queued.
-/

namespace MeshLight

/-! ## host -/

/-- The engine's surroundings, with a record of the calls to the board that change it. -/
structure Host where
  stack : Stack
  board : Board
  timers : Timers
  journal : Journal
  boardCalls : List BoardCall
  deriving DecidableEq

/-- Whether a call to the board only reads. -/
def BoardCall.isReading : BoardCall → Bool
  | .groupStatus _ | .pins | .readings => true
  | _ => false

namespace Host

def initial (role : Role) : Host where
  stack := { Stack.initial with role := role }
  board := .initial
  timers := .initial
  journal := .empty
  boardCalls := []

/-- Answers a call. -/
def answer : (c : Call) → Host → c.Answer × Host
  | .mesh c, h =>
    let (reply, stack) := Stack.answer c h.stack
    (reply, { h with stack := stack })
  | .board c, h =>
    let (reply, board) := Board.answer c h.board
    let calls := if c.isReading then h.boardCalls else h.boardCalls ++ [c]
    (reply, { h with board := board, boardCalls := calls })
  | .timer c, h =>
    let (reply, timers) := Timers.answer c h.timers
    (reply, { h with timers := timers })
  | .emit notice, h => ((), { h with journal := h.journal.record notice })

end Host

/-! ## node -/

structure Node where
  engine : Engine
  host : Host
  keys : List Key
  encoder : Encoder
  rotation : Rotation
  queue : EventQueue
  uptime : Nat

namespace Node

/-- Lets the engine run a program on the host. -/
def runEngine (program : Engine → Prog Engine) (n : Node) : Node :=
  let (engine, host) := (program n.engine).run Host.answer n.host
  { n with engine := engine, host := host }

/-- A node that has started, its buttons rested and its encoder still. -/
def boot (config : Config) (role : Role) (uptime : Nat) : Except Config.Defect Node := do
  let engine ← Engine.new config
  let n : Node := {
    engine := engine
    host := .initial role
    keys := Button.all.map Key.rested
    encoder := .initial
    rotation := .initial Rotation.defaultThreshold
    queue := .empty
    uptime := uptime }
  return n.runEngine Engine.start

/-! ## between passes -/

/-- Queues an event. Tells whether there was room for it. -/
def push (e : Event) (n : Node) : Bool × Node :=
  let (accepted, queue) := n.queue.push e
  (accepted, { n with queue := queue })

/-- The stack changes its role and reports that. -/
def setRole (role : Role) (n : Node) : Bool × Node :=
  { n with host := { n.host with stack := { n.host.stack with role := role } } }.push
    (.roleChanged role)

def press (index : Nat) (now : UInt32) (n : Node) : Node :=
  { n with keys := n.keys.modify index (·.press now) }

def release (index : Nat) (now : UInt32) (n : Node) : Node :=
  { n with keys := n.keys.modify index (·.release now) }

def seePhases (phases : List Phase) (n : Node) : Node :=
  { n with encoder := phases.foldl (fun e p => e.see p) n.encoder }

/-! ## a pass -/

/-- Lets time pass for the timers, which queue an event each time one is due. -/
def advanceTimers (elapsed : UInt32) (n : Node) : Node :=
  let (due, timers) := n.host.timers.tick elapsed.toNat
  { n with
    uptime := n.uptime + elapsed.toNat
    host := { n.host with timers := timers }
    queue := n.queue.pushTimers due }

/-- Looks at the buttons. The events of complete gestures, in the order of the buttons. -/
def keyEvents (testing : Bool) (now : UInt32) : List Key → List Event × List Key
  | [] => ([], [])
  | k :: rest =>
    let (gesture, k) := k.tick now
    let (events, rest) := keyEvents testing now rest
    ((gesture.bind (k.button.event? testing)).toList ++ events, k :: rest)

/-- Queues the events of the buttons. -/
def lookAtKeys (n : Node) : Node :=
  let (events, keys) := keyEvents n.engine.session.testing (UInt32.ofNat n.uptime) n.keys
  { n with keys := keys, queue := events.foldl (fun q e => (q.push e).2) n.queue }

/-- Queues the event of a rotation that is complete. -/
def lookAtEncoder (n : Node) : Node :=
  let (steps, encoder) := n.encoder.take
  let (report, rotation) := n.rotation.feed steps
  let queue := match report with
    | some steps => (n.queue.push (rotationEvent steps)).2
    | none => n.queue
  { n with encoder := encoder, rotation := rotation, queue := queue }

/-- Deals with all queued events. -/
def drainQueue (n : Node) : Node :=
  { n with queue := .empty }.runEngine (Engine.handleAll n.queue.events)

/-- One pass of the main loop, the given time after the last. -/
def pass (elapsed : UInt32) (n : Node) : Node :=
  let n := ((n.advanceTimers elapsed).lookAtKeys.lookAtEncoder).drainQueue
  { n with host := { n.host with board := n.host.board.tick elapsed } }

end Node

end MeshLight
