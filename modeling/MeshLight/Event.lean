import MeshLight.Button
import MeshLight.Registration
import MeshLight.Timers
import MeshLight.Trigger

/-!
# MeshLight.Event

What the node reacts to, the queue in which events wait for their turn, and the events that buttons
and encoder stand for.
-/

namespace MeshLight

inductive Event where
  | roleChanged (role : Role)
  | joinerChanged (state : JoinerState)
  | reply (kind : ReplyKind) (payload : Bytes)
  | replyTimedOut (kind : ReplyKind)
  | registrationCompleted (outcome : RegistrationOutcome)
  | commandReceived (request : InboundRequest)
  | timerFired (timer : Timer)
  | joinRequested
  | factoryResetRequested
  | reportRequested
  | setTesting (on : Bool)
  | trigger (event : TriggerEvent)
  deriving DecidableEq

/-! ## queue -/

/-- Events that wait, oldest first. -/
structure EventQueue where
  events : List Event
  deriving DecidableEq

namespace EventQueue

/-- The most events that may wait. -/
def capacity : Nat := 32

def empty : EventQueue := ⟨[]⟩

/-- Adds an event, which is dropped if the queue is full. -/
def push (e : Event) (q : EventQueue) : Bool × EventQueue :=
  if q.events.length < capacity then (true, ⟨q.events ++ [e]⟩) else (false, q)

theorem push_of_lt {e : Event} {q : EventQueue} (h : q.events.length < capacity) :
    q.push e = (true, ⟨q.events ++ [e]⟩) := by
  simp [push, h]

/-- A full queue drops what is pushed. -/
theorem push_of_le {e : Event} {q : EventQueue} (h : capacity ≤ q.events.length) :
    q.push e = (false, q) := by
  simp [push, Nat.not_lt.2 h]

theorem length_push_le (e : Event) (q : EventQueue) (h : q.events.length ≤ capacity) :
    (q.push e).2.events.length ≤ capacity := by
  unfold push
  split
  · next hl => simpa using Nat.succ_le_of_lt hl
  · exact h

/-- Takes the oldest event. -/
def pop? (q : EventQueue) : Option (Event × EventQueue) :=
  match q.events with
  | [] => none
  | e :: rest => some (e, ⟨rest⟩)

/-- Adds the events of timers that have become due. -/
def pushTimers (timers : List Timer) (q : EventQueue) : EventQueue :=
  timers.foldl (fun q t => (q.push (.timerFired t)).2) q

end EventQueue

/-! ## local input -/

/-- The object that stands for the infrared sensor. -/
def infraredObject : String := "infra_0"

/-- The object that stands for the encoder. -/
def encoderObject : String := "qdec_0"

/-- What a gesture on a button asks for, given whether testing mode is on. -/
def Button.event? (testing : Bool) : Button → Gesture → Option Event
  | report, .short => some .reportRequested
  | report, .long => some (.setTesting !testing)
  | join, .short => some .joinRequested
  | join, .long => some .factoryResetRequested
  | infrared, .short => some (.trigger (.infrared infraredObject))
  | encoder, .short => some (.trigger (.encoderButton encoderObject))
  | infrared, .long | encoder, .long => none

/-- What a rotation stands for. -/
def rotationEvent (steps : Int) : Event := .trigger (.encoderRotation encoderObject steps)

end MeshLight
