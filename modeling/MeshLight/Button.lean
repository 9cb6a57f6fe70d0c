/-!
# MeshLight.Button

Push buttons. An interrupt records the times of the last press and the last release; the driver
looks at these from time to time and tells short presses from long ones. Times are milliseconds in
32 bits that wrap around, zero meaning that nothing was recorded yet.
-/

namespace MeshLight

/-- The buttons of the board, in the order of their slots. -/
inductive Button where
  | report
  | join
  | infrared
  | encoder
  deriving DecidableEq

def Button.all : List Button := [report, join, infrared, encoder]

def Button.index : Button → Nat
  | report => 0
  | join => 1
  | infrared => 2
  | encoder => 3

inductive Gesture where
  | short
  | long
  deriving DecidableEq

/-! ## edges -/

/-- The last edges that the interrupt recorded. -/
structure Edges where
  press : UInt32
  release : UInt32
  deriving DecidableEq

namespace Edges

def none : Edges := ⟨0, 0⟩

/-- A time as recorded. Zero is reserved, so it becomes one. -/
def stamp (now : UInt32) : UInt32 := if now = 0 then 1 else now

theorem stamp_ne_zero (now : UInt32) : stamp now ≠ 0 := by
  unfold stamp
  split
  · decide
  · assumption

def recordPress (now : UInt32) (e : Edges) : Edges := { e with press := stamp now }

def recordRelease (now : UInt32) (e : Edges) : Edges := { e with release := stamp now }

end Edges

/-! ## driver -/

/-- What the driver is waiting for. `held` follows a long press that was reported already. -/
inductive Tracking where
  | idle
  | pressed (since : UInt32)
  | held
  deriving DecidableEq

/-- What the driver is waiting for, and the edges it has dealt with. -/
structure ButtonDriver where
  tracking : Tracking
  lastPress : UInt32
  lastRelease : UInt32
  deriving DecidableEq

namespace ButtonDriver

/-- A press shorter than this is short. -/
def shortLimit : UInt32 := 300

/-- A press of at least this length is long. -/
def longLimit : UInt32 := 3000

/-- Half of the clock's range. A time less than this after another counts as later. -/
def halfRange : UInt32 := 2147483647

def initial : ButtonDriver := ⟨.idle, 0, 0⟩

/-- Turns to a press that was not dealt with before. -/
def notePress (press : UInt32) (d : ButtonDriver) : ButtonDriver :=
  if press ≠ 0 ∧ press ≠ d.lastPress then
    { d with tracking := .pressed press, lastPress := press }
  else d

/-- Whether a release is new and later than the press that is being tracked. -/
def isNewRelease (release : UInt32) (d : ButtonDriver) : Bool :=
  release ≠ 0 && release ≠ d.lastRelease && release - d.lastPress < halfRange

/-- Looks at the recorded edges: the gesture that is complete at `now`, if any. A press is long as
soon as it has lasted long enough, and short only once it has been released. -/
def tick (edges : Edges) (now : UInt32) (driver : ButtonDriver) : Option Gesture × ButtonDriver :=
  let d := driver.notePress edges.press
  if d.isNewRelease edges.release then
    let released := { d with tracking := .idle, lastRelease := edges.release }
    match d.tracking with
    | .pressed since =>
      (if edges.release - since < shortLimit then some .short else none, released)
    | .idle | .held => (none, released)
  else
    match d.tracking with
    | .pressed since =>
      if longLimit ≤ now - since then (some .long, { d with tracking := .held }) else (none, d)
    | .idle | .held => (none, d)

end ButtonDriver

/-! ## keys -/

/-- A button with its recorded edges and its driver. -/
structure Key where
  button : Button
  edges : Edges
  driver : ButtonDriver
  deriving DecidableEq

namespace Key

/-- A key that was pressed and released once at time one, which its driver has dealt with. -/
def rested (button : Button) : Key :=
  let edges : Edges := ⟨1, 1⟩
  ⟨button, edges, (ButtonDriver.initial.tick edges 1).2⟩

def press (now : UInt32) (k : Key) : Key := { k with edges := k.edges.recordPress now }

def release (now : UInt32) (k : Key) : Key := { k with edges := k.edges.recordRelease now }

def tick (now : UInt32) (k : Key) : Option Gesture × Key :=
  let (gesture, driver) := k.driver.tick k.edges now
  (gesture, { k with driver := driver })

end Key

end MeshLight
