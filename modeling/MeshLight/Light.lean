import MeshLight.Text

/-!
# MeshLight.Light

The LED strip and the named output pins. The strip has two groups of pixels; a group that is off
keeps its colour.
-/

namespace MeshLight

/-! ## groups -/

inductive LightGroup where
  | all
  | left
  | right
  deriving DecidableEq

namespace LightGroup

def name : LightGroup → String
  | all => "all"
  | left => "led_left"
  | right => "led_right"

def ofName? (name : String) : Option LightGroup :=
  if name = "all" then some all
  else if name = "led_left" then some left
  else if name = "led_right" then some right
  else none

/-- The groups that have pixels of their own, in strip order. -/
def halves : List LightGroup := [left, right]

def includesLeft : LightGroup → Bool
  | all | left => true
  | right => false

def includesRight : LightGroup → Bool
  | all | right => true
  | left => false

end LightGroup

structure Rgb where
  red : UInt8
  green : UInt8
  blue : UInt8
  deriving DecidableEq

def Rgb.white : Rgb := ⟨255, 255, 255⟩

def Rgb.black : Rgb := ⟨0, 0, 0⟩

structure GroupStatus where
  on : Bool
  color : Rgb
  deriving DecidableEq

/-! ## strip -/

structure Strip where
  left : GroupStatus
  right : GroupStatus
  deriving DecidableEq

namespace Strip

/-- A strip that is off and will be white. -/
def initial : Strip := ⟨⟨false, .white⟩, ⟨false, .white⟩⟩

/-- Changes the halves that a group includes. -/
def update (group : LightGroup) (f : GroupStatus → GroupStatus) (s : Strip) : Strip where
  left := if group.includesLeft then f s.left else s.left
  right := if group.includesRight then f s.right else s.right

def setPower (group : LightGroup) (on : Bool) : Strip → Strip :=
  update group fun g => { g with on := on }

def setColor (group : LightGroup) (color : Rgb) : Strip → Strip :=
  update group fun g => { g with color := color }

/-- The state of a group. Both together are on if each is, and have the colour of the left. -/
def status (s : Strip) : LightGroup → GroupStatus
  | .left => s.left
  | .right => s.right
  | .all => ⟨s.left.on && s.right.on, s.left.color⟩

/-- Pixels of one group. -/
def pixelsPerGroup : Nat := 4

/-- What a pixel of a group shows. -/
def shown (g : GroupStatus) : Rgb := if g.on then g.color else .black

/-- What the pixels show, in strip order. -/
def frame (s : Strip) : List Rgb :=
  List.replicate pixelsPerGroup (shown s.left) ++ List.replicate pixelsPerGroup (shown s.right)

end Strip

/-! ## pins -/

structure PinState where
  name : String
  high : Bool
  deriving DecidableEq

/-- The output pins in bank order. -/
structure PinBank where
  pins : List PinState
  deriving DecidableEq

namespace PinBank

/-- All pins low. -/
def initial : PinBank := ⟨["0.15", "0.16", "0.17", "0.20"].map (⟨·, false⟩)⟩

/-- The level of the pin with the given name. -/
def get? (name : String) (bank : PinBank) : Option Bool :=
  (bank.pins.find? (·.name = name)).map (·.high)

/-- Drives the pin with the given name, if there is one. -/
def set? (name : String) (high : Bool) (bank : PinBank) : Option PinBank :=
  if bank.pins.any (·.name = name) then
    some ⟨bank.pins.map fun p => if p.name = name then { p with high := high } else p⟩
  else none

end PinBank

end MeshLight
