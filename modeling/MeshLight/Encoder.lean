/-!
# MeshLight.Encoder

The rotary encoder. Its two phases go through the cycle 00, 01, 11, 10 when it is turned one way and
back when it is turned the other; an interrupt counts the steps. Steps in one direction are gathered
until there are enough of them to report.
-/

namespace MeshLight

/-- The levels of the two phases. -/
structure Phase where
  a : Bool
  b : Bool
  deriving DecidableEq

/-- An integer as a 32-bit signed counter holds it. -/
def wrap32 (i : Int) : Int := Int.bmod i UInt32.size

/-- An integer as a 32-bit signed counter holds it that stops at its ends. -/
def clamp32 (i : Int) : Int := max (-0x80000000) (min 0x7fffffff i)

/-! ## step counter -/

/-- The last phase seen and the steps counted since they were last taken. -/
structure Encoder where
  phase : Phase
  steps : Int
  deriving DecidableEq

namespace Encoder

def initial : Encoder := ⟨⟨false, false⟩, 0⟩

/-- The step from one phase to the next: none if nothing changed or both changed at once. -/
def stepBetween : Phase → Phase → Int
  | ⟨false, false⟩, ⟨false, true⟩ => 1
  | ⟨false, false⟩, ⟨true, false⟩ => -1
  | ⟨false, true⟩, ⟨false, false⟩ => -1
  | ⟨false, true⟩, ⟨true, true⟩ => 1
  | ⟨true, false⟩, ⟨false, false⟩ => 1
  | ⟨true, false⟩, ⟨true, true⟩ => -1
  | ⟨true, true⟩, ⟨false, true⟩ => -1
  | ⟨true, true⟩, ⟨true, false⟩ => 1
  | _, _ => 0

theorem stepBetween_self (p : Phase) : stepBetween p p = 0 := by
  rcases p with ⟨_ | _, _ | _⟩ <;> rfl

/-- A step back undoes a step. -/
theorem stepBetween_swap (p q : Phase) : stepBetween q p = -stepBetween p q := by
  rcases p with ⟨_ | _, _ | _⟩ <;> rcases q with ⟨_ | _, _ | _⟩ <;> rfl

/-- Sees a phase. -/
def see (next : Phase) (e : Encoder) : Encoder :=
  ⟨next, wrap32 (e.steps + stepBetween e.phase next)⟩

/-- Takes the steps counted so far. -/
def take (e : Encoder) : Int × Encoder := (e.steps, { e with steps := 0 })

end Encoder

/-! ## rotation -/

/-- Steps gathered in one direction, and how many make a rotation. -/
structure Rotation where
  threshold : Int
  pending : Int
  deriving DecidableEq

namespace Rotation

/-- Steps that make a rotation of the node's encoder. -/
def defaultThreshold : Int := 24

def initial (threshold : Int) : Rotation := ⟨threshold, 0⟩

/-- Adds steps, from zero after a change of direction. Reports all that are gathered once they
reach the threshold. -/
def feed (steps : Int) (r : Rotation) : Option Int × Rotation :=
  if steps = 0 then (none, r)
  else
    let kept := if r.pending ≠ 0 ∧ r.pending.sign ≠ steps.sign then 0 else r.pending
    let gathered := clamp32 (kept + steps)
    if r.threshold ≤ gathered.natAbs then (some gathered, { r with pending := 0 })
    else (none, { r with pending := gathered })

end Rotation

end MeshLight
