/-!
# MeshLight.Indicator

The presence light. A base mode gives it a steady level or a square wave that starts high; a pulse
inverts that for a while without disturbing the wave beneath.
-/

namespace MeshLight

inductive IndicatorMode where
  | off
  | on
  | blink (period : UInt32)
  | pulse (duration : UInt32)
  deriving DecidableEq

/-- The light's base mode, the time since that was set, the rest of a pulse, and the level shown. -/
structure Indicator where
  base : IndicatorMode
  phase : UInt32
  pulseLeft : UInt32
  lit : Bool
  deriving DecidableEq

namespace Indicator

def initial : Indicator := ⟨.off, 0, 0, false⟩

/-- A pulse lies over the base mode. Setting the mode that is already set does not restart it. -/
def setMode (mode : IndicatorMode) (i : Indicator) : Indicator :=
  match mode with
  | .pulse duration => { i with pulseLeft := duration }
  | mode => if mode = i.base then i else { i with base := mode, phase := 0 }

/-- The level of the base mode. -/
def baseLevel (i : Indicator) : Bool :=
  match i.base with
  | .off | .pulse _ => false
  | .on => true
  | .blink period => i.phase.toNat / max period.toNat 1 % 2 = 0

def level (i : Indicator) : Bool := if 0 < i.pulseLeft then !i.baseLevel else i.baseLevel

/-- Shows the level that is due and lets time pass. -/
def tick (elapsed : UInt32) (i : Indicator) : Indicator where
  base := i.base
  phase := i.phase + elapsed
  pulseLeft := if elapsed ≤ i.pulseLeft then i.pulseLeft - elapsed else 0
  lit := i.level

end Indicator

end MeshLight
