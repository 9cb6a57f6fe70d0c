import MeshLight.Call

/-!
# MeshLight.Board

The board: strip, pins and indicator with simulated sensors, whose readings drift a little from
sample to sample.
-/

namespace MeshLight

namespace Readings

/-- Readings before the first sample. The board runs on mains power, so its battery is full. -/
def boot : Readings := ⟨.zero, .zero, .zero, .zero, .ofNat 100⟩

/-- The drift of the given sample. -/
def drift (sample : Nat) : Binary64 := (Binary64.ofNat (sample % 10)).div (.ofNat 10)

/-- The readings of the given sample. -/
def simulated (sample : Nat) : Readings where
  temperature := (Binary64.nearest 43 2).add (drift sample)
  humidity := (Binary64.ofNat 45).add (drift sample)
  light := .ofNat 120
  pressure := .nearest 1013 10
  battery := .ofNat 100

end Readings

structure Board where
  strip : Strip
  pins : PinBank
  indicator : Indicator
  readings : Readings
  samples : UInt32
  managementStarted : Bool
  deriving DecidableEq

namespace Board

def initial : Board where
  strip := .initial
  pins := .initial
  indicator := .initial
  readings := .boot
  samples := 0
  managementStarted := false

/-- Takes a sample. -/
def sample (b : Board) : Board :=
  let samples := b.samples + 1
  { b with samples := samples, readings := .simulated samples.toNat }

/-- Lets time pass for the indicator. -/
def tick (elapsed : UInt32) (b : Board) : Board := { b with indicator := b.indicator.tick elapsed }

/-- Answers a call. -/
def answer : (c : BoardCall) → Board → c.Answer × Board
  | .setGroupPower group on, b => (.ok (), { b with strip := b.strip.setPower group on })
  | .setGroupColor group color, b => (.ok (), { b with strip := b.strip.setColor group color })
  | .groupStatus group, b => (.ok (b.strip.status group), b)
  | .setPin name high, b =>
    match b.pins.set? name high with
    | some pins => (.ok (), { b with pins := pins })
    | none => (.error .unknownPin, b)
  | .pins, b => (b.pins.pins, b)
  | .setIndicator mode, b => ((), { b with indicator := b.indicator.setMode mode })
  | .sample, b => (.ok (), b.sample)
  | .readings, b => (b.readings, b)
  | .reboot, b => ((), b)
  | .startManagement, b => ((), { b with managementStarted := true })
  | .delay _, b => ((), b)

end Board

end MeshLight
