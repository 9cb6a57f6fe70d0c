import Mathlib.Algebra.Ring.Nat
import MeshLight.Button

/-!
# MeshLight.Proofs.Button.Touches

Histories of a button. Edges are recorded and the driver looks at them, in any order, at real times:
milliseconds that do not wrap. What the driver sees of them are 32 bits, and never zero. As long as
times are less than half of the clock's range apart, differences of what it sees are differences of
the real times (`toNat_ofNat_sub`, `toNat_ofNat_sub_of_lt`).
-/

namespace MeshLight

/-! ## real time -/

/-- A later time less an earlier one, on the clock. -/
theorem toNat_ofNat_sub {earlier later : Nat} (hle : earlier ≤ later)
    (hlt : later < earlier + 2 ^ 32) :
    (UInt32.ofNat later - UInt32.ofNat earlier).toNat = later - earlier := by
  rw [UInt32.toNat_sub, UInt32.toNat_ofNat', UInt32.toNat_ofNat']
  omega

/-- An earlier time less a later one, on the clock, where the difference wraps around. -/
theorem toNat_ofNat_sub_of_lt {earlier later : Nat} (hlt : earlier < later)
    (hle : later ≤ earlier + 2 ^ 32) :
    (UInt32.ofNat earlier - UInt32.ofNat later).toNat = 2 ^ 32 - (later - earlier) := by
  rw [UInt32.toNat_sub, UInt32.toNat_ofNat', UInt32.toNat_ofNat']
  omega

/-- The time that is recorded for an edge. Where the clock shows zero, it is one millisecond
late. -/
def recordedTime (time : Nat) : Nat := if time % 2 ^ 32 = 0 then time + 1 else time

theorem le_recordedTime (time : Nat) : time ≤ recordedTime time := by
  unfold recordedTime
  split <;> omega

theorem recordedTime_le (time : Nat) : recordedTime time ≤ time + 1 := by
  unfold recordedTime
  split <;> omega

/-- What an interrupt records is the recorded time on the clock. -/
theorem stamp_ofNat (time : Nat) :
    Edges.stamp (UInt32.ofNat time) = UInt32.ofNat (recordedTime time) := by
  have hzero : UInt32.ofNat time = 0 ↔ time % 2 ^ 32 = 0 := by
    rw [← UInt32.toNat_inj, UInt32.toNat_ofNat']
    rfl
  unfold Edges.stamp recordedTime
  split
  · next h =>
      rw [if_pos (hzero.1 h)]
      apply UInt32.toNat_inj.1
      rw [UInt32.toNat_ofNat']
      have hmod := hzero.1 h
      show 1 = _
      omega
  · next h => rw [if_neg (mt hzero.2 h)]

/-! ## histories -/

/-- What happens to a button, at a real time: an edge is recorded, or the driver looks. -/
inductive Touch where
  | press (time : Nat)
  | release (time : Nat)
  | look (now : Nat)
  deriving DecidableEq

namespace Key

/-- A button whose edges were never recorded. -/
def untouched (button : Button) : Key := ⟨button, .none, .initial⟩

/-- The key after a touch. What the driver reports is left out. -/
def touch (k : Key) : Touch → Key
  | .press time => k.press (UInt32.ofNat time)
  | .release time => k.release (UInt32.ofNat time)
  | .look now => (k.tick (UInt32.ofNat now)).2

/-- The key after touches, oldest first. -/
def after (touches : List Touch) (k : Key) : Key := touches.foldl touch k

theorem after_concat (touches : List Touch) (t : Touch) (k : Key) :
    k.after (touches ++ [t]) = (k.after touches).touch t := by
  unfold after
  rw [List.foldl_append]
  rfl

end Key

/-- The time of a press. -/
def Touch.press? : Touch → Option Nat
  | .press time => some time
  | _ => none

/-- The time of the latest press. -/
def latestPress (touches : List Touch) : Option Nat := touches.reverse.findSome? Touch.press?

theorem latestPress_concat (touches : List Touch) (t : Touch) :
    latestPress (touches ++ [t]) = t.press?.or (latestPress touches) := by
  unfold latestPress
  rw [List.reverse_concat, List.findSome?_cons]
  cases t.press? <;> rfl

/-- Other touches leave the latest press as it is. -/
theorem latestPress_append {touches rest : List Touch} (h : ∀ t ∈ rest, t.press? = none) :
    latestPress (touches ++ rest) = latestPress touches := by
  unfold latestPress
  have hnone : rest.reverse.findSome? Touch.press? = none := by simpa using h
  rw [List.reverse_append, List.findSome?_append, hnone, Option.none_or]

end MeshLight
