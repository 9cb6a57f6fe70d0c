import MeshLight.Binary64.Basic
import MeshLight.Json.Token

/-!
# MeshLight.Json.Number

What a number as written stands for. A number without point and exponent is an integer if it fits
64 bits, unsigned, or signed if it is negative; every other is a double precision number.

Such a number is read in two steps. The leading digits are gathered into a significand as long as
it fits 64 bits; further digits before the point only count as places, further ones after it not at
all. The significand, rounded to a double, is then multiplied or divided by the double nearest to
the power of ten. Results may therefore lie next to the nearest number.
-/

namespace MeshLight.Json

/-- A number with its type. -/
inductive Number where
  | int (i : Int)
  | float (x : Binary64)
  deriving DecidableEq

namespace Number

/-! ## significand -/

/-- A decimal significand and the places it is short of the digits written. -/
structure Scaled where
  significand : Nat
  scale : Int
  deriving DecidableEq

/-- Whether a significand can take a further digit. -/
def hasRoom (significand digit : Nat) : Bool := significand * 10 + digit < UInt64.size

/-- Takes the digits before the point. From the first that does not fit, they count as places. -/
def takeWhole (s : Scaled) : List Nat → Scaled
  | [] => s
  | d :: ds =>
    if s.scale = 0 ∧ hasRoom s.significand d then
      takeWhole { s with significand := s.significand * 10 + d } ds
    else takeWhole { s with scale := s.scale + 1 } ds

/-- Takes the digits after the point, up to the first that does not fit. -/
def takeFraction (s : Scaled) : List Nat → Scaled
  | [] => s
  | d :: ds =>
    if hasRoom s.significand d then takeFraction ⟨s.significand * 10 + d, s.scale - 1⟩ ds
    else s

/-- The digits before and after the point. -/
def scaled (n : NumberText) : Scaled := takeFraction (takeWhole ⟨0, 0⟩ n.whole) n.fraction

/-! ## exponent -/

/-- The largest exponent that can be written. -/
def exponentLimit : Nat := 0x7fffffff

/-- The value of the exponent's digits, unless it is beyond the limit. -/
def exponentValue? (digits : List Nat) : Option Nat :=
  let v := digits.foldl (fun v d => v * 10 + d) 0
  if v ≤ exponentLimit then some v else none

/-- An integer brought into the range of 32-bit signed numbers. -/
def saturate32 (i : Int) : Int := max (-0x80000000) (min 0x7fffffff i)

/-! ## scaling -/

/-- `10 ^ k` as a double. -/
def tenTo (k : Nat) : Binary64 := Binary64.ofNat (Nat.pow 10 k)

/-- The largest power of ten below infinity. -/
def largestTenPower : Nat := 308

/-- A non-negative double times a power of ten, if that is finite. Larger powers of ten than a
double can hold are divided by in steps, which end once nothing is left of the number. -/
def scale : (fuel : Nat) → Binary64 → Int → Option Binary64
  | 0, x, _ => some x
  | fuel + 1, x, exponent =>
    if exponent.natAbs ≤ largestTenPower then
      if 0 ≤ exponent then
        let y := x.mul (tenTo exponent.natAbs)
        if y.isFinite then some y else none
      else
        some (x.div (tenTo exponent.natAbs))
    else if x.magnitude = 0 then some x
    else if 0 ≤ exponent then none
    else scale fuel (x.div (tenTo largestTenPower)) (exponent + largestTenPower)

/-- Gives a non-negative double the sign written. -/
def signed (negative : Bool) (x : Binary64) : Binary64 := if negative then x.neg else x

/-- The double that a scaled significand stands for, if it is finite. Four steps bring any double
to zero. -/
def float? (negative : Bool) (s : Scaled) : Option Number :=
  (scale 4 (Binary64.ofNat s.significand) s.scale).map fun x => .float (signed negative x)

/-- The double that a significand with an exponent stands for, if it is finite. -/
def withExponent? (negative : Bool) (s : Scaled) (e : ExponentText) : Option Number :=
  match exponentValue? e.digits with
  | some v =>
    float? negative { s with scale := saturate32 (if e.negative then s.scale - v else s.scale + v) }
  | none =>
    if s.significand ≠ 0 ∧ !e.negative then none
    else some (.float (signed negative Binary64.zero))

/-! ## the number -/

/-- An integer, or the nearest double if it does not fit. Negative zero is a double. -/
def integer? (negative : Bool) (s : Scaled) : Option Number :=
  if s.scale ≠ 0 then float? negative s
  else if !negative then some (.int s.significand)
  else if s.significand = 0 ∨ 1 <<< 63 < s.significand then
    some (.float (Binary64.ofNat s.significand).neg)
  else some (.int (-(s.significand : Int)))

/-- The number that was written, unless it is too large. -/
def ofText? (n : NumberText) : Option Number :=
  let s := scaled n
  match n.exponent with
  | some e => withExponent? n.negative s e
  | none => if n.fraction.isEmpty then integer? n.negative s else float? n.negative s

end Number

end MeshLight.Json
