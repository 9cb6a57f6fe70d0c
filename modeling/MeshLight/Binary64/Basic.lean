/-!
# MeshLight.Binary64.Basic

Double precision numbers as bit patterns, with exact arithmetic on the magnitudes they stand for.
A finite pattern is a sign and a magnitude `significand · 2 ^ shift / 2 ^ 1074`; every operation
takes the exact result and rounds it once, to the nearest number and from half way to the even one.
-/

namespace MeshLight

/-- A double precision number, given by its bits: sign, 11 bits of exponent, 52 of fraction. -/
structure Binary64 where
  bits : UInt64
  deriving DecidableEq

namespace Binary64

/-! ## parts -/

/-- The bits without the sign. They order magnitudes as numbers do. -/
def magnitude (x : Binary64) : Nat := x.bits.toNat % (1 <<< 63)

def isNegative (x : Binary64) : Bool := 1 <<< 63 ≤ x.bits.toNat

/-- The bits of infinity: all ones in the exponent. -/
def infinityBits : Nat := 2047 <<< 52

def isFinite (x : Binary64) : Bool := x.magnitude < infinityBits

def isNaN (x : Binary64) : Bool := infinityBits < x.magnitude

/-- The number with the given sign and magnitude bits. -/
def ofBits (negative : Bool) (magnitude : Nat) : Binary64 :=
  ⟨UInt64.ofNat (if negative then (1 <<< 63) + magnitude else magnitude)⟩

/-- Fraction with the leading one restored, which only the smallest numbers lack. -/
def significand (x : Binary64) : Nat :=
  if x.magnitude < 1 <<< 52 then x.magnitude else x.magnitude % (1 <<< 52) + (1 <<< 52)

/-- The power of two, counted in smallest units, that the significand is scaled by. -/
def shift (x : Binary64) : Nat := (x.magnitude >>> 52) - 1

/-- The smallest positive number is one part in this many. -/
def unitsPerOne : Nat := 1 <<< 1074

/-- The magnitude in smallest units. -/
def units (x : Binary64) : Nat := x.significand <<< x.shift

def zero : Binary64 := ⟨0⟩

def neg (x : Binary64) : Binary64 := ofBits (!x.isNegative) x.magnitude

/-! ## rounding -/

/-- The quotient rounded to the nearest integer, from half way to the even one. -/
def divRound (num den : Nat) : Nat :=
  let q := num / den
  let twice := 2 * (num % den)
  if den < twice ∨ (twice = den ∧ q % 2 = 1) then q + 1 else q

/-- The magnitude bits nearest to `num / den` smallest units, those of infinity if it is too
large. Adding the significand to the exponent lets a carry run into the exponent. -/
def magnitudeOfUnits (num den : Nat) : Nat :=
  let whole := num / den
  let shift := if whole < 1 <<< 53 then 0 else whole.log2 - 52
  min infinityBits ((shift <<< 52) + divRound num (den <<< shift))

/-- The non-negative number nearest to `num / den`. -/
def nearest (num den : Nat) : Binary64 :=
  ofBits false (magnitudeOfUnits (num * unitsPerOne) den)

/-- The number nearest to a natural number. -/
def ofNat (n : Nat) : Binary64 := nearest n 1

/-- The number nearest to an integer. -/
def ofInt : Int → Binary64
  | .ofNat n => ofNat n
  | .negSucc n => (ofNat (n + 1)).neg

/-! ## arithmetic on magnitudes -/

def add (x y : Binary64) : Binary64 := nearest (x.units + y.units) unitsPerOne

def mul (x y : Binary64) : Binary64 := nearest (x.units * y.units) (unitsPerOne * unitsPerOne)

def div (x y : Binary64) : Binary64 := nearest x.units y.units

end Binary64

end MeshLight
