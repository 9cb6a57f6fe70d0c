import MeshLight.Binary64.Basic
import MeshLight.Text

/-!
# MeshLight.Binary64.Shortest

The shortest decimal that reads back as a given number. The reals that round to a number form an
interval around it, its ends included exactly if the significand is even. Of the decimals with one
significant digit, then two, and so on up to seventeen, the first kind with a member in the
interval is taken, of its members the nearest, and half way between two the one with an even last
digit. Seventeen digits always suffice.
-/

namespace MeshLight.Binary64

/-- Decimal notation with a point: the value is `digits · 10 ^ scale`. -/
structure Decimal where
  digits : Nat
  scale : Int
  deriving DecidableEq

/-- `10 ^ scale` as a quotient. -/
def tenPower : Int → Nat × Nat
  | .ofNat k => (Nat.pow 10 k, 1)
  | .negSucc k => (1, Nat.pow 10 (k + 1))

/-! ## the interval of a number -/

/-- Four times the distance to the lower end of the interval, in smallest units. Below a power of
two the numbers lie twice as dense. -/
def lowerGap (x : Binary64) : Nat :=
  if x.significand = 1 <<< 52 ∧ 0 < x.shift then 1 <<< x.shift else 2 <<< x.shift

/-- Four times the distance to the upper end of the interval, in smallest units. -/
def upperGap (x : Binary64) : Nat := 2 <<< x.shift

/-- Whether the real `num / den` rounds to the magnitude of `x`. -/
def covers (x : Binary64) (num den : Nat) : Bool :=
  let at4 := 4 * num * unitsPerOne
  let low := (4 * x.units - x.lowerGap) * den
  let high := (4 * x.units + x.upperGap) * den
  if x.significand % 2 = 0 then low ≤ at4 && at4 ≤ high else low < at4 && at4 < high

/-! ## candidates on a decimal grid -/

/-- The multiple of `10 ^ scale` that rounds to `x` and lies nearest to it, if there is one. -/
def onGrid? (x : Binary64) (scale : Int) : Option Nat :=
  let (up, down) := tenPower scale
  let num := x.units * down
  let den := unitsPerOne * up
  let below := num / den
  let above := below + 1
  let reads (c : Nat) := x.covers (c * up) down
  match reads below, reads above with
  | true, true => some (divRound num den)
  | true, false => some below
  | false, true => some above
  | false, false => none

/-- The first of the grids that has a candidate. -/
def firstOnGrid? (x : Binary64) : List Int → Option Decimal
  | [] => none
  | scale :: finer =>
    match x.onGrid? scale with
    | some c => some ⟨c, scale⟩
    | none => x.firstOnGrid? finer

/-! ## position of the leading digit -/

/-- The number of decimal places before the leading digit of `num / den`, at most `places`. -/
def leadingPlaces : (places num den : Nat) → Nat
  | 0, _, _ => 0
  | places + 1, num, den => if den ≤ num then 0 else 1 + leadingPlaces places (10 * num) den

/-- The power of ten just above the magnitude: `10 ^ (p - 1) ≤ x < 10 ^ p`. -/
def decimalExponent (x : Binary64) : Int :=
  let whole := x.units / unitsPerOne
  if whole = 0 then 1 - (leadingPlaces 324 x.units unitsPerOne : Int)
  else ((decimalDigits whole).length : Int)

/-! ## the shortest decimal -/

/-- Removes zeros from the end, of which there are at most `fuel`. -/
def Decimal.trim : (fuel : Nat) → Decimal → Decimal
  | 0, d => d
  | fuel + 1, d =>
    if d.digits ≠ 0 ∧ d.digits % 10 = 0 then Decimal.trim fuel ⟨d.digits / 10, d.scale + 1⟩ else d

/-- The shortest decimal that reads back as the magnitude of a finite number. -/
def shortest (x : Binary64) : Decimal :=
  let p := x.decimalExponent
  let grids := (List.range 17).map fun n => p - (n + 1 : Nat)
  match x.firstOnGrid? grids with
  | some d => d.trim 17
  | none => ⟨0, 0⟩

end MeshLight.Binary64
