import MeshLight.Json.Value
import MeshLight.Proofs.Json.Spelling

/-!
# MeshLight.Proofs.Json.Literal

Integers as JSON allows to write them, with any number of digits (`IntegerLiteral`). A literal is
read as the integer that it stands for, if that fits 64 bits, signed or unsigned, and is not zero
with a minus before it (`IntegerLiteral.ofText?_of_within`). Any other is read as a double, or not
at all, but never as an integer (`IntegerLiteral.within_of_int`).
-/

namespace MeshLight.Json

/-- An integer as it may be written: digits, with a minus before them or not. The first digit is no
zero that could be left out. -/
structure IntegerLiteral where
  negative : Bool
  digits : List Nat
  digits_ne_nil : digits ≠ []
  lt_ten : ∀ d ∈ digits, d < 10
  unpadded : digits.head? = some 0 → digits = [0]

namespace IntegerLiteral

/-- What the digits stand for. -/
def magnitude (l : IntegerLiteral) : Nat := appendDigits 0 l.digits

/-- What the literal stands for. -/
def value (l : IntegerLiteral) : Int := if l.negative then -l.magnitude else l.magnitude

/-- Whether the literal is zero with a minus before it. -/
def isMinusZero (l : IntegerLiteral) : Bool := l.negative && l.magnitude = 0

/-- Whether the literal stands for one of the integers from `low` and below `high`, and is not zero
with a minus before it. -/
def Within (low high : Int) (l : IntegerLiteral) : Prop :=
  low ≤ l.value ∧ l.value < high ∧ l.isMinusZero = false

instance (low high : Int) (l : IntegerLiteral) : Decidable (l.Within low high) := by
  unfold Within
  infer_instance

theorem Within.mono {low low' high high' : Int} {l : IntegerLiteral} (h : l.Within low high)
    (hlow : low' ≤ low) (hhigh : high ≤ high') : l.Within low' high' :=
  ⟨by have := h.1; omega, by have := h.2.1; omega, h.2.2⟩

theorem within_iff_of_pos {low high : Int} {l : IntegerLiteral} (hlow : 0 < low) :
    l.Within low high ↔ low ≤ l.value ∧ l.value < high := by
  refine ⟨fun h => ⟨h.1, h.2.1⟩, fun h => ⟨h.1, h.2, ?_⟩⟩
  have hvalue : l.isMinusZero = true → l.value ≤ 0 := fun hzero => by
    obtain ⟨-, hzero⟩ : l.negative = true ∧ l.magnitude = 0 := by
      simpa [isMinusZero] using hzero
    rw [value, hzero]
    split <;> decide
  exact Bool.eq_false_iff.2 fun hzero => by have := hvalue hzero; have := h.1; omega

/-- The literal as it stands in a text. -/
def chars (l : IntegerLiteral) : List Char :=
  (if l.negative then ['-'] else []) ++ l.digits.map Nat.digitChar

/-- The literal as it is read. -/
def written (l : IntegerLiteral) : NumberText := ⟨l.negative, l.digits, [], none⟩

/-- The literal with which an integer is printed. -/
def ofInt (i : Int) : IntegerLiteral where
  negative := i < 0
  digits := decimalDigits i.natAbs
  digits_ne_nil := List.ne_nil_of_length_pos (length_decimalDigits_pos i.natAbs)
  lt_ten _ hd := lt_ten_of_mem_decimalDigits hd
  unpadded h := by
    obtain ⟨d, digits, hdigits, hzero⟩ := decimalDigits_eq_cons i.natAbs
    rw [hdigits] at h ⊢
    obtain rfl : d = 0 := Option.some.inj h
    rw [hzero rfl]

/-- Every integer has a literal. -/
theorem value_ofInt (i : Int) : (ofInt i).value = i := by
  have hmagnitude : (ofInt i).magnitude = i.natAbs := appendDigits_decimalDigits i.natAbs
  rw [value, hmagnitude]
  unfold ofInt
  split
  · next h =>
      have hneg : i < 0 := by simpa using h
      omega
  · next h =>
      have hpos : ¬i < 0 := by simpa using h
      omega

/-! ## reading -/

theorem lexeme (l : IntegerLiteral) : Lexeme l.chars (.number l.written) := by
  obtain ⟨negative, digits, hne, hsmall, hunpadded⟩ := l
  intro rest hrest
  obtain ⟨d, digits, rfl⟩ := List.exists_cons_of_ne_nil hne
  have hzero : d = 0 → digits = [] := fun hd => (List.cons.inj (hunpadded (by rw [hd]; rfl))).2
  rw [chars, tokens?_whole negative hsmall hzero, Lexer.run_whole_end hrest, List.reverse_reverse]
  rfl

end IntegerLiteral

/-! ## significand -/

namespace Number

/-- Once digits count as places, so do all that follow. -/
theorem scale_takeWhole_pos {s : Scaled} {digits : List Nat} (h : 0 < s.scale) :
    0 < (takeWhole s digits).scale := by
  induction digits generalizing s with
  | nil => exact h
  | cons d digits ih =>
      rw [takeWhole, if_neg fun hroom => absurd hroom.1 (by omega)]
      exact ih (show 0 < s.scale + 1 by omega)

/-- Digits that do not fit count as places. -/
theorem scale_takeWhole_of_le {s : Nat} {digits : List Nat} (hs : s < UInt64.size)
    (h : UInt64.size ≤ appendDigits s digits) : 0 < (takeWhole ⟨s, 0⟩ digits).scale := by
  induction digits generalizing s with
  | nil => exact absurd h (Nat.not_le.2 hs)
  | cons d digits ih =>
      rw [takeWhole]
      split
      · next hroom => exact ih (by simpa [hasRoom] using hroom.2) h
      · exact scale_takeWhole_pos (show (0 : Int) < 0 + 1 by omega)

theorem float?_ne_int (negative : Bool) (s : Scaled) (i : Int) :
    float? negative s ≠ some (.int i) := by
  simp [float?]

end Number

/-! ## what a literal is read as -/

namespace IntegerLiteral

variable {l : IntegerLiteral}

theorem ofText?_eq_integer? (l : IntegerLiteral) :
    Number.ofText? l.written = Number.integer? l.negative (Number.takeWhole ⟨0, 0⟩ l.digits) := rfl

/-- A literal whose digits fit 64 bits is read. -/
theorem ofText?_of_lt (h : l.magnitude < UInt64.size) :
    Number.ofText? l.written = some (if l.negative then
      if l.magnitude = 0 ∨ 1 <<< 63 < l.magnitude then .float (Binary64.ofNat l.magnitude).neg
      else .int (-l.magnitude)
    else .int l.magnitude) := by
  rw [ofText?_eq_integer?, Number.takeWhole_of_lt h, Number.integer?, if_neg (by simp)]
  cases l.negative with
  | true =>
      simp only [Bool.not_true, Bool.false_eq_true, if_false, if_true]
      show (if l.magnitude = 0 ∨ 1 <<< 63 < l.magnitude then _ else _) = _
      split <;> rfl
  | false => rfl

/-- A literal that is read as an integer is read as the one it stands for. That has 64 bits, signed
or unsigned, and is not zero with a minus before it. -/
theorem within_of_int {i : Int} (h : Number.ofText? l.written = some (.int i)) :
    i = l.value ∧ l.Within (-0x8000000000000000) 0x10000000000000000 := by
  have hsize : UInt64.size = 0x10000000000000000 := rfl
  have hlimit : 1 <<< 63 = 0x8000000000000000 := rfl
  by_cases hfits : l.magnitude < UInt64.size
  · rw [ofText?_of_lt hfits] at h
    unfold Within value isMinusZero
    cases hsign : l.negative with
    | false =>
        rw [hsign, if_neg Bool.false_ne_true] at h
        injection Option.some.inj h with hi
        rw [if_neg Bool.false_ne_true]
        exact ⟨hi.symm, by omega, by omega, rfl⟩
    | true =>
        rw [hsign, if_pos rfl] at h
        split at h
        · cases h
        · next hsmall =>
            injection Option.some.inj h with hi
            have hpos : l.magnitude ≠ 0 := fun hzero => hsmall (.inl hzero)
            rw [if_pos rfl]
            exact ⟨hi.symm, by omega, by omega, by simpa using hpos⟩
  · have hscale := Number.scale_takeWhole_of_le (s := 0) (by decide) (Nat.le_of_not_lt hfits)
    rw [ofText?_eq_integer?, Number.integer?, if_pos (by exact Int.ne_of_gt hscale)] at h
    exact absurd h (Number.float?_ne_int _ _ _)

/-- Every such literal is read as an integer. -/
theorem ofText?_of_within (h : l.Within (-0x8000000000000000) 0x10000000000000000) :
    Number.ofText? l.written = some (.int l.value) := by
  have hsize : UInt64.size = 0x10000000000000000 := rfl
  have hlimit : 1 <<< 63 = 0x8000000000000000 := rfl
  obtain ⟨hlow, hhigh, hzero⟩ := h
  unfold value at hlow hhigh ⊢
  unfold isMinusZero at hzero
  cases hsign : l.negative with
  | false =>
      rw [hsign, if_neg Bool.false_ne_true] at hhigh
      rw [ofText?_of_lt (by omega), hsign, if_neg Bool.false_ne_true, if_neg Bool.false_ne_true]
  | true =>
      rw [hsign, if_pos rfl] at hlow
      have hpos : l.magnitude ≠ 0 := by simpa [hsign] using hzero
      rw [ofText?_of_lt (by omega), hsign, if_pos rfl, if_pos rfl, if_neg (by omega)]

end IntegerLiteral

end MeshLight.Json
