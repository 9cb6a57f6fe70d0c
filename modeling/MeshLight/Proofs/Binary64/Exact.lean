import Mathlib.Algebra.Ring.Nat
import MeshLight.Binary64.Basic

/-!
# MeshLight.Proofs.Binary64.Exact

Where rounding changes nothing. The bits of a magnitude are a significand and a shift one after the
other, and each magnitude has one such pair (`magnitude_eq`, `parts_of_magnitude`). So a finite
number is its own rounding (`magnitudeOfUnits_units`) and an integer of 53 bits is met exactly
(`units_ofNat`). Rounding sees nothing of a quotient but its value (`magnitudeOfUnits_mul_left`), so
a product of such integers that is divided by one of them gives the other (`div_ofNat_mul`).
-/

namespace MeshLight.Binary64

/-! ## significand and shift -/

/-- A significand of 53 bits, the first of which is set unless the shift is zero. -/
structure IsNormal (significand shift : Nat) : Prop where
  lt : significand < 2 ^ 53
  le : 2 ^ 52 ≤ significand ∨ shift = 0

theorem significand_eq (x : Binary64) : x.significand =
    if x.magnitude < 2 ^ 52 then x.magnitude else x.magnitude % 2 ^ 52 + 2 ^ 52 := rfl

theorem shift_eq (x : Binary64) : x.shift = x.magnitude / 2 ^ 52 - 1 := by
  rw [shift, Nat.shiftRight_eq_div_pow]

theorem units_eq (x : Binary64) : x.units = x.significand * 2 ^ x.shift := Nat.shiftLeft_eq _ _

theorem isNormal (x : Binary64) : IsNormal x.significand x.shift := by
  rw [significand_eq, shift_eq]
  constructor
  · split <;> omega
  · split <;> omega

/-- The leading bit of the significand counts in the exponent. -/
theorem magnitude_eq (x : Binary64) : x.magnitude = 2 ^ 52 * x.shift + x.significand := by
  rw [significand_eq, shift_eq]
  split <;> omega

theorem parts_of_magnitude {x : Binary64} {s e : Nat} (h : IsNormal s e)
    (hmag : x.magnitude = 2 ^ 52 * e + s) : x.significand = s ∧ x.shift = e := by
  obtain ⟨hlt, hle⟩ := h
  rw [significand_eq, shift_eq, hmag]
  constructor
  · split <;> omega
  · omega

/-! ## sign and magnitude -/

theorem magnitude_eq_mod (x : Binary64) : x.magnitude = x.bits.toNat % 2 ^ 63 := rfl

theorem isNegative_eq (x : Binary64) : x.isNegative = decide (2 ^ 63 ≤ x.bits.toNat) := rfl

theorem magnitude_lt (x : Binary64) : x.magnitude < 2 ^ 63 := Nat.mod_lt _ (Nat.two_pow_pos 63)

theorem toNat_bits_ofBits (negative : Bool) {m : Nat} (hm : m < 2 ^ 63) :
    (ofBits negative m).bits.toNat = (if negative then 2 ^ 63 else 0) + m := by
  rw [ofBits, UInt64.toNat_ofNat', Nat.one_shiftLeft]
  cases negative with
  | true => exact Nat.mod_eq_of_lt (show 2 ^ 63 + m < 2 ^ 64 by omega)
  | false => exact (Nat.mod_eq_of_lt (show m < 2 ^ 64 by omega)).trans (Nat.zero_add m).symm

theorem magnitude_ofBits (negative : Bool) {m : Nat} (hm : m < 2 ^ 63) :
    (ofBits negative m).magnitude = m := by
  rw [magnitude_eq_mod, toNat_bits_ofBits negative hm]
  split <;> omega

theorem isNegative_ofBits (negative : Bool) {m : Nat} (hm : m < 2 ^ 63) :
    (ofBits negative m).isNegative = negative := by
  rw [isNegative_eq, toNat_bits_ofBits negative hm]
  cases negative with
  | true => exact decide_eq_true (Nat.le_add_right _ m)
  | false => exact decide_eq_false (by simpa using hm)

theorem neg_ofBits (negative : Bool) {m : Nat} (hm : m < 2 ^ 63) :
    (ofBits negative m).neg = ofBits (!negative) m := by
  rw [neg, isNegative_ofBits negative hm, magnitude_ofBits negative hm]

/-- A number is made up of its sign and its magnitude. -/
theorem ofBits_self (x : Binary64) : ofBits x.isNegative x.magnitude = x := by
  have hless := x.bits.toNat_lt
  have hbits : (ofBits x.isNegative x.magnitude).bits.toNat = x.bits.toNat := by
    rw [toNat_bits_ofBits _ x.magnitude_lt, isNegative_eq, magnitude_eq_mod]
    simp only [decide_eq_true_eq]
    split <;> omega
  exact congrArg Binary64.mk (UInt64.toNat_inj.1 hbits)

theorem units_neg (x : Binary64) : x.neg.units = x.units := by
  have hmag : x.neg.magnitude = x.magnitude := magnitude_ofBits _ x.magnitude_lt
  simp only [units, significand, shift, hmag]

/-! ## rounding -/

theorem divRound_mul_left {k : Nat} (hk : 0 < k) (num den : Nat) :
    divRound (k * num) (k * den) = divRound num den := by
  have hquot : k * num / (k * den) = num / den := Nat.mul_div_mul_left num den hk
  have hrest : k * num % (k * den) = k * (num % den) := Nat.mul_mod_mul_left k num den
  have hless : k * den < 2 * (k * (num % den)) ↔ den < 2 * (num % den) := by
    rw [Nat.mul_left_comm]
    exact Nat.mul_lt_mul_left hk
  have hhalf : 2 * (k * (num % den)) = k * den ↔ 2 * (num % den) = den := by
    rw [Nat.mul_left_comm]
    exact Nat.mul_right_inj (Nat.ne_of_gt hk)
  simp only [divRound, hquot, hrest, hless, hhalf]

theorem divRound_mul_self {n den : Nat} (hden : 0 < den) : divRound (n * den) den = n := by
  have hzero : 0 ≠ den := Nat.ne_of_lt hden
  simp [divRound, Nat.mul_div_cancel _ hden, hzero]

theorem magnitudeOfUnits_mul_left {k : Nat} (hk : 0 < k) (num den : Nat) :
    magnitudeOfUnits (k * num) (k * den) = magnitudeOfUnits num den := by
  have hquot : k * num / (k * den) = num / den := Nat.mul_div_mul_left num den hk
  have hshift (n : Nat) : (k * den) <<< n = k * (den <<< n) := by
    rw [Nat.shiftLeft_eq, Nat.shiftLeft_eq, Nat.mul_assoc]
  simp only [magnitudeOfUnits, hquot, hshift, divRound_mul_left hk]

/-- The shift that is chosen for units which a significand and a shift make up is that shift. -/
theorem shift_of_isNormal {s e : Nat} (h : IsNormal s e) :
    (if s * 2 ^ e < 2 ^ 53 then 0 else (s * 2 ^ e).log2 - 52) = e := by
  obtain ⟨hlt, hle⟩ := h
  obtain he | he := Nat.eq_zero_or_pos e
  · rw [he, Nat.pow_zero, Nat.mul_one, if_pos hlt]
  · have hle' : 2 ^ 52 ≤ s := hle.resolve_right (Nat.ne_of_gt he)
    have hlow : 2 ^ (52 + e) ≤ s * 2 ^ e := by
      rw [Nat.pow_add]
      exact Nat.mul_le_mul_right _ hle'
    have hhigh : s * 2 ^ e < 2 ^ (52 + e + 1) := by
      rw [show 52 + e + 1 = 53 + e by omega, Nat.pow_add]
      exact Nat.mul_lt_mul_of_pos_right hlt (Nat.two_pow_pos e)
    have hbig : 2 ^ 53 ≤ s * 2 ^ e :=
      Nat.le_trans (Nat.pow_le_pow_right (by decide) (by omega)) hlow
    have hlog : (s * 2 ^ e).log2 = 52 + e := (Nat.log2_eq_iff (by omega)).2 ⟨hlow, hhigh⟩
    rw [if_neg (Nat.not_lt.2 hbig), hlog]
    omega

theorem magnitudeOfUnits_of_isNormal {s e : Nat} (h : IsNormal s e)
    (hfinite : 2 ^ 52 * e + s ≤ infinityBits) :
    magnitudeOfUnits (s * 2 ^ e) 1 = 2 ^ 52 * e + s := by
  have hunfold : magnitudeOfUnits (s * 2 ^ e) 1 = min infinityBits
      ((if s * 2 ^ e < 2 ^ 53 then 0 else (s * 2 ^ e).log2 - 52) <<< 52 + divRound (s * 2 ^ e)
        (1 <<< if s * 2 ^ e < 2 ^ 53 then 0 else (s * 2 ^ e).log2 - 52)) := by
    rw [magnitudeOfUnits, Nat.div_one]
    rfl
  rw [hunfold, shift_of_isNormal h, Nat.one_shiftLeft, divRound_mul_self (Nat.two_pow_pos e),
    Nat.shiftLeft_eq, Nat.mul_comm, Nat.min_eq_right hfinite]

/-- A finite number is its own rounding. -/
theorem magnitudeOfUnits_units {x : Binary64} (h : x.isFinite = true) :
    magnitudeOfUnits x.units 1 = x.magnitude := by
  have hfinite : x.magnitude < infinityBits := of_decide_eq_true h
  rw [units_eq, magnitude_eq]
  exact magnitudeOfUnits_of_isNormal x.isNormal (by rw [← magnitude_eq]; exact Nat.le_of_lt hfinite)

/-! ## integers -/

theorem infinityBits_eq : infinityBits = 2047 * 2 ^ 52 := Nat.shiftLeft_eq 2047 52

theorem unitsPerOne_pos : 0 < unitsPerOne := by decide +kernel

theorem unitsPerOne_eq {j k : Nat} (h : j + k = 1074) : unitsPerOne = 2 ^ j * 2 ^ k := by
  rw [← Nat.pow_add, ← Nat.one_shiftLeft, h]
  rfl

/-- An integer of 53 bits, in smallest units, as a significand and a shift. -/
theorem exists_isNormal {n : Nat} (h : n < 2 ^ 53) :
    ∃ s e, IsNormal s e ∧ e ≤ 1074 ∧ s * 2 ^ e = n * unitsPerOne := by
  obtain rfl | hn := Nat.eq_zero_or_pos n
  · exact ⟨0, 0, ⟨by omega, .inr rfl⟩, by omega, by rw [Nat.zero_mul, Nat.zero_mul]⟩
  · have hn' : n ≠ 0 := Nat.ne_of_gt hn
    have hlog : n.log2 ≤ 52 := Nat.le_of_lt_succ ((Nat.log2_lt hn').2 h)
    have hlow := Nat.mul_le_mul_right (2 ^ (52 - n.log2)) (Nat.log2_self_le hn')
    have hhigh := Nat.mul_lt_mul_of_pos_right (Nat.lt_log2_self (n := n))
      (Nat.two_pow_pos (52 - n.log2))
    rw [← Nat.pow_add, show n.log2 + (52 - n.log2) = 52 by omega] at hlow
    rw [← Nat.pow_add, show n.log2 + 1 + (52 - n.log2) = 53 by omega] at hhigh
    refine ⟨n * 2 ^ (52 - n.log2), n.log2 + 1022, ⟨hhigh, .inl hlow⟩, by omega, ?_⟩
    rw [unitsPerOne_eq (j := 52 - n.log2) (k := n.log2 + 1022) (by omega), Nat.mul_assoc]

theorem units_ofNat {n : Nat} (h : n < 2 ^ 53) : (ofNat n).units = n * unitsPerOne := by
  obtain ⟨s, e, hnormal, he, hunits⟩ := exists_isNormal h
  have hless := hnormal.lt
  have hmag : (ofNat n).magnitude = 2 ^ 52 * e + s := by
    have hbits := magnitudeOfUnits_of_isNormal hnormal (by rw [infinityBits_eq]; omega)
    rw [ofNat, nearest, ← hunits, hbits]
    exact magnitude_ofBits _ (by omega)
  obtain ⟨hs, he⟩ := parts_of_magnitude hnormal hmag
  rw [units_eq, hs, he, hunits]

/-- Dividing a product by one factor gives the other. -/
theorem div_ofNat_mul {k n : Nat} (hk : 0 < k) (hk' : k < 2 ^ 53) (h : k * n < 2 ^ 53) :
    (ofNat (k * n)).div (ofNat k) = ofNat n := by
  have hpos : 0 < k * unitsPerOne := Nat.mul_pos hk unitsPerOne_pos
  have hnum : k * n * unitsPerOne * unitsPerOne = k * unitsPerOne * (n * unitsPerOne) := by
    ac_rfl
  have hscale := magnitudeOfUnits_mul_left hpos (n * unitsPerOne) 1
  rw [Nat.mul_one] at hscale
  rw [div, units_ofNat h, units_ofNat hk', nearest, hnum, hscale]
  rfl

/-- The number is `n` or `-n`. -/
def IsInteger (x : Binary64) (n : Nat) : Prop := x.units = n * unitsPerOne

theorem isInteger_ofInt {i : Int} (h : i.natAbs < 2 ^ 53) : (ofInt i).IsInteger i.natAbs := by
  cases i with
  | ofNat n => exact units_ofNat h
  | negSucc n => exact (units_neg _).trans (units_ofNat h)

namespace IsInteger

variable {x : Binary64} {n : Nat}

theorem shift_le (hx : x.IsInteger n) (hn : n < 2 ^ 53) : x.shift ≤ 1074 := by
  obtain ⟨k, hk⟩ : ∃ k, k = 1074 := ⟨_, rfl⟩
  have hone : unitsPerOne = 2 ^ k := by
    rw [unitsPerOne_eq (j := 0) (k := k) (by omega), Nat.pow_zero, Nat.one_mul]
  have hunits : x.significand * 2 ^ x.shift = n * 2 ^ k := by
    rw [← hone, ← units_eq]
    exact hx
  refine Nat.le_of_not_lt fun hlt => ?_
  have hlow : 2 ^ 52 ≤ x.significand := x.isNormal.le.resolve_right (by omega)
  have hbig : 2 ^ 52 * 2 ^ (k + 1) ≤ x.significand * 2 ^ x.shift :=
    Nat.mul_le_mul hlow (Nat.pow_le_pow_right (by decide) (by omega))
  have hsmall : n * 2 ^ k < 2 ^ 53 * 2 ^ k := Nat.mul_lt_mul_of_pos_right hn (Nat.two_pow_pos k)
  rw [hunits, Nat.pow_succ] at hbig
  omega

theorem isFinite (hx : x.IsInteger n) (hn : n < 2 ^ 53) : x.isFinite = true := by
  have hshift := hx.shift_le hn
  have hless := x.isNormal.lt
  have hmag : x.magnitude < infinityBits := by
    rw [magnitude_eq, infinityBits_eq]
    omega
  exact decide_eq_true hmag

/-- An integer of 53 bits is the rounding of that integer, but for its sign. -/
theorem ofNat_eq (hx : x.IsInteger n) (hn : n < 2 ^ 53) : ofNat n = ofBits false x.magnitude := by
  have hmag : magnitudeOfUnits (n * unitsPerOne) 1 = x.magnitude := by
    rw [← show x.units = n * unitsPerOne from hx]
    exact magnitudeOfUnits_units (hx.isFinite hn)
  rw [ofNat, nearest, hmag]

theorem magnitude_eq_zero_iff (hx : x.IsInteger n) : x.magnitude = 0 ↔ n = 0 := by
  have hunits : x.significand * 2 ^ x.shift = n * unitsPerOne := by
    rw [← units_eq]
    exact hx
  have hleft : x.significand * 2 ^ x.shift = 0 ↔ x.significand = 0 := by
    rw [Nat.mul_eq_zero, or_iff_left (Nat.ne_of_gt (Nat.two_pow_pos _))]
  have hright : n * unitsPerOne = 0 ↔ n = 0 := by
    rw [Nat.mul_eq_zero, or_iff_left (Nat.ne_of_gt unitsPerOne_pos)]
  have hnormal := x.isNormal.le
  rw [magnitude_eq, ← hright, ← hunits, hleft]
  omega

end IsInteger

end MeshLight.Binary64
