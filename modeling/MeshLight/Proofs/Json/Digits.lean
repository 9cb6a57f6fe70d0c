import Mathlib.Data.Nat.Digits.Lemmas
import MeshLight.Json.Printer

/-!
# MeshLight.Proofs.Json.Digits

Integers in decimal notation. Their digits are the digits to base ten, the most significant first,
so no number begins with a zero that could be left out; and the digits of an integer of 64 bits,
read as a number without point and exponent, stand for that integer.
-/

namespace MeshLight

/-! ## digits -/

/-- With places enough, all digits are put in front. -/
theorem prependDigits_eq {places n : Nat} (tail : List Nat) (hn : n ≠ 0)
    (hplaces : n < 10 ^ places) : prependDigits places n tail = (Nat.digits 10 n).reverse ++ tail := by
  induction places generalizing n tail with
  | zero => omega
  | succ places ih =>
      unfold prependDigits
      split
      · next hsmall => simp [Nat.digits_of_lt 10 n hn hsmall]
      · next hlarge =>
          have hrest : n / 10 ≠ 0 := by omega
          have hless : n / 10 < 10 ^ places := by
            rw [Nat.pow_succ] at hplaces
            omega
          have hdigits : Nat.digits 10 n = n % 10 :: Nat.digits 10 (n / 10) :=
            Nat.digits_def' (by omega) (by omega)
          simp [ih (n % 10 :: tail) hrest hless, hdigits]

theorem decimalDigits_eq {n : Nat} (hn : n ≠ 0) : decimalDigits n = (Nat.digits 10 n).reverse := by
  have hplaces : n < 10 ^ (n.log2 + 1) :=
    Nat.lt_of_lt_of_le Nat.lt_log2_self (Nat.pow_le_pow_left (by omega) _)
  rw [decimalDigits, prependDigits_eq [] hn hplaces, List.append_nil]

theorem decimalDigits_zero : decimalDigits 0 = [0] := by decide

theorem lt_ten_of_mem_decimalDigits {n d : Nat} (h : d ∈ decimalDigits n) : d < 10 := by
  by_cases hn : n = 0
  · subst hn
    simp [decimalDigits_zero] at h
    omega
  · rw [decimalDigits_eq hn, List.mem_reverse] at h
    exact Nat.digits_lt_base (by omega) h

/-- There is a first digit, and only the number zero begins with a zero. -/
theorem decimalDigits_eq_cons (n : Nat) :
    ∃ d rest, decimalDigits n = d :: rest ∧ (d = 0 → rest = []) := by
  by_cases hn : n = 0
  · exact ⟨0, [], by rw [hn, decimalDigits_zero], fun _ => rfl⟩
  · have hne : Nat.digits 10 n ≠ [] := Nat.digits_ne_nil_iff_ne_zero.2 hn
    obtain ⟨d, rest, hdigits⟩ := List.exists_cons_of_ne_nil (mt List.reverse_eq_nil_iff.1 hne)
    have hlast : (Nat.digits 10 n).getLast hne = d := by
      rw [← List.head_reverse (by rwa [Ne, List.reverse_eq_nil_iff])]
      simp [hdigits]
    have hd : d ≠ 0 := by
      rw [← hlast]
      exact Nat.getLast_digit_ne_zero 10 hn
    exact ⟨d, rest, by rw [decimalDigits_eq hn, hdigits], fun hzero => absurd hzero hd⟩

theorem length_decimalDigits_pos (n : Nat) : 0 < (decimalDigits n).length := by
  obtain ⟨d, rest, hdigits, -⟩ := decimalDigits_eq_cons n
  rw [hdigits]
  exact Nat.succ_pos _

theorem length_decimalDigits_le {n k : Nat} (hn : n ≠ 0) (h : n < 10 ^ k) :
    (decimalDigits n).length ≤ k := by
  rw [decimalDigits_eq hn, List.length_reverse]
  exact (Nat.digits_length_le_iff (by omega) n).2 h

/-- A power of ten puts zeros behind the digits. -/
theorem decimalDigits_mul_ten_pow {c : Nat} (hc : c ≠ 0) (k : Nat) :
    decimalDigits (c * 10 ^ k) = decimalDigits c ++ List.replicate k 0 := by
  have hne : c * 10 ^ k ≠ 0 := Nat.mul_ne_zero hc (Nat.ne_of_gt (Nat.pow_pos (by omega)))
  rw [decimalDigits_eq hne, decimalDigits_eq hc, Nat.mul_comm,
    Nat.digits_base_pow_mul (by omega) (Nat.pos_of_ne_zero hc), List.reverse_append,
    List.reverse_replicate]

theorem decimalInt_eq (i : Int) :
    decimalInt i = (if i < 0 then ['-'] else []) ++ decimal i.natAbs := by
  cases i with
  | ofNat n => simp [decimalInt]
  | negSucc n => simp [decimalInt, Int.negSucc_lt_zero]

/-- The number that digits stand for, after those of `s`. -/
def appendDigits (s : Nat) (digits : List Nat) : Nat := digits.foldl (fun v d => v * 10 + d) s

theorem le_appendDigits (s : Nat) (digits : List Nat) : s ≤ appendDigits s digits := by
  induction digits generalizing s with
  | nil => exact Nat.le_refl s
  | cons d digits ih => exact Nat.le_trans (by omega) (ih (s * 10 + d))

theorem appendDigits_decimalDigits (n : Nat) : appendDigits 0 (decimalDigits n) = n := by
  by_cases hn : n = 0
  · rw [hn, decimalDigits_zero]
    rfl
  · rw [decimalDigits_eq hn, appendDigits, List.foldl_reverse]
    have hdigits := Nat.ofDigits_digits 10 n
    rw [Nat.ofDigits_eq_foldr] at hdigits
    simpa [Nat.mul_comm, Nat.add_comm] using hdigits

/-! ## integers -/

namespace Json.Number

/-- Digits before the point that fit make up the significand. -/
theorem takeWhole_of_lt {s : Nat} {digits : List Nat} (h : appendDigits s digits < UInt64.size) :
    takeWhole ⟨s, 0⟩ digits = ⟨appendDigits s digits, 0⟩ := by
  induction digits generalizing s with
  | nil => rfl
  | cons d digits ih =>
      have hroom : s * 10 + d < UInt64.size := Nat.lt_of_le_of_lt (le_appendDigits _ digits) h
      rw [takeWhole, if_pos ⟨rfl, by simpa [hasRoom] using hroom⟩]
      exact ih h

/-- An integer as it is written. -/
def textOf (i : Int) : NumberText := ⟨i < 0, decimalDigits i.natAbs, [], none⟩

/-- An integer that is written and fits 64 bits, signed or unsigned, is read as that integer. -/
theorem ofText?_textOf {i : Int} (hlow : -0x8000000000000000 ≤ i)
    (hhigh : i < 0x10000000000000000) : ofText? (textOf i) = some (.int i) := by
  have hfits : i.natAbs < UInt64.size := by
    have hsize : UInt64.size = 0x10000000000000000 := rfl
    omega
  have hscaled : scaled (textOf i) = ⟨i.natAbs, 0⟩ := by
    have hvalue := appendDigits_decimalDigits i.natAbs
    simp only [scaled, textOf, takeFraction]
    rw [takeWhole_of_lt (by rwa [hvalue]), hvalue]
  have hinteger : ofText? (textOf i) = integer? (i < 0) (scaled (textOf i)) := rfl
  rw [hinteger, hscaled, integer?]
  by_cases hsign : i < 0
  · have hsmall : ¬(i.natAbs = 0 ∨ 1 <<< 63 < i.natAbs) := by
      have hlimit : 1 <<< 63 = 0x8000000000000000 := rfl
      omega
    have habs : -(i.natAbs : Int) = i := by omega
    rw [if_neg (by simp), if_neg (by simpa using hsign), if_neg hsmall, habs]
  · have habs : (i.natAbs : Int) = i := by omega
    simp [hsign, habs]

end Json.Number

end MeshLight
