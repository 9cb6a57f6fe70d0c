import MeshLight.Binary64.Shortest
import MeshLight.Proofs.Binary64.Exact
import MeshLight.Proofs.Json.Digits

/-!
# MeshLight.Proofs.Binary64.Shortest

The shortest decimal of an integer of 53 bits. The interval of the reals that round to such a number
holds no other integer, so as long as the grid of candidates is one of integers the number itself is
the only one that can be found, and on the grid of all integers it is found at the latest. What is
found is therefore the integer, without some of the zeros at its end (`exists_shortest_eq`).
-/

namespace MeshLight.Binary64

/-- Removing zeros keeps the value. -/
theorem Decimal.exists_trim_eq (fuel c k : Nat) :
    ∃ c' k' : Nat, trim fuel ⟨c, k⟩ = ⟨c', k'⟩ ∧ c' * 10 ^ k' = c * 10 ^ k := by
  induction fuel generalizing c k with
  | zero => exact ⟨c, k, rfl, rfl⟩
  | succ fuel ih =>
      by_cases h : c ≠ 0 ∧ c % 10 = 0
      · obtain ⟨c', k', htrim, hvalue⟩ := ih (c / 10) (k + 1)
        have hten : c / 10 * 10 = c := by omega
        refine ⟨c', k', ?_, ?_⟩
        · rw [trim, if_pos h]
          exact htrim
        · rw [hvalue, Nat.pow_succ, Nat.mul_comm (10 ^ k), ← Nat.mul_assoc, hten]
      · exact ⟨c, k, by rw [trim, if_neg h], rfl⟩

namespace IsInteger

variable {x : Binary64} {n : Nat}

/-- The interval of an integer ends before the next one on either side. -/
theorem gaps (hx : x.IsInteger n) (hn : n < 2 ^ 53) :
    (0 < x.lowerGap ∧ x.lowerGap < 4 * unitsPerOne) ∧
      0 < x.upperGap ∧ x.upperGap < 4 * unitsPerOne := by
  obtain ⟨k, hk⟩ : ∃ k, k = 1074 := ⟨_, rfl⟩
  have hone : unitsPerOne = 2 ^ k := by
    rw [unitsPerOne_eq (j := 0) (k := k) (by omega), Nat.pow_zero, Nat.one_mul]
  have hshift : 2 ^ x.shift ≤ 2 ^ k := Nat.pow_le_pow_right (by omega) (hk ▸ hx.shift_le hn)
  have hpos := Nat.two_pow_pos x.shift
  rw [hone, upperGap, lowerGap, Nat.shiftLeft_eq, Nat.shiftLeft_eq]
  split <;> omega

/-- No other integer reads back as the number. -/
theorem covers_iff (hx : x.IsInteger n) (hn : n < 2 ^ 53) (hne : n ≠ 0) (m : Nat) :
    x.covers m 1 = true ↔ m = n := by
  obtain ⟨⟨hlow, hlow'⟩, hhigh, hhigh'⟩ := hx.gaps hn
  have hunits : x.units = n * unitsPerOne := hx
  have hone : unitsPerOne ≤ n * unitsPerOne := Nat.le_mul_of_pos_left _ (Nat.pos_of_ne_zero hne)
  have hbelow : m < n → m * unitsPerOne + unitsPerOne ≤ n * unitsPerOne := fun h => by
    rw [← Nat.succ_mul]
    exact Nat.mul_le_mul_right _ h
  have habove : n < m → n * unitsPerOne + unitsPerOne ≤ m * unitsPerOne := fun h => by
    rw [← Nat.succ_mul]
    exact Nat.mul_le_mul_right _ h
  have hself : m = n → m * unitsPerOne = n * unitsPerOne := congrArg (· * unitsPerOne)
  simp only [covers, hunits, Nat.mul_one, Nat.mul_assoc 4 m]
  generalize m * unitsPerOne = a at hbelow habove hself ⊢
  generalize n * unitsPerOne = b at hone hbelow habove hself ⊢
  split
  · simp only [Bool.and_eq_true, decide_eq_true_eq]
    omega
  · simp only [Bool.and_eq_true, decide_eq_true_eq]
    omega

/-- A grid of integers has no candidate but the number itself. -/
theorem onGrid?_natCast (hx : x.IsInteger n) (hn : n < 2 ^ 53) (hne : n ≠ 0) (k : Nat) :
    x.onGrid? (k : Nat) = if n / 10 ^ k * 10 ^ k = n then some (n / 10 ^ k) else none := by
  have hunits : x.units = n * unitsPerOne := hx
  have htens : tenPower (k : Nat) = (10 ^ k, 1) := rfl
  have hbelow : n * unitsPerOne * 1 / (unitsPerOne * 10 ^ k) = n / 10 ^ k := by
    rw [Nat.mul_one, Nat.mul_comm n, Nat.mul_div_mul_left _ _ unitsPerOne_pos]
  have hreads : x.covers (n / 10 ^ k * 10 ^ k) 1 = decide (n / 10 ^ k * 10 ^ k = n) := by
    rw [Bool.eq_iff_iff, hx.covers_iff hn hne, decide_eq_true_eq]
  have habove : x.covers ((n / 10 ^ k + 1) * 10 ^ k) 1 = false := by
    refine Bool.eq_false_iff.2 fun h => ?_
    have hlt : n < (n / 10 ^ k + 1) * 10 ^ k := by
      rw [Nat.mul_comm]
      exact Nat.lt_mul_div_succ n (Nat.pow_pos (by omega))
    have heq := (hx.covers_iff hn hne _).1 h
    omega
  simp only [onGrid?, htens, hunits, hbelow, habove, hreads]
  by_cases h : n / 10 ^ k * 10 ^ k = n <;> simp [h]

/-- Grids that are tried from the coarsest on give the number by the time it is the turn of the
integers. -/
theorem exists_firstOnGrid?_eq (hx : x.IsInteger n) (hn : n < 2 ^ 53) (hne : n ≠ 0)
    {grids : List Int} (hintegers : 0 ∈ grids) (horder : grids.Pairwise (· > ·)) :
    ∃ c k : Nat, x.firstOnGrid? grids = some ⟨c, k⟩ ∧ c * 10 ^ k = n := by
  induction grids with
  | nil => cases hintegers
  | cons scale finer ih =>
      have hscale : 0 ≤ scale := by
        obtain rfl | hlater := List.mem_cons.1 hintegers
        · exact Int.le_refl 0
        · exact Int.le_of_lt (List.rel_of_pairwise_cons horder hlater)
      obtain ⟨k, rfl⟩ := Int.eq_ofNat_of_zero_le hscale
      have hgrid := hx.onGrid?_natCast hn hne k
      by_cases h : n / 10 ^ k * 10 ^ k = n
      · exact ⟨n / 10 ^ k, k, by simp [firstOnGrid?, hgrid, h], h⟩
      · have hlater : 0 ∈ finer := by
          refine (List.mem_cons.1 hintegers).resolve_left fun hk => h ?_
          rw [show k = 0 by omega, Nat.pow_zero, Nat.div_one, Nat.mul_one]
        obtain ⟨c, k', hfound, hvalue⟩ := ih hlater horder.of_cons
        exact ⟨c, k', by simp [firstOnGrid?, hgrid, h, hfound], hvalue⟩

/-- The shortest decimal of an integer is that integer, in places of some power of ten. -/
theorem exists_shortest_eq (hx : x.IsInteger n) (hn : n < 2 ^ 53) (hne : n ≠ 0) :
    ∃ c k : Nat, x.shortest = ⟨c, k⟩ ∧ c * 10 ^ k = n := by
  have hunits : x.units = n * unitsPerOne := hx
  have hplaces : x.decimalExponent = (decimalDigits n).length := by
    rw [decimalExponent, hunits, Nat.mul_div_cancel _ unitsPerOne_pos, if_neg hne]
  have hmost : (decimalDigits n).length ≤ 16 := length_decimalDigits_le hne (by omega)
  have hleast := length_decimalDigits_pos n
  have hintegers : 0 ∈ (List.range 17).map fun i => x.decimalExponent - (i + 1 : Nat) := by
    refine List.mem_map.2 ⟨(decimalDigits n).length - 1, List.mem_range.2 (by omega), ?_⟩
    omega
  have horder : ((List.range 17).map fun i =>
      x.decimalExponent - (i + 1 : Nat)).Pairwise (· > ·) := by
    rw [List.pairwise_map]
    exact List.pairwise_lt_range.imp (by omega)
  obtain ⟨c, k, hfound, hvalue⟩ := hx.exists_firstOnGrid?_eq hn hne hintegers horder
  obtain ⟨c', k', htrim, hvalue'⟩ := Decimal.exists_trim_eq 17 c k
  refine ⟨c', k', ?_, hvalue'.trans hvalue⟩
  simp only [shortest, hfound, htrim]

end IsInteger

end MeshLight.Binary64
