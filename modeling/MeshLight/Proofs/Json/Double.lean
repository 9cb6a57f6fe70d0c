import MeshLight.Proofs.Binary64.Shortest
import MeshLight.Proofs.Json.RoundTrip

/-!
# MeshLight.Proofs.Json.Double

Doubles that are integers, in JSON. One of 53 bits is written as the digits of the integer with a
point and a zero behind them (`double_of_isInteger`). Read again this is ten times the integer,
divided by ten, and the quotient of two such integers is exact; so the number comes back
(`Value.ReadsBack.float`), with its sign even if it is zero.
-/

namespace MeshLight

open MeshLight.Json

variable {x : Binary64} {n : Nat}

/-! ## what is written -/

/-- Zeros at the end of an integer of sixteen digits at most are written out. -/
theorem Json.layout_of_mul_ten_pow {c : Nat} (k : Nat) (hc : c ≠ 0) (h : c * 10 ^ k < 10 ^ 16) :
    layout (decimal c) ((decimal c).length + k) = decimal (c * 10 ^ k) ++ ['.', '0'] := by
  have hdigits : decimal (c * 10 ^ k) = decimal c ++ List.replicate k '0' := by
    rw [decimal, decimalDigits_mul_ten_pow hc, List.map_append, List.map_replicate]
    rfl
  have hlength : (decimal c).length + k ≤ 16 := by
    have hle := length_decimalDigits_le
      (Nat.mul_ne_zero hc (Nat.ne_of_gt (Nat.pow_pos (by omega)))) h
    simpa [decimalDigits_mul_ten_pow hc, decimal] using hle
  have hplace : ((decimal c).length : Int) ≤ (decimal c).length + k ∧
      ((decimal c).length : Int) + k ≤ 16 := by omega
  have hzeros : (((decimal c).length : Int) + k - (decimal c).length).toNat = k := by omega
  rw [layout, if_pos hplace, hzeros, hdigits]

theorem Json.double_of_isInteger (hx : x.IsInteger n) (hn : n < 2 ^ 53) :
    double x = (if x.isNegative then ['-'] else []) ++ decimal n ++ ['.', '0'] := by
  have hfinite := hx.isFinite hn
  have hzero := hx.magnitude_eq_zero_iff
  by_cases hne : n = 0
  · have hdecimal : decimal 0 = ['0'] := by decide
    simp [double, hfinite, hzero.2 hne, hne, hdecimal]
  · obtain ⟨c, k, hshortest, hvalue⟩ := hx.exists_shortest_eq hn hne
    have hc : c ≠ 0 := fun hc => hne (by rw [← hvalue, hc, Nat.zero_mul])
    have hlayout := layout_of_mul_ten_pow k hc (by omega)
    rw [hvalue] at hlayout
    simp [double, hfinite, mt hzero.1 hne, hshortest, hlayout]

/-! ## what is read -/

namespace Json.Number

/-- The places of an integer with a point and a zero behind it. -/
theorem scaled_point_zero (negative : Bool) (h : n * 10 < UInt64.size) :
    scaled ⟨negative, decimalDigits n, [0], none⟩ = ⟨n * 10, -1⟩ := by
  have hvalue := appendDigits_decimalDigits n
  have hroom : hasRoom n 0 = true := decide_eq_true h
  rw [scaled, takeWhole_of_lt (by rw [hvalue]; omega), hvalue]
  simp [takeFraction, hroom]

theorem ofText?_point_zero (negative : Bool) (hn : n < 2 ^ 53) (h : 10 * n < 2 ^ 53) :
    ofText? ⟨negative, decimalDigits n, [0], none⟩ =
      some (.float (signed negative (Binary64.ofNat n))) := by
  have hscaled := scaled_point_zero (n := n) negative (by
    have hsize : UInt64.size = 0x10000000000000000 := rfl
    omega)
  have hquotient : (Binary64.ofNat (n * 10)).div (tenTo 1) = Binary64.ofNat n := by
    rw [Nat.mul_comm]
    exact Binary64.div_ofNat_mul (k := 10) (by omega) (by omega) h
  have hscale : scale 4 (Binary64.ofNat (n * 10)) (-1) = some (Binary64.ofNat n) := by
    rw [← hquotient]
    rfl
  simp [ofText?, hscaled, float?, hscale]

end Json.Number

theorem Binary64.IsInteger.signed_ofNat (hx : x.IsInteger n) (hn : n < 2 ^ 53) :
    Number.signed x.isNegative (ofNat n) = x := by
  have hself := ofBits_self x
  rw [hx.ofNat_eq hn]
  cases hsign : x.isNegative with
  | true =>
      rw [hsign] at hself
      exact (neg_ofBits false x.magnitude_lt).trans hself
  | false => rwa [hsign] at hself

/-! ## the round trip -/

theorem Json.Value.ReadsBack.float (levels : Nat) (hx : x.IsInteger n) (h : 10 * n < 2 ^ 53) :
    (Value.float x).ReadsBack levels := by
  have hn : n < 2 ^ 53 := by omega
  have hlexeme := lexeme_point x.isNegative n (List.cons_ne_nil 0 []) (by simp)
  have hchars : (Value.float x).chars = (if x.isNegative then ['-'] else []) ++ decimal n ++
      '.' :: [0].map Nat.digitChar := by
    rw [Value.chars, double_of_isInteger hx hn]
    rfl
  rw [← hchars] at hlexeme
  refine ⟨_, .of_lexeme hlexeme fun _ => rfl, ?_⟩
  simp [Tree.valueWithin?, Number.ofText?_point_zero _ hn h, hx.signed_ofNat hn, Value.ofNumber]

end MeshLight
