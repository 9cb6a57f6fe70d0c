import MeshLight.Text

/-!
# MeshLight.Varint

Numbers in little-endian groups of seven bits, one group a byte, whose top bit says that another
follows. A number of `bits` bits takes at most as many bytes as it has groups.
-/

namespace MeshLight.Varint

/-- The most bytes that a number of the given width takes. -/
def maxBytes (bits : Nat) : Nat := (bits + 6) / 7

/-- A number in at most `places` bytes. -/
def encodeWithin : (places n : Nat) → Bytes
  | 0, _ => []
  | places + 1, n =>
    if n < 128 then [UInt8.ofNat n]
    else UInt8.ofNat (n % 128 + 128) :: encodeWithin places (n / 128)

/-- A number of the given width. -/
def encode (bits n : Nat) : Bytes := encodeWithin (maxBytes bits) n

theorem length_encodeWithin_le (places n : Nat) : (encodeWithin places n).length ≤ places := by
  induction places generalizing n with
  | zero => exact Nat.le_refl 0
  | succ places ih =>
    unfold encodeWithin
    split
    · simp
    · simpa using ih (n / 128)

theorem length_encode_le (bits n : Nat) : (encode bits n).length ≤ maxBytes bits :=
  length_encodeWithin_le _ _

/-- Reads a number of at most `places` bytes and leaves the bytes after it. -/
def decodeWithin? : (places : Nat) → Bytes → Option (Nat × Bytes)
  | 0, _ => none
  | _, [] => none
  | places + 1, b :: rest =>
    if b < 128 then some (b.toNat, rest)
    else do
      let (high, rest) ← decodeWithin? places rest
      some (b.toNat - 128 + 128 * high, rest)

/-- Reads a number that fits the given width. -/
def decode? (bits : Nat) (bytes : Bytes) : Option (Nat × Bytes) := do
  let (n, rest) ← decodeWithin? (maxBytes bits) bytes
  if n < 1 <<< bits then some (n, rest) else none

theorem decodeWithin?_encodeWithin {places n : Nat} (rest : Bytes) (hp : 0 < places)
    (h : n < 1 <<< (7 * places)) :
    decodeWithin? places (encodeWithin places n ++ rest) = some (n, rest) := by
  induction places generalizing n with
  | zero => omega
  | succ places ih =>
    unfold encodeWithin
    split
    · next hn =>
      have ht : (UInt8.ofNat n).toNat = n := by
        simp only [UInt8.toNat_ofNat']
        omega
      have hb : UInt8.ofNat n < 128 := by
        rw [UInt8.lt_iff_toNat_lt, ht]
        exact hn
      simp only [List.singleton_append, decodeWithin?, if_pos hb, ht]
    · next hn =>
      have hq : n / 128 < 1 <<< (7 * places) := by
        rw [Nat.div_lt_iff_lt_mul (by decide)]
        rwa [Nat.mul_succ, Nat.shiftLeft_add, Nat.shiftLeft_eq _ 7] at h
      have hp' : 0 < places := by
        rcases places with _ | places
        · simp at hq
          omega
        · omega
      have ht : (UInt8.ofNat (n % 128 + 128)).toNat = n % 128 + 128 := by
        simp only [UInt8.toNat_ofNat']
        omega
      have hb : ¬ UInt8.ofNat (n % 128 + 128) < 128 := by
        rw [UInt8.lt_iff_toNat_lt, ht]
        simp
      simp only [List.cons_append, decodeWithin?, if_neg hb, ih hp' hq, ht, Option.bind_eq_bind,
        Option.bind_some, Option.some.injEq, Prod.mk.injEq, and_true]
      omega

/-- A number that fits its width reads back, whatever follows it. -/
theorem decode?_encode {bits n : Nat} (rest : Bytes) (hb : 0 < bits) (h : n < 1 <<< bits) :
    decode? bits (encode bits n ++ rest) = some (n, rest) := by
  have hm : n < 1 <<< (7 * maxBytes bits) := by
    refine Nat.lt_of_lt_of_le h ?_
    rw [Nat.one_shiftLeft, Nat.one_shiftLeft]
    refine Nat.pow_le_pow_right (by decide) ?_
    unfold maxBytes
    omega
  have hp : 0 < maxBytes bits := by
    unfold maxBytes
    omega
  simp [decode?, encode, decodeWithin?_encodeWithin rest hp hm, h]

end MeshLight.Varint
