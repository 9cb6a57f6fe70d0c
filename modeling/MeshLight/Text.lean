/-!
# MeshLight.Text

Bytes and the text they stand for: UTF-8 both ways, hexadecimal both ways, decimal digits, and
texts with a bound on their length in bytes.
-/

namespace MeshLight

/-- Bytes as they travel or are stored. -/
abbrev Bytes := List UInt8

/-! ## UTF-8 -/

/-- The UTF-8 bytes of a text. -/
def utf8 (s : String) : Bytes := s.toByteArray.data.toList

/-- The text that the bytes spell, if they are well-formed UTF-8. -/
def ofUtf8? (bytes : Bytes) : Option String := String.fromUTF8? ⟨bytes.toArray⟩

theorem ofUtf8?_utf8 (s : String) : ofUtf8? (utf8 s) = some s := by
  have h : (⟨(utf8 s).toArray⟩ : ByteArray) = s.toByteArray := by simp [utf8]
  simp only [ofUtf8?, h, String.fromUTF8?, s.isValidUTF8, dite_true]
  rfl

@[simp] theorem length_utf8 (s : String) : (utf8 s).length = s.utf8ByteSize := by
  simp only [utf8, Array.length_toList]
  exact s.size_toByteArray

theorem utf8_append (s t : String) : utf8 (s ++ t) = utf8 s ++ utf8 t := by
  simp [utf8, ByteArray.data_append]

/-! ## hexadecimal -/

/-- A byte as two lowercase hexadecimal digits. -/
def hexByte (b : UInt8) : List Char :=
  [Nat.digitChar (b.toNat / 16), Nat.digitChar (b.toNat % 16)]

/-- Bytes as lowercase hexadecimal text, two digits a byte. -/
def hex (bytes : Bytes) : String := String.ofList (bytes.flatMap hexByte)

/-- The value of a hexadecimal digit of either case. -/
def hexValue? (c : Char) : Option Nat :=
  if '0' ≤ c ∧ c ≤ '9' then some (c.toNat - '0'.toNat)
  else if 'a' ≤ c ∧ c ≤ 'f' then some (c.toNat - 'a'.toNat + 10)
  else if 'A' ≤ c ∧ c ≤ 'F' then some (c.toNat - 'A'.toNat + 10)
  else none

/-- The bytes that pairs of hexadecimal digits spell. -/
def ofHexDigits? : List Char → Option Bytes
  | [] => some []
  | [_] => none
  | h :: l :: rest => do
    let high ← hexValue? h
    let low ← hexValue? l
    let bytes ← ofHexDigits? rest
    some (UInt8.ofNat (16 * high + low) :: bytes)

def ofHex? (s : String) : Option Bytes := ofHexDigits? s.toList

theorem hexValue?_digitChar {d : Nat} (h : d < 16) : hexValue? (Nat.digitChar d) = some d := by
  have hall : ∀ d : Fin 16, hexValue? (Nat.digitChar d.val) = some d.val := by decide
  exact hall ⟨d, h⟩

theorem ofHexDigits?_flatMap (bytes : Bytes) :
    ofHexDigits? (bytes.flatMap hexByte) = some bytes := by
  induction bytes with
  | nil => rfl
  | cons b bytes ih =>
    have hb : b.toNat < 256 := b.toNat_lt
    have hhigh : hexValue? (Nat.digitChar (b.toNat / 16)) = some (b.toNat / 16) :=
      hexValue?_digitChar (by omega)
    have hlow : hexValue? (Nat.digitChar (b.toNat % 16)) = some (b.toNat % 16) :=
      hexValue?_digitChar (by omega)
    simp only [List.flatMap_cons, hexByte, List.cons_append, List.nil_append, ofHexDigits?, hhigh,
      hlow, ih, Option.bind_eq_bind, Option.bind_some, Nat.div_add_mod, UInt8.ofNat_toNat]

theorem ofHex?_hex (bytes : Bytes) : ofHex? (hex bytes) = some bytes := by
  rw [ofHex?, hex, String.toList_ofList, ofHexDigits?_flatMap]

/-! ## decimal digits -/

/-- The value of a decimal digit. -/
def digitValue? (c : Char) : Option Nat :=
  if '0' ≤ c ∧ c ≤ '9' then some (c.toNat - '0'.toNat) else none

/-- Puts the decimal digits of `n`, of which there are at most `places`, in front of `tail`. -/
def prependDigits : (places n : Nat) → (tail : List Nat) → List Nat
  | 0, _, tail => tail
  | places + 1, n, tail =>
    if n < 10 then n :: tail else prependDigits places (n / 10) (n % 10 :: tail)

/-- The decimal digits of a number, most significant first, without leading zeros. -/
def decimalDigits (n : Nat) : List Nat := prependDigits (n.log2 + 1) n []

/-- A number in decimal notation. -/
def decimal (n : Nat) : List Char := (decimalDigits n).map Nat.digitChar

/-- An integer in decimal notation, with a minus sign if it is negative. -/
def decimalInt : Int → List Char
  | .ofNat n => decimal n
  | .negSucc n => '-' :: decimal (n + 1)

/-! ## texts of bounded length -/

/-- A text of at most `capacity` bytes in UTF-8. -/
structure ShortText (capacity : Nat) where
  text : String
  size_le : text.utf8ByteSize ≤ capacity
  deriving DecidableEq

/-- The text itself, if it fits. -/
def ShortText.ofString? (capacity : Nat) (s : String) : Option (ShortText capacity) :=
  if h : s.utf8ByteSize ≤ capacity then some ⟨s, h⟩ else none

/-- The longest initial segment of the characters that takes at most `room` bytes. -/
def fitting : (room : Nat) → List Char → List Char
  | _, [] => []
  | room, c :: cs => if c.utf8Size ≤ room then c :: fitting (room - c.utf8Size) cs else []

theorem fitting_isPrefix (room : Nat) (cs : List Char) : fitting room cs <+: cs := by
  induction cs generalizing room with
  | nil => exact List.nil_prefix
  | cons c cs ih =>
    unfold fitting
    split
    · exact (List.prefix_cons_inj c).2 (ih _)
    · exact List.nil_prefix

theorem size_fitting_le (room : Nat) (cs : List Char) :
    (String.ofList (fitting room cs)).utf8ByteSize ≤ room := by
  induction cs generalizing room with
  | nil => exact Nat.zero_le _
  | cons c cs ih =>
    unfold fitting
    split
    · have := ih (room - c.utf8Size)
      rw [String.ofList_cons, String.utf8ByteSize_append, String.utf8ByteSize_singleton]
      omega
    · exact Nat.zero_le _

/-- `s` followed by all of `more` if both take at most `capacity` bytes, otherwise `s` alone. -/
def appendFitting (capacity : Nat) (s more : String) : String :=
  if s.utf8ByteSize + more.utf8ByteSize ≤ capacity then s ++ more else s

theorem size_appendFitting_le (capacity : Nat) (s more : String) (h : s.utf8ByteSize ≤ capacity) :
    (appendFitting capacity s more).utf8ByteSize ≤ capacity := by
  unfold appendFitting
  split
  · rwa [String.utf8ByteSize_append]
  · exact h

end MeshLight
