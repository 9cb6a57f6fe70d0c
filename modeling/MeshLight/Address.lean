import MeshLight.Text

/-!
# MeshLight.Address

Fixed-length addresses: the eight octets of a hardware address and the sixteen of an IPv6
address, with the canonical text of the latter.
-/

namespace MeshLight

/-- Exactly `n` bytes. -/
structure Octets (n : Nat) where
  bytes : Bytes
  length_eq : bytes.length = n
  deriving DecidableEq

/-- The bytes as `n` octets, if there are that many. -/
def Octets.ofBytes? (n : Nat) (bytes : Bytes) : Option (Octets n) :=
  if h : bytes.length = n then some ⟨bytes, h⟩ else none

/-- An EUI-64 or an extended MAC address. -/
abbrev HardwareAddress := Octets 8

/-- An IPv6 address. -/
abbrev Address := Octets 16

/-- A hardware address as sixteen lowercase hexadecimal digits. -/
def HardwareAddress.text (a : HardwareAddress) : String := hex a.bytes

namespace Address

/-- Pairs of octets as 16-bit groups. -/
def pairUp : Bytes → List Nat
  | high :: low :: rest => (256 * high.toNat + low.toNat) :: pairUp rest
  | _ => []

/-- The eight groups of an address. -/
def groups (a : Address) : List Nat := pairUp a.bytes

theorem length_pairUp (bytes : Bytes) : (pairUp bytes).length = bytes.length / 2 := by
  fun_induction pairUp bytes with
  | case1 high low rest ih =>
    simp only [List.length_cons, ih]
    omega
  | case2 bytes h =>
    match bytes, h with
    | [], _ => simp
    | [_], _ => simp
    | a :: b :: rest, h => exact absurd rfl (h a b rest)

theorem length_groups (a : Address) : a.groups.length = 8 := by
  rw [groups, length_pairUp, a.length_eq]

/-! ## text -/

/-- The length of the run of zero groups at the front. -/
def zeroRun (gs : List Nat) : Nat := (gs.takeWhile (· = 0)).length

/-- Start and length of the longest run of zero groups among those that start at `start` or
later; the first of the longest. -/
def longestZeroRun : (start : Nat) → List Nat → Nat × Nat
  | start, [] => (start, 0)
  | start, g :: gs =>
    let here := zeroRun (g :: gs)
    let later := longestZeroRun (start + 1) gs
    if later.2 ≤ here then (start, here) else later

/-- Groups in lowercase hexadecimal without leading zeros, a colon between two. -/
def joinGroups (gs : List Nat) : List Char :=
  List.intercalate [':'] (gs.map (Nat.toDigits 16))

/-- Dotted decimal notation of the last four octets. -/
def dotted (bytes : Bytes) : List Char :=
  List.intercalate ['.'] (bytes.map fun b => decimal b.toNat)

/-- An IPv4-mapped address ends in dotted decimal. In any other the longest run of at least two
zero groups, the first of several, is written as a double colon. -/
def text (a : Address) : String :=
  String.ofList <|
    if a.bytes.take 12 = [0, 0, 0, 0, 0, 0, 0, 0, 0, 0, 255, 255] then
      "::ffff:".toList ++ dotted (a.bytes.drop 12)
    else
      let (start, length) := longestZeroRun 0 a.groups
      if 2 ≤ length then
        joinGroups (a.groups.take start) ++ [':', ':'] ++
          joinGroups (a.groups.drop (start + length))
      else
        joinGroups a.groups

end Address

end MeshLight
