import MeshLight.Address
import MeshLight.Json.Value

/-!
# MeshLight.Script.Fields

Reading the plain parts of a script: members, numbers, bytes in hexadecimal, and doubles as their
bits in hexadecimal; and writing them.
-/

namespace MeshLight.Script

open MeshLight.Json

/-! ## members -/

/-- The member with the given name. -/
def get? (name : String) : Value → Option Value
  | .object ms => Members.get? name ms
  | _ => none

/-- The items of an array. -/
def items? : Value → Option (List Value)
  | .array vs => some vs
  | _ => none

/-- Reads a member that has to be there. -/
def member? (name : String) (read : Value → Option α) (v : Value) : Option α := do
  read (← get? name v)

/-- Reads a member that stands for `default` if it is missing. -/
def memberOr? (name : String) (default : α) (read : Value → Option α) (v : Value) : Option α :=
  match get? name v with
  | none => some default
  | some m => read m

/-- Reads `null` as nothing. -/
def nullable? (read : Value → Option α) (v : Value) : Option (Option α) :=
  if v.isNull then some none else (read v).map some

/-- Writes nothing as `null`. -/
def orNull (write : α → Value) : Option α → Value
  | none => .null
  | some a => write a

/-! ## numbers -/

def int? : Value → Option Int
  | .int i => some i
  | _ => none

def nat? : Value → Option Nat
  | .int (.ofNat n) => some n
  | _ => none

def u32? (v : Value) : Option UInt32 := (nat? v).map UInt32.ofNat

def u16? (v : Value) : Option UInt16 := (nat? v).map UInt16.ofNat

def u8? (v : Value) : Option UInt8 := (nat? v).map UInt8.ofNat

def nat (n : Nat) : Value := .int n

/-! ## bytes -/

def hex? (v : Value) : Option Bytes := do ofHex? (← v.string?)

def hexValue (b : Bytes) : Value := .string (hex b)

/-- The text that bytes spell. -/
def spelled (b : Bytes) : Value := .string ((ofUtf8? b).getD "")

def octets? (n : Nat) (v : Value) : Option (Octets n) := do Octets.ofBytes? n (← hex? v)

/-- An address is read as its octets and written as its text. -/
def address? (v : Value) : Option Address := octets? 16 v

def address (a : Address) : Value := .string a.text

/-- The double with the given bits. -/
def bits? (v : Value) : Option Binary64 := do
  let bytes ← hex? v
  some ⟨UInt64.ofNat (bytes.foldl (fun n b => 256 * n + b.toNat) 0)⟩

/-- The bits of a double. All that are not numbers are written alike. -/
def bits (x : Binary64) : Value :=
  let n := if x.isNaN then 0x7ff8000000000000 else x.bits.toNat
  hexValue ((List.range 8).map fun i => UInt8.ofNat (n >>> (8 * (7 - i))))

end MeshLight.Script
