import MeshLight.Binary64.Shortest
import MeshLight.Json.Value

/-!
# MeshLight.Json.Printer

Values as text without blanks, members in the order they are held. Strings escape quote, backslash
and control characters only. A double is the shortest decimal that reads back, always with a point
or an exponent: positional while the leading digit stands at most sixteen places before the point
or five after it. Doubles that are not finite have no notation and become `null`.
-/

namespace MeshLight.Json

/-! ## strings -/

/-- A character inside a string. -/
def escape (c : Char) : List Char :=
  if c = '"' then ['\\', '"']
  else if c = '\\' then ['\\', '\\']
  else if c = '\x08' then ['\\', 'b']
  else if c = '\t' then ['\\', 't']
  else if c = '\n' then ['\\', 'n']
  else if c = '\x0c' then ['\\', 'f']
  else if c = '\r' then ['\\', 'r']
  else if c.toNat < 0x20 then '\\' :: 'u' :: '0' :: '0' :: hexByte (UInt8.ofNat c.toNat)
  else [c]

/-- A string with its quotes. -/
def quoted (s : String) : List Char := '"' :: (s.toList.flatMap escape ++ ['"'])

/-! ## doubles -/

/-- Decimal digits laid out around the point, given the place `point` of the point counted from
the first digit. -/
def layout (digits : List Char) (point : Int) : List Char :=
  let count : Int := digits.length
  if count ≤ point ∧ point ≤ 16 then
    digits ++ List.replicate (point - count).toNat '0' ++ ['.', '0']
  else if 0 < point ∧ point ≤ 16 then
    digits.take point.toNat ++ '.' :: digits.drop point.toNat
  else if -5 < point ∧ point ≤ 0 then
    '0' :: '.' :: (List.replicate (-point).toNat '0' ++ digits)
  else
    let fraction := if digits.length ≤ 1 then [] else '.' :: digits.drop 1
    let exponent := point - 1
    digits.take 1 ++ fraction ++ ['e', if exponent < 0 then '-' else '+'] ++ decimal exponent.natAbs

/-- A double in JSON notation. -/
def double (x : Binary64) : List Char :=
  if !x.isFinite then ['n', 'u', 'l', 'l']
  else
    let sign := if x.isNegative then ['-'] else []
    if x.magnitude = 0 then sign ++ ['0', '.', '0']
    else
      let d := x.shortest
      let digits := decimal d.digits
      sign ++ layout digits (digits.length + d.scale)

/-! ## values -/

mutual

def Value.chars : Value → List Char
  | .null => ['n', 'u', 'l', 'l']
  | .bool true => ['t', 'r', 'u', 'e']
  | .bool false => ['f', 'a', 'l', 's', 'e']
  | .int i => decimalInt i
  | .float x => double x
  | .string s => quoted s
  | .array [] => ['[', ']']
  | .array (v :: vs) => '[' :: (v.chars ++ moreItems vs)
  | .object [] => ['\x7b', '\x7d']
  | .object ((key, v) :: rest) => '\x7b' :: (quoted key ++ ':' :: (v.chars ++ moreMembers rest))

/-- The items after the first, with the bracket that closes the array. -/
def moreItems : List Value → List Char
  | [] => [']']
  | v :: vs => ',' :: (v.chars ++ moreItems vs)

/-- The members after the first, with the brace that closes the object. -/
def moreMembers : List (String × Value) → List Char
  | [] => ['\x7d']
  | (key, v) :: rest => ',' :: (quoted key ++ ':' :: (v.chars ++ moreMembers rest))

end

/-- A value as text. -/
def Value.text (v : Value) : String := String.ofList v.chars

end MeshLight.Json
