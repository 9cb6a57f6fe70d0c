import MeshLight.Text

/-!
# MeshLight.Json.Token

The tokens of RFC 8259 and the reader that cuts a text into them. Numbers and strings keep what
was written: a number its digits, a string its escaped code units. What they mean is decided later,
because a member that nobody asks for only has to be written correctly.
-/

namespace MeshLight.Json

/-- A character of a string, or one that was written as a 16-bit code unit. -/
inductive StringUnit where
  | char (c : Char)
  | codeUnit (u : Nat)
  deriving DecidableEq

/-- The exponent of a number as written. -/
structure ExponentText where
  negative : Bool
  digits : List Nat
  deriving DecidableEq

/-- A number as written. Without a decimal point there are no fraction digits. -/
structure NumberText where
  negative : Bool
  whole : List Nat
  fraction : List Nat
  exponent : Option ExponentText
  deriving DecidableEq

inductive Token where
  | openArray
  | closeArray
  | openObject
  | closeObject
  | comma
  | colon
  | null
  | bool (b : Bool)
  | number (n : NumberText)
  | string (units : List StringUnit)
  deriving DecidableEq

/-- Where the reader stands within a token. Units and digits that are still being collected are
held in reverse. -/
inductive Lexer where
  | between
  | word (left : List Char) (token : Token)
  | string (units : List StringUnit)
  | escape (units : List StringUnit)
  | hex (units : List StringUnit) (left unit : Nat)
  | sign
  | whole (negative : Bool) (digits : List Nat)
  | point (n : NumberText)
  | fraction (n : NumberText) (digits : List Nat)
  | exponentMark (n : NumberText)
  | exponentSign (n : NumberText) (negative : Bool)
  | exponent (n : NumberText) (negative : Bool) (digits : List Nat)
  deriving DecidableEq

namespace Lexer

/-- Space, tab, line feed and carriage return. -/
def isBlank (c : Char) : Bool := c = ' ' || c = '\t' || c = '\n' || c = '\r'

/-! ## the start of a token -/

/-- The reader after a character that stands between two tokens or begins one. -/
def start (c : Char) : Option (List Token × Lexer) :=
  if isBlank c then some ([], .between)
  else
    match c with
    | '[' => some ([.openArray], .between)
    | ']' => some ([.closeArray], .between)
    | '\x7b' => some ([.openObject], .between)
    | '\x7d' => some ([.closeObject], .between)
    | ',' => some ([.comma], .between)
    | ':' => some ([.colon], .between)
    | '"' => some ([], .string [])
    | 'n' => some ([], .word ['u', 'l', 'l'] .null)
    | 't' => some ([], .word ['r', 'u', 'e'] (.bool true))
    | 'f' => some ([], .word ['a', 'l', 's', 'e'] (.bool false))
    | '-' => some ([], .sign)
    | _ => (digitValue? c).map fun d => ([], .whole false [d])

/-- The reader after a character that ends the number before it. -/
def endNumber (n : NumberText) (c : Char) : Option (List Token × Lexer) :=
  (start c).map fun (tokens, next) => (.number n :: tokens, next)

/-! ## inside a token -/

/-- The character that a single letter after a backslash stands for. -/
def escaped? : Char → Option Char
  | '"' => some '"'
  | '\\' => some '\\'
  | '/' => some '/'
  | 'b' => some '\x08'
  | 'f' => some '\x0c'
  | 'n' => some '\n'
  | 'r' => some '\r'
  | 't' => some '\t'
  | _ => none

/-- The reader inside a string, where control characters have to be escaped. -/
def inString (units : List StringUnit) (c : Char) : Option (List Token × Lexer) :=
  if c = '"' then some ([.string units.reverse], .between)
  else if c = '\\' then some ([], .escape units)
  else if c.toNat < 0x20 then none
  else some ([], .string (.char c :: units))

/-- The reader in the digits before the point, the first of which is zero only if it is alone. -/
def inWhole (negative : Bool) (digits : List Nat) (c : Char) : Option (List Token × Lexer) :=
  let n : NumberText := ⟨negative, digits.reverse, [], none⟩
  match digitValue? c with
  | some d => if digits = [0] then none else some ([], .whole negative (d :: digits))
  | none =>
    if c = '.' then some ([], .point n)
    else if c = 'e' ∨ c = 'E' then some ([], .exponentMark n)
    else endNumber n c

/-- The reader in the digits after the point. -/
def inFraction (n : NumberText) (digits : List Nat) (c : Char) : Option (List Token × Lexer) :=
  let n' : NumberText := { n with fraction := digits.reverse }
  match digitValue? c with
  | some d => some ([], .fraction n (d :: digits))
  | none =>
    if c = 'e' ∨ c = 'E' then some ([], .exponentMark n')
    else endNumber n' c

/-- The reader just after the letter that begins an exponent. -/
def afterExponentMark (n : NumberText) (c : Char) : Option (List Token × Lexer) :=
  if c = '+' then some ([], .exponentSign n false)
  else if c = '-' then some ([], .exponentSign n true)
  else (digitValue? c).map fun d => ([], .exponent n false [d])

/-- The reader in the digits of an exponent. -/
def inExponent (n : NumberText) (negative : Bool) (digits : List Nat) (c : Char) :
    Option (List Token × Lexer) :=
  match digitValue? c with
  | some d => some ([], .exponent n negative (d :: digits))
  | none => endNumber { n with exponent := some ⟨negative, digits.reverse⟩ } c

/-- Reads one character: the tokens it completes and where the reader stands then, or nothing if
no text goes on like this. -/
def step : Lexer → Char → Option (List Token × Lexer)
  | .between, c => start c
  | .word [] _, _ => none
  | .word [l] t, c => if c = l then some ([t], .between) else none
  | .word (l :: left) t, c => if c = l then some ([], .word left t) else none
  | .string units, c => inString units c
  | .escape units, c =>
    if c = 'u' then some ([], .hex units 4 0)
    else (escaped? c).map fun e => ([], .string (.char e :: units))
  | .hex units left unit, c =>
    (hexValue? c).map fun d =>
      let unit := 16 * unit + d
      if left = 1 then ([], .string (.codeUnit unit :: units)) else ([], .hex units (left - 1) unit)
  | .sign, c => (digitValue? c).map fun d => ([], .whole true [d])
  | .whole negative digits, c => inWhole negative digits c
  | .point n, c => (digitValue? c).map fun d => ([], .fraction n [d])
  | .fraction n digits, c => inFraction n digits c
  | .exponentMark n, c => afterExponentMark n c
  | .exponentSign n negative, c => (digitValue? c).map fun d => ([], .exponent n negative [d])
  | .exponent n negative digits, c => inExponent n negative digits c

/-- The token that the end of the text completes, or nothing if the text ends inside one. -/
def finish : Lexer → Option (List Token)
  | .between => some []
  | .whole negative digits => some [.number ⟨negative, digits.reverse, [], none⟩]
  | .fraction n digits => some [.number { n with fraction := digits.reverse }]
  | .exponent n negative digits =>
    some [.number { n with exponent := some ⟨negative, digits.reverse⟩ }]
  | _ => none

/-- The tokens that the rest of a text completes. -/
def run : Lexer → List Char → Option (List Token)
  | l, [] => l.finish
  | l, c :: cs => do
    let (tokens, next) ← l.step c
    let rest ← run next cs
    some (tokens ++ rest)

end Lexer

/-- The tokens of a text. -/
def tokens? (cs : List Char) : Option (List Token) := Lexer.run .between cs

end MeshLight.Json
