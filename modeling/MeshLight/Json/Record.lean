import MeshLight.Json.Value

/-!
# MeshLight.Json.Record

Reading trees as records with declared fields. An object gives each declared field at most once, in
any order, and may have other members, which only have to be written correctly. An array gives the
fields in declared order, none beyond the last.
-/

namespace MeshLight.Json

/-- The fields that a tree gives, under their names. -/
abbrev Fields := List (String × Tree)

/-- The members of an object under their keys. -/
def named? : List (List StringUnit × Tree) → Option Fields
  | [] => some []
  | (key, t) :: rest => do
    let k ← text? key
    let fields ← named? rest
    some ((k, t) :: fields)

/-- Whether no declared field is given twice. -/
def givenOnce (declared : List String) (fields : Fields) : Bool :=
  declared.all fun name => (fields.filter (·.1 = name)).length ≤ 1

/-- The fields that a tree gives to a record with the declared fields. -/
def Tree.fields? (declared : List String) : Tree → Option Fields
  | .object members => do
    let fields ← named? members
    if givenOnce declared fields then some fields else none
  | .array items => if items.length ≤ declared.length then some (declared.zip items) else none
  | _ => none

namespace Fields

/-- The tree given to a field. -/
def tree? (fields : Fields) (name : String) : Option Tree := fields.lookup name

/-- The value given to a field. -/
def value? (fields : Fields) (name : String) : Option Value := do (← fields.tree? name).value?

end Fields

/-- A name out of a fixed choice: a string, or an object whose only member has that key and the
value `null`. -/
def Tree.choice? : Tree → Option String
  | .string units => text? units
  | .object [(key, .null)] => text? key
  | _ => none

end MeshLight.Json
