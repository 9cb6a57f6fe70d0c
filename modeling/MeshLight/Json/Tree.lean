import MeshLight.Json.Token

/-!
# MeshLight.Json.Tree

A text as the tree of what was written, built from its tokens by a machine that keeps the arrays
and objects that are still open on a stack.
-/

namespace MeshLight.Json

/-- A value as written. -/
inductive Tree where
  | null
  | bool (b : Bool)
  | number (n : NumberText)
  | string (units : List StringUnit)
  | array (items : List Tree)
  | object (members : List (List StringUnit × Tree))

/-- An array or an object that is still open, with what it holds so far in reverse; an object
also with the key whose value comes next. -/
inductive Frame where
  | array (items : List Tree)
  | object (members : List (List StringUnit × Tree)) (key : List StringUnit)

/-- What has to come next, within the given open frames. The flag says that nothing has come yet,
so that an array or object may also be closed. -/
inductive Builder where
  | value (stack : List Frame) (first : Bool)
  | key (stack : List Frame) (members : List (List StringUnit × Tree)) (first : Bool)
  | colon (stack : List Frame) (members : List (List StringUnit × Tree)) (key : List StringUnit)
  | after (stack : List Frame) (tree : Tree)

namespace Builder

/-- Reads the start of a value. -/
def openValue (stack : List Frame) : Token → Option Builder
  | .null => some (.after stack .null)
  | .bool b => some (.after stack (.bool b))
  | .number n => some (.after stack (.number n))
  | .string units => some (.after stack (.string units))
  | .openArray => some (.value (.array [] :: stack) true)
  | .openObject => some (.key stack [] true)
  | _ => none

/-- Reads one token. -/
def step : Builder → Token → Option Builder
  | .value stack first, t =>
    match first, t, stack with
    | true, .closeArray, .array items :: stack => some (.after stack (.array items.reverse))
    | _, t, stack => openValue stack t
  | .key stack members first, t =>
    match first, t with
    | _, .string k => some (.colon stack members k)
    | true, .closeObject => some (.after stack (.object members.reverse))
    | _, _ => none
  | .colon stack members k, t =>
    match t with
    | .colon => some (.value (.object members k :: stack) false)
    | _ => none
  | .after stack tree, t =>
    match stack, t with
    | .array items :: stack, .comma => some (.value (.array (tree :: items) :: stack) false)
    | .array items :: stack, .closeArray => some (.after stack (.array (tree :: items).reverse))
    | .object members k :: stack, .comma => some (.key stack ((k, tree) :: members) false)
    | .object members k :: stack, .closeObject =>
      some (.after stack (.object ((k, tree) :: members).reverse))
    | _, _ => none

/-- Reads tokens to their end, where one value has to be complete and nothing open. -/
def run : Builder → List Token → Option Tree
  | .after [] tree, [] => some tree
  | _, [] => none
  | b, t :: ts => do run (← b.step t) ts

end Builder

/-- The tree of a text, if it is one JSON value with blanks around it at most. -/
def Tree.ofText? (s : String) : Option Tree := do
  Builder.run (.value [] false) (← tokens? s.toList)

end MeshLight.Json
