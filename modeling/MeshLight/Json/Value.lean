import MeshLight.Json.Number
import MeshLight.Json.Tree

/-!
# MeshLight.Json.Value

JSON values and what a tree as written stands for. Escaped code units have to pair up into
characters, numbers have to be finite, and arrays and objects may be nested 127 deep. The members of
a value that was read are ordered by key; of several with one key the last counts.
-/

namespace MeshLight.Json

inductive Value where
  | null
  | bool (b : Bool)
  | int (i : Int)
  | float (x : Binary64)
  | string (s : String)
  | array (items : List Value)
  | object (members : List (String × Value))

/-! ## members -/

/-- The members of an object. -/
abbrev Members := List (String × Value)

namespace Members

/-- Adds a member in its place in the order of keys, replacing one with the same key. -/
def put (key : String) (value : Value) : Members → Members
  | [] => [(key, value)]
  | (k, v) :: rest =>
    if key = k then (key, value) :: rest
    else if key < k then (key, value) :: (k, v) :: rest
    else (k, v) :: put key value rest

/-- The value of the member with the given key. -/
def get? (key : String) (members : Members) : Option Value := members.lookup key

/-- The members with any other key. -/
def without (key : String) (members : Members) : Members := members.filter (·.1 ≠ key)

/-- The members in the order of their keys, the last of each key. -/
def ofList (members : List (String × Value)) : Members :=
  members.foldl (fun ordered (key, value) => put key value ordered) []

/-- Leaving out one key after another leaves out both. -/
theorem without_without (k key : String) (members : Members) :
    without k (without key members) = members.filter fun m => m.1 ≠ key ∧ m.1 ≠ k := by
  rw [without, without, List.filter_filter]
  exact List.filter_congr fun m _ => by simp [and_comm]

theorem get?_cons (k key : String) (value : Value) (members : Members) :
    get? k ((key, value) :: members) = if k = key then some value else get? k members := by
  by_cases h : k = key
  · simp [get?, h]
  · simp [get?, List.lookup_cons, h, beq_eq_false_iff_ne.2]

/-- What stands under a key once a member was put there is that member. -/
theorem get?_put (key k : String) (value : Value) (members : Members) :
    get? k (put key value members) = if k = key then some value else get? k members := by
  induction members with
  | nil => exact get?_cons ..
  | cons m rest ih =>
    obtain ⟨k', v⟩ := m
    unfold put
    split
    · grind [get?_cons]
    · split <;> grind [get?_cons]

end Members

/-! ## strings -/

/-- The character that a pair of surrogate code units stands for. -/
def surrogatePair (high low : Nat) : Char :=
  Char.ofNat (0x10000 + (high - 0xD800) * 0x400 + (low - 0xDC00))

/-- The characters of a string, unless a surrogate code unit stands alone. -/
def characters? : List StringUnit → Option (List Char)
  | [] => some []
  | .char c :: rest => (characters? rest).map (c :: ·)
  | .codeUnit u :: rest =>
    if u < 0xD800 ∨ 0xE000 ≤ u then (characters? rest).map (Char.ofNat u :: ·)
    else
      match rest with
      | .codeUnit low :: rest =>
        if u < 0xDC00 ∧ 0xDC00 ≤ low ∧ low < 0xE000 then
          (characters? rest).map (surrogatePair u low :: ·)
        else none
      | _ => none

/-- The text of a string as written. -/
def text? (units : List StringUnit) : Option String := (characters? units).map String.ofList

/-! ## values -/

/-- How deep arrays and objects may be nested. -/
def depthLimit : Nat := 127

def Value.ofNumber : Number → Value
  | .int i => .int i
  | .float x => .float x

mutual

/-- The value a tree stands for, with the given number of levels left for arrays and objects. -/
def Tree.valueWithin? (levels : Nat) : Tree → Option Value
  | .null => some .null
  | .bool b => some (.bool b)
  | .number n => (Number.ofText? n).map Value.ofNumber
  | .string units => (text? units).map .string
  | .array items => if levels = 0 then none else (itemsWithin? (levels - 1) items).map .array
  | .object members =>
    if levels = 0 then none
    else (membersWithin? (levels - 1) members).map fun ms => .object (Members.ofList ms)

def itemsWithin? (levels : Nat) : List Tree → Option (List Value)
  | [] => some []
  | t :: ts => do
    let v ← t.valueWithin? levels
    let vs ← itemsWithin? levels ts
    some (v :: vs)

def membersWithin? (levels : Nat) : List (List StringUnit × Tree) → Option (List (String × Value))
  | [] => some []
  | (key, t) :: rest => do
    let k ← text? key
    let v ← t.valueWithin? levels
    let ms ← membersWithin? levels rest
    some ((k, v) :: ms)

end

/-- The value a tree stands for. -/
def Tree.value? (t : Tree) : Option Value := t.valueWithin? depthLimit

/-- The value that a text spells. -/
def Value.ofText? (s : String) : Option Value := do (← Tree.ofText? s).value?

/-! ## scalars -/

namespace Value

/-- The integer, if it is one of the 64-bit signed ones. -/
def int64? : Value → Option Int
  | .int i => if i < 0x8000000000000000 then some i else none
  | _ => none

/-- The integer, if it lies below the bound and is not negative. -/
def natBelow? (bound : Nat) : Value → Option Nat
  | .int i => if 0 ≤ i ∧ i < bound then some i.toNat else none
  | _ => none

def uint32? (v : Value) : Option UInt32 := (v.natBelow? UInt32.size).map UInt32.ofNat

def uint16? (v : Value) : Option UInt16 := (v.natBelow? UInt16.size).map UInt16.ofNat

def bool? : Value → Option Bool
  | .bool b => some b
  | _ => none

def string? : Value → Option String
  | .string s => some s
  | _ => none

/-- A text that has to fit. -/
def shortText? (capacity : Nat) (v : Value) : Option (ShortText capacity) := do
  ShortText.ofString? capacity (← v.string?)

/-- A double, or the one nearest to an integer. -/
def binary64? : Value → Option Binary64
  | .float x => some x
  | .int i => some (Binary64.ofInt i)
  | _ => none

/-- Whether the value is `null`. -/
def isNull : Value → Bool
  | .null => true
  | _ => false

end Value

end MeshLight.Json
