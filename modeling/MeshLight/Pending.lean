/-!
# MeshLight.Pending

Requests that wait for an answer, each under a token of its own. They wait in a queue that can be
reached at its two ends only: a new request goes to the back, when there is no room for it the
oldest is dropped from the front, and to take one out the queue is turned round once.
-/

namespace MeshLight

/-- The token that comes next, and what waits under which token, oldest first. -/
structure Pending (capacity : Nat) (α : Type) where
  next : UInt32
  entries : List (UInt32 × α)

namespace Pending

def empty : Pending capacity α := ⟨1, []⟩

/-! ## inserting -/

/-- The token after the given one. Zero is not used. -/
def following (token : UInt32) : UInt32 := if token + 1 = 0 then 1 else token + 1

theorem following_ne_zero (token : UInt32) : following token ≠ 0 := by
  unfold following
  split
  · decide
  · assumption

/-- Lets an item wait under the next token, dropping the oldest if there is no room. -/
def insert (item : α) (p : Pending capacity α) : UInt32 × Pending capacity α :=
  let kept := if capacity ≤ p.entries.length then p.entries.drop 1 else p.entries
  (p.next, ⟨following p.next, kept ++ [(p.next, item)]⟩)

/-- An insertion leaves no more than fit. -/
theorem length_insert_le (item : α) (p : Pending capacity α) (hc : 1 ≤ capacity)
    (h : p.entries.length ≤ capacity) : (p.insert item).2.entries.length ≤ capacity := by
  simp only [insert, List.length_append, List.length_singleton]
  split
  · simp only [List.length_drop]
    omega
  · omega

/-! ## taking out -/

/-- Moves entries from the front to the back, so many as given, except that the first one under the
token stays out. -/
def turn (token : UInt32) : (entries : Nat) → Option α → List (UInt32 × α) →
    Option α × List (UInt32 × α)
  | 0, found, queue => (found, queue)
  | _, found, [] => (found, [])
  | left + 1, found, e :: queue =>
    if e.1 = token ∧ found.isNone then turn token left (some e.2) queue
    else turn token left found (queue ++ [e])

theorem turn_some (token : UInt32) (item : α) (front back : List (UInt32 × α)) :
    turn token front.length (some item) (front ++ back) = (some item, back ++ front) := by
  induction front generalizing back with
  | nil => simp [turn]
  | cons e front ih => simp [turn, ih]

theorem turn_none (token : UInt32) (front back : List (UInt32 × α)) :
    turn token front.length none (front ++ back) =
      (front.lookup token, back ++ front.eraseP (·.1 = token)) := by
  induction front generalizing back with
  | nil => simp [turn]
  | cons e front ih =>
    obtain ⟨waiting, item⟩ := e
    by_cases h : waiting = token
    · simp [turn, h, turn_some]
    · have h' : (token == waiting) = false := beq_false_of_ne (Ne.symm h)
      simp [turn, h, h', ih, List.lookup_cons]

/-- Takes out the first item that waits under a token. -/
def take (token : UInt32) (p : Pending capacity α) : Option α × Pending capacity α :=
  let (found, entries) := turn token p.entries.length none p.entries
  (found, { p with entries := entries })

/-- Once round, the queue is in its old order without the entry that was taken. -/
theorem take_eq (token : UInt32) (p : Pending capacity α) :
    p.take token =
      (p.entries.lookup token, { p with entries := p.entries.eraseP (·.1 = token) }) := by
  have h := turn_none token p.entries []
  rw [List.append_nil, List.nil_append] at h
  simp only [take, h]

end Pending

end MeshLight
