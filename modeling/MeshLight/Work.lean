import MeshLight.Trigger

/-!
# MeshLight.Work

Side effects that wait until an event has been dealt with. They are done in the order in which they
were asked for; asking again for one that is still waiting changes nothing, except for trigger
notifications, which are all sent.
-/

namespace MeshLight

inductive Work where
  | indicateConnected
  | indicateDisconnected
  | indicateJoining
  | indicateIdle
  | sendProvisioning
  | releasePollBoost
  | beginRegistration
  | reportStatus
  | emitTrigger (event : TriggerEvent)
  | startManagement
  | factoryReset (graceMs : UInt32)
  | reboot (graceMs : UInt32)
  deriving DecidableEq

/-- Whether asking twice is the same as asking once. -/
def Work.merges : Work → Bool
  | .emitTrigger _ => false
  | _ => true

/-- Work that is waiting, oldest first. -/
structure WorkQueue where
  items : List Work
  deriving DecidableEq

namespace WorkQueue

/-- The most work that may wait. -/
def capacity : Nat := 16

def empty : WorkQueue := ⟨[]⟩

/-- Asks for work. Refused if the queue is full, unless the same work is waiting already. -/
def submit (w : Work) (q : WorkQueue) : Bool × WorkQueue :=
  if w.merges && q.items.contains w then (true, q)
  else if q.items.length < capacity then (true, ⟨q.items ++ [w]⟩)
  else (false, q)

/-- No work but a notification waits twice. -/
theorem submit_of_mem {w : Work} {q : WorkQueue} (hm : w.merges = true) (h : w ∈ q.items) :
    q.submit w = (true, q) := by
  simp [submit, hm, h]

theorem length_submit_le (w : Work) (q : WorkQueue) (h : q.items.length ≤ capacity) :
    (q.submit w).2.items.length ≤ capacity := by
  unfold submit
  split
  · exact h
  · split
    · next hl => simpa using Nat.succ_le_of_lt hl
    · exact h

/-- The weights of the waiting work, taken together. -/
def weigh (weight : Work → Nat) (q : WorkQueue) : Nat := q.items.foldr (weight · + ·) 0

theorem weigh_of_items_eq_nil (weight : Work → Nat) {q : WorkQueue} (h : q.items = []) :
    q.weigh weight = 0 := by
  rw [weigh, h, List.foldr_nil]

theorem weigh_of_items_eq_cons (weight : Work → Nat) {q : WorkQueue} {w : Work}
    {rest : List Work} (h : q.items = w :: rest) :
    q.weigh weight = weight w + weigh weight ⟨rest⟩ := by
  rw [weigh, h, List.foldr_cons]
  rfl

theorem weigh_append (weight : Work → Nat) (ws rest : List Work) :
    weigh weight ⟨ws ++ rest⟩ = weigh weight ⟨ws⟩ + weigh weight ⟨rest⟩ := by
  induction ws with
  | nil => exact (Nat.zero_add _).symm
  | cons w ws ih =>
    show weight w + weigh weight ⟨ws ++ rest⟩ = weight w + weigh weight ⟨ws⟩ + _
    rw [ih, Nat.add_assoc]

/-- Asking for work adds at most the weight of that work. -/
theorem weigh_submit_le (weight : Work → Nat) (w : Work) (q : WorkQueue) :
    (q.submit w).2.weigh weight ≤ q.weigh weight + weight w := by
  unfold submit
  split
  · exact Nat.le_add_right _ _
  · split
    · exact Nat.le_of_eq (weigh_append weight q.items [w])
    · exact Nat.le_add_right _ _

/-- Takes the oldest work. -/
def pop? (q : WorkQueue) : Option (Work × WorkQueue) :=
  match q.items with
  | [] => none
  | w :: rest => some (w, ⟨rest⟩)

end WorkQueue

end MeshLight
