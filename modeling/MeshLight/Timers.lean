import MeshLight.Light

/-!
# MeshLight.Timers

A fixed table of timers on a clock in milliseconds. At most one timer of each name runs; it is due
at a point of the clock, once or again and again. Letting time pass reports each timer that became
due, once however many of its periods have passed.
-/

namespace MeshLight

/-- The timers of the node: the periodic report and the delayed switch-off of a light group. -/
inductive Timer where
  | report
  | lightOff (group : LightGroup)
  deriving DecidableEq

inductive Repetition where
  | once
  | every (period : Nat)
  deriving DecidableEq

/-- A running timer. -/
structure Armed where
  timer : Timer
  repetition : Repetition
  due : Nat
  deriving DecidableEq

namespace Armed

/-- The first point after `now` on the grid of a timer that has become due. -/
def nextDue (due period now : Nat) : Nat :=
  let step := max period 1
  due + ((now - due) / step + 1) * step

theorem lt_nextDue {due period now : Nat} (h : due ≤ now) : now < nextDue due period now := by
  have hs : 0 < max period 1 := by omega
  have := Nat.lt_div_mul_add (a := now - due) hs
  simp only [nextDue, Nat.add_mul, Nat.one_mul]
  omega

/-- No earlier point of the grid lies after `now`. -/
theorem nextDue_le_add {due period now : Nat} (h : due ≤ now) :
    nextDue due period now ≤ now + max period 1 := by
  have := Nat.div_mul_le_self (now - due) (max period 1)
  simp only [nextDue, Nat.add_mul, Nat.one_mul]
  omega

/-- What is left of a timer that has become due. -/
def renew (now : Nat) (a : Armed) : Option Armed :=
  match a.repetition with
  | .once => none
  | .every period => some { a with due := nextDue a.due period now }

end Armed

/-- The slots in which timers run, and the clock. -/
structure Timers where
  slots : List (Option Armed)
  now : Nat
  deriving DecidableEq

namespace Timers

/-- One slot for each timer. -/
def capacity : Nat := 4

def initial : Timers := ⟨List.replicate capacity none, 0⟩

/-- Whether a slot holds the given timer. -/
def holds (t : Timer) (slot : Option Armed) : Bool :=
  match slot with
  | some a => a.timer = t
  | none => false

def isRunning (t : Timer) (ts : Timers) : Bool := ts.slots.any (holds t)

/-- Puts a timer into the first slot that satisfies the test. -/
def putWhere (test : Option Armed → Bool) (a : Armed) : List (Option Armed) → List (Option Armed)
  | [] => []
  | slot :: rest => if test slot then some a :: rest else slot :: putWhere test a rest

theorem length_putWhere (test : Option Armed → Bool) (a : Armed) (slots : List (Option Armed)) :
    (putWhere test a slots).length = slots.length := by
  induction slots with
  | nil => rfl
  | cons slot rest ih =>
    unfold putWhere
    split <;> simp [ih]

/-- Runs a timer in the slot it already has, or else in the first free one. -/
def arm (a : Armed) (ts : Timers) : Timers :=
  if ts.isRunning a.timer then { ts with slots := putWhere (holds a.timer) a ts.slots }
  else { ts with slots := putWhere Option.isNone a ts.slots }

theorem length_arm (a : Armed) (ts : Timers) : (ts.arm a).slots.length = ts.slots.length := by
  unfold arm
  split <;> exact length_putWhere _ _ _

theorem now_arm (a : Armed) (ts : Timers) : (ts.arm a).now = ts.now := by
  unfold arm
  split <;> rfl

/-- Starts a timer that is due after `first` and then after every `period`. -/
def startPeriodic (t : Timer) (first period : Nat) (ts : Timers) : Timers :=
  ts.arm ⟨t, .every period, ts.now + first⟩

/-- Starts a timer that is due once, after `delay`. -/
def startOnce (t : Timer) (delay : Nat) (ts : Timers) : Timers :=
  ts.arm ⟨t, .once, ts.now + delay⟩

/-- Stops a timer if it runs. -/
def stop (t : Timer) (ts : Timers) : Timers :=
  { ts with slots := ts.slots.map fun slot => if holds t slot then none else slot }

/-- A timer that was stopped does not run. -/
theorem isRunning_stop (t : Timer) (ts : Timers) : (ts.stop t).isRunning t = false := by
  simp only [isRunning, stop, List.any_map, List.any_eq_false]
  intro slot _
  by_cases h : holds t slot = true
  · simp only [Function.comp_apply, if_pos h]
    exact Bool.false_ne_true
  · simpa only [Function.comp_apply, if_neg h] using h

theorem isRunning_stop_of_ne {t u : Timer} (ts : Timers) (h : u ≠ t) :
    (ts.stop t).isRunning u = ts.isRunning u := by
  simp only [isRunning, stop, List.any_map]
  congr 1
  funext slot
  cases slot with
  | none => rfl
  | some a =>
    by_cases ha : a.timer = t
    · have hu : ¬a.timer = u := fun hu => h (hu.symm.trans ha)
      simp [holds, ha, h.symm]
    · simp [holds, ha]

/-- The timer of a slot, if it is due. -/
def dueTimer? (now : Nat) : Option Armed → Option Timer
  | some a => if a.due ≤ now then some a.timer else none
  | none => none

/-- A slot after the timers that are due have been reported. -/
def renewSlot (now : Nat) : Option Armed → Option Armed
  | some a => if a.due ≤ now then a.renew now else some a
  | none => none

/-- Lets time pass. Reports the timers that became due, in slot order. -/
def tick (elapsed : Nat) (ts : Timers) : List Timer × Timers :=
  let now := ts.now + elapsed
  (ts.slots.filterMap (dueTimer? now), ⟨ts.slots.map (renewSlot now), now⟩)

/-- The number of running timers. -/
def count (ts : Timers) : Nat := (ts.slots.filter Option.isSome).length

end Timers

end MeshLight
