import Mathlib.Data.List.Nodup
import MeshLight.Work

/-!
# MeshLight.Proofs.WorkQueue

Work that is asked for and taken out in any order of calls. Asking ends in one of three ways: the
work is merged with the same work in wait, joins the queue, or is refused for want of room
(`WorkQueue.submit_cases`). What joins the queue comes out in that order and nothing else does; only
notifications wait more than once, and none of them merges, so each that was granted comes out once
(`WorkQueue.queued_comes_out`).
-/

namespace MeshLight

/-- Work is asked for, or the oldest is taken out. -/
inductive WorkCall where
  | submit (w : Work)
  | pop
  deriving DecidableEq

namespace Work

/-- The event that a notification tells of. Other work has none. -/
def event? : Work → Option TriggerEvent
  | .emitTrigger event => some event
  | _ => none

theorem merges_iff {w : Work} : w.merges = true ↔ w.event? = none := by
  cases w <;> simp [merges, event?]

end Work

namespace WorkQueue

variable {q : WorkQueue} {w : Work}

/-! ## one call -/

/-- Work that is no notification merges if the same work waits already. -/
def Merges (w : Work) (q : WorkQueue) : Prop := w.event? = none ∧ w ∈ q.items

instance (w : Work) (q : WorkQueue) : Decidable (q.Merges w) := inferInstanceAs (Decidable (_ ∧ _))

/-- Answers a call. -/
def step (q : WorkQueue) : WorkCall → WorkQueue
  | .submit w => (q.submit w).2
  | .pop =>
    match q.pop? with
    | none => q
    | some (_, rest) => rest

/-- The work that is asked for in a call, unless it is refused. -/
def grantedBy (q : WorkQueue) : WorkCall → List Work
  | .submit w => if (q.submit w).1 = true then [w] else []
  | .pop => []

/-- The work that is asked for in a call, unless it is refused or merges. -/
def queuedBy (q : WorkQueue) : WorkCall → List Work
  | .submit w => if (q.submit w).1 = true ∧ ¬q.Merges w then [w] else []
  | .pop => []

/-- The work that is taken out in a call. -/
def poppedBy (q : WorkQueue) : WorkCall → List Work
  | .submit _ => []
  | .pop => (q.pop?.map Prod.fst).toList

/-- Work that is asked for merges, joins the queue, or is refused. -/
theorem submit_cases (w : Work) (q : WorkQueue) :
    (q.Merges w ∧ q.submit w = (true, q)) ∨
    (¬q.Merges w ∧ q.items.length < capacity ∧ q.submit w = (true, ⟨q.items ++ [w]⟩)) ∨
    (¬q.Merges w ∧ capacity ≤ q.items.length ∧ q.submit w = (false, q)) := by
  by_cases hmerges : q.Merges w
  · exact .inl ⟨hmerges, submit_of_mem (Work.merges_iff.2 hmerges.1) hmerges.2⟩
  · have hnew : (w.merges && q.items.contains w) = false := by
      simpa [Merges, ← Work.merges_iff] using hmerges
    by_cases hroom : q.items.length < capacity
    · exact .inr (.inl ⟨hmerges, hroom, by rw [submit, hnew]; simp [hroom]⟩)
    · exact .inr (.inr ⟨hmerges, Nat.le_of_not_lt hroom, by rw [submit, hnew]; simp [hroom]⟩)

/-- What waits and what joins the queue is what is taken out and what waits then. -/
theorem items_append_queuedBy (q : WorkQueue) (c : WorkCall) :
    q.items ++ q.queuedBy c = q.poppedBy c ++ (q.step c).items := by
  cases c with
  | submit w =>
      obtain ⟨hmerges, hsubmit⟩ | ⟨hnew, -, hsubmit⟩ | ⟨hnew, -, hsubmit⟩ := submit_cases w q
      · simp [queuedBy, poppedBy, step, hsubmit, hmerges]
      · simp [queuedBy, poppedBy, step, hsubmit, hnew]
      · simp [queuedBy, poppedBy, step, hsubmit]
  | pop =>
      obtain ⟨items⟩ := q
      cases items <;> simp [queuedBy, poppedBy, step, pop?]

/-- A notification that is granted joins the queue. -/
theorem filterMap_grantedBy (q : WorkQueue) (c : WorkCall) :
    (q.grantedBy c).filterMap Work.event? = (q.queuedBy c).filterMap Work.event? := by
  cases c with
  | submit w =>
      by_cases hmerges : q.Merges w
      · simp [grantedBy, queuedBy, hmerges, hmerges.1]
      · simp [grantedBy, queuedBy, hmerges]
  | pop => rfl

/-- No more waits than fits, and nothing twice but notifications. -/
structure Sound (q : WorkQueue) : Prop where
  length_le : q.items.length ≤ capacity
  nodup : (q.items.filter (·.event? = none)).Nodup

theorem sound_empty : empty.Sound := ⟨Nat.zero_le _, List.nodup_nil⟩

theorem Sound.step (h : q.Sound) (c : WorkCall) : (q.step c).Sound := by
  cases c with
  | submit w =>
      show (q.submit w).2.Sound
      obtain ⟨-, hsubmit⟩ | ⟨hnew, hroom, hsubmit⟩ | ⟨-, -, hsubmit⟩ := submit_cases w q
      · rwa [hsubmit]
      · rw [hsubmit]
        refine ⟨by simpa using Nat.succ_le_of_lt hroom, ?_⟩
        show ((q.items ++ [w]).filter (·.event? = none)).Nodup
        rw [List.filter_append, List.nodup_append]
        refine ⟨h.nodup, (List.nodup_singleton w).filter _, fun v hv w' hw' heq => hnew ?_⟩
        obtain ⟨hmem, hnone⟩ := List.mem_filter.1 hv
        cases List.mem_singleton.1 (List.mem_filter.1 hw').1
        exact heq ▸ ⟨of_decide_eq_true hnone, hmem⟩
      · rwa [hsubmit]
  | pop =>
      obtain ⟨items⟩ := q
      cases items with
      | nil => exact h
      | cons w rest =>
          exact ⟨Nat.le_of_succ_le h.length_le,
            h.nodup.sublist ((List.sublist_cons_self ..).filter _)⟩

theorem Sound.submit_eq_false_iff (h : q.Sound) (w : Work) :
    (q.submit w).1 = false ↔ q.items.length = capacity ∧ ¬q.Merges w := by
  obtain ⟨hmerges, hsubmit⟩ | ⟨hnew, hroom, hsubmit⟩ | ⟨hnew, hfull, hsubmit⟩ := submit_cases w q
  · simp [hsubmit, hmerges]
  · simp [hsubmit, Nat.ne_of_lt hroom]
  · simp [hsubmit, hnew, Nat.le_antisymm h.length_le hfull]

/-! ## any calls -/

/-- Answers calls one after the other. -/
def after : List WorkCall → WorkQueue → WorkQueue
  | [], q => q
  | c :: calls, q => after calls (q.step c)

/-- What is read off the calls, one after the other. -/
def along (read : WorkQueue → WorkCall → List Work) : List WorkCall → WorkQueue → List Work
  | [], _ => []
  | c :: calls, q => read q c ++ along read calls (q.step c)

/-- The work that is asked for, without what is refused. -/
def granted (calls : List WorkCall) (q : WorkQueue) : List Work := q.along grantedBy calls

/-- The work that is asked for, without what is refused and what merges. -/
def queued (calls : List WorkCall) (q : WorkQueue) : List Work := q.along queuedBy calls

/-- The work that is taken out. -/
def popped (calls : List WorkCall) (q : WorkQueue) : List Work := q.along poppedBy calls

theorem Sound.after (h : q.Sound) (calls : List WorkCall) : (q.after calls).Sound := by
  induction calls generalizing q with
  | nil => exact h
  | cons c calls ih => exact ih (h.step c)

theorem after_append (calls calls' : List WorkCall) (q : WorkQueue) :
    q.after (calls ++ calls') = (q.after calls).after calls' := by
  induction calls generalizing q with
  | nil => rfl
  | cons c calls ih => exact ih (q.step c)

theorem along_append (read : WorkQueue → WorkCall → List Work) (calls calls' : List WorkCall)
    (q : WorkQueue) :
    q.along read (calls ++ calls') = q.along read calls ++ (q.after calls).along read calls' := by
  induction calls generalizing q with
  | nil => rfl
  | cons c calls ih => rw [List.cons_append, along, along, ih, List.append_assoc, after]

/-- What waits and what joins the queue is what is taken out and what waits then. -/
theorem items_append_queued (calls : List WorkCall) (q : WorkQueue) :
    q.items ++ q.queued calls = q.popped calls ++ (q.after calls).items := by
  induction calls generalizing q with
  | nil => exact List.append_nil _
  | cons c calls ih =>
      show q.items ++ (q.queuedBy c ++ (q.step c).queued calls) =
        q.poppedBy c ++ (q.step c).popped calls ++ ((q.step c).after calls).items
      rw [← List.append_assoc, items_append_queuedBy, List.append_assoc, ih, List.append_assoc]

/-- All notifications that are granted join the queue. -/
theorem filterMap_granted (calls : List WorkCall) (q : WorkQueue) :
    (q.granted calls).filterMap Work.event? = (q.queued calls).filterMap Work.event? := by
  induction calls generalizing q with
  | nil => rfl
  | cons c calls ih =>
      show (q.grantedBy c ++ (q.step c).granted calls).filterMap _ =
        (q.queuedBy c ++ (q.step c).queued calls).filterMap _
      rw [List.filterMap_append, List.filterMap_append, filterMap_grantedBy, ih]

/-- Each pop takes out the oldest work, as long as there is any. -/
theorem items_after_pops (n : Nat) (q : WorkQueue) :
    (q.after (List.replicate n .pop)).items = q.items.drop n := by
  induction n generalizing q with
  | zero => rfl
  | succ n ih =>
      rw [List.replicate_succ, after, ih]
      obtain ⟨items⟩ := q
      cases items with
      | nil => simp [step, pop?]
      | cons w rest => rfl

theorem queued_pops (n : Nat) (q : WorkQueue) : q.queued (List.replicate n .pop) = [] := by
  induction n generalizing q with
  | zero => rfl
  | succ n ih => exact ih (q.step .pop)

/-- Whatever is asked for and taken out of an empty queue: nothing but notifications waits twice,
sixteen pieces of work wait at most, and work is refused exactly if sixteen wait and it does not
merge. What was taken out is what was asked for without what was refused and what merged, in that
order, up to what waits; and if all that waits is taken out as well, it is the whole of that, with
each notification that was granted. -/
theorem queued_comes_out (calls : List WorkCall) :
    let q := empty.after calls
    let emptied := calls ++ List.replicate 16 .pop
    (q.items.filter (·.event? = none)).Nodup ∧ q.items.length ≤ 16 ∧
    (∀ w, (q.submit w).1 = false ↔
      q.items.length = 16 ∧ ¬(w.event? = none ∧ w ∈ q.items)) ∧
    empty.queued calls = empty.popped calls ++ q.items ∧
    empty.popped emptied = empty.queued calls ∧
    (empty.popped emptied).filterMap Work.event? =
      (empty.granted calls).filterMap Work.event? := by
  intro q emptied
  have hsound : q.Sound := sound_empty.after calls
  have hqueued := items_append_queued calls empty
  have hemptied : empty.popped emptied = empty.queued calls := by
    have hall := items_append_queued emptied empty
    have hleft : (empty.after emptied).items = [] := by
      rw [after_append, items_after_pops, List.drop_eq_nil_iff]
      exact hsound.length_le
    have hsame : empty.queued emptied = empty.queued calls := by
      rw [queued, along_append, ← queued, ← queued, queued_pops, List.append_nil]
    rw [hleft, List.append_nil, hsame] at hall
    exact hall.symm
  refine ⟨hsound.nodup, hsound.length_le, hsound.submit_eq_false_iff, hqueued, hemptied, ?_⟩
  rw [hemptied, filterMap_granted]

/-- Work merges while it waits, and joins the queue again once it has been taken out. -/
example : empty.popped [.submit .reportStatus, .submit .reportStatus, .pop, .pop,
    .submit .reportStatus, .pop] = [.reportStatus, .reportStatus] := by decide

end WorkQueue

end MeshLight
