import Mathlib.Data.List.Perm.Subperm
import MeshLight.Timers

/-!
# MeshLight.Proofs.Timers.Table

The slots as a table from timers to entries. What an operation does to the slots is read off the
entry that each timer has (`Timers.find?`): starting a timer sets its entry, stopping it removes
the entry, and time that passes renews the entries that become due. There is a slot for each timer
and no timer has two (`Timers.Sound`), so a start never lacks a slot.
-/

namespace MeshLight

/-- All timers. -/
def Timer.all : List Timer := [.report, .lightOff .all, .lightOff .left, .lightOff .right]

theorem Timer.mem_all (t : Timer) : t ∈ all := by
  cases t with
  | report => decide
  | lightOff group => cases group <;> decide

namespace Timers

variable {t u : Timer} {a b : Armed} {slots : List (Option Armed)} {ts : Timers}

/-! ## entries -/

/-- The entry of a timer in the slots. -/
def lookUp (t : Timer) : List (Option Armed) → Option Armed
  | [] => none
  | none :: rest => lookUp t rest
  | some a :: rest => if a.timer = t then some a else lookUp t rest

/-- The entry of a timer, if it runs. -/
def find? (t : Timer) (ts : Timers) : Option Armed := lookUp t ts.slots

/-- The timers that have a slot. -/
def occupants (slots : List (Option Armed)) : List Timer :=
  slots.filterMap fun slot => slot.map Armed.timer

@[simp] theorem occupants_none : occupants (none :: slots) = occupants slots := rfl

@[simp] theorem occupants_some : occupants (some a :: slots) = a.timer :: occupants slots := rfl

theorem timer_of_lookUp (h : lookUp t slots = some a) : a.timer = t ∧ some a ∈ slots := by
  induction slots with
  | nil => cases h
  | cons slot rest ih =>
      cases slot with
      | none => grind [lookUp]
      | some b => grind [lookUp]

theorem lookUp_eq_none_iff : lookUp t slots = none ↔ t ∉ occupants slots := by
  induction slots with
  | nil => simp [lookUp, occupants]
  | cons slot rest ih =>
      cases slot with
      | none => simpa [lookUp] using ih
      | some b => grind [lookUp, occupants_some]

theorem any_holds_iff : slots.any (holds t) = true ↔ t ∈ occupants slots := by
  induction slots with
  | nil => simp [occupants]
  | cons slot rest ih =>
      cases slot with
      | none => simpa [holds] using ih
      | some b =>
          rw [List.any_cons, Bool.or_eq_true, ih, occupants_some, List.mem_cons]
          simp [holds, eq_comm]

/-- A timer runs if it has an entry. -/
theorem isRunning_eq_isSome (t : Timer) (ts : Timers) :
    ts.isRunning t = (ts.find? t).isSome := by
  rw [Bool.eq_iff_iff, isRunning, any_holds_iff, find?, Option.isSome_iff_ne_none, Ne,
    lookUp_eq_none_iff, not_not]

/-! ## soundness -/

/-- There is a slot for each timer, and no timer has two. -/
structure Sound (ts : Timers) : Prop where
  length : ts.slots.length = capacity
  nodup : (occupants ts.slots).Nodup

theorem sound_initial : initial.Sound := ⟨rfl, by decide⟩

theorem find?_initial (t : Timer) : initial.find? t = none := rfl

/-- An entry is the only one of its timer. -/
theorem find?_eq_some_iff (h : ts.Sound) :
    ts.find? t = some a ↔ some a ∈ ts.slots ∧ a.timer = t := by
  refine ⟨fun ha => (timer_of_lookUp ha).symm, fun ha => ?_⟩
  obtain ⟨hmem, htimer⟩ := ha
  have hnodup := h.nodup
  unfold find?
  generalize ts.slots = slots at hmem hnodup
  induction slots with
  | nil => cases hmem
  | cons slot rest ih =>
      have hoccupies (hrest : some a ∈ rest) : t ∈ occupants rest :=
        List.mem_filterMap.2 ⟨some a, hrest, by simp [htimer]⟩
      cases slot with
      | none => exact ih (by simpa using hmem) hnodup
      | some b => grind [lookUp, occupants_some]

/-! ## starting -/

theorem occupants_putWhere_holds :
    occupants (putWhere (holds a.timer) a slots) = occupants slots := by
  induction slots with
  | nil => rfl
  | cons slot rest ih => cases slot <;> grind [putWhere, holds, occupants_none, occupants_some]

theorem lookUp_putWhere_holds (h : a.timer ∈ occupants slots) :
    lookUp t (putWhere (holds a.timer) a slots) =
      if t = a.timer then some a else lookUp t slots := by
  induction slots with
  | nil => cases h
  | cons slot rest ih =>
      cases slot <;> grind [putWhere, holds, lookUp, occupants_none, occupants_some]

theorem occupants_putWhere_isNone (h : none ∈ slots) :
    (occupants (putWhere Option.isNone a slots)).Perm (a.timer :: occupants slots) := by
  induction slots with
  | nil => cases h
  | cons slot rest ih =>
      cases slot with
      | none => exact .refl _
      | some b =>
          have hrest : none ∈ rest := by simpa using h
          exact ((ih hrest).cons b.timer).trans (.swap _ _ _)

theorem lookUp_putWhere_isNone (hfree : none ∈ slots) (h : a.timer ∉ occupants slots) :
    lookUp t (putWhere Option.isNone a slots) =
      if t = a.timer then some a else lookUp t slots := by
  induction slots with
  | nil => cases hfree
  | cons slot rest ih => cases slot <;> grind [putWhere, lookUp, occupants_some, lookUp_eq_none_iff]

theorem length_occupants_of_none_not_mem (h : none ∉ slots) :
    (occupants slots).length = slots.length := by
  induction slots with
  | nil => rfl
  | cons slot rest ih =>
      cases slot with
      | none => exact absurd (List.mem_cons_self ..) h
      | some b => simpa using ih (by simpa using h)

/-- As long as a timer does not run there is a free slot: there are as many slots as timers. -/
theorem Sound.none_mem_slots (h : ts.Sound) (ht : t ∉ occupants ts.slots) : none ∈ ts.slots := by
  by_contra hfull
  have hlength := length_occupants_of_none_not_mem hfull
  have hnodup : (t :: occupants ts.slots).Nodup := List.nodup_cons.2 ⟨ht, h.nodup⟩
  have hle := (List.subperm_of_subset hnodup fun u _ => Timer.mem_all u).length_le
  rw [List.length_cons, hlength, h.length] at hle
  exact absurd hle (by decide)

theorem Sound.arm (h : ts.Sound) (a : Armed) : (ts.arm a).Sound := by
  refine ⟨(length_arm a ts).trans h.length, ?_⟩
  by_cases hrun : ts.isRunning a.timer = true
  · rw [Timers.arm, if_pos hrun, occupants_putWhere_holds]
    exact h.nodup
  · rw [Timers.arm, if_neg hrun]
    rw [isRunning, any_holds_iff] at hrun
    rw [(occupants_putWhere_isNone (h.none_mem_slots hrun)).nodup_iff]
    exact List.nodup_cons.2 ⟨hrun, h.nodup⟩

/-- Starting a timer sets its entry, whether or not it runs, and no other. -/
theorem find?_arm (h : ts.Sound) (a : Armed) (t : Timer) :
    (ts.arm a).find? t = if t = a.timer then some a else ts.find? t := by
  by_cases hrun : ts.isRunning a.timer = true
  · rw [Timers.arm, if_pos hrun]
    exact lookUp_putWhere_holds (any_holds_iff.1 hrun)
  · rw [Timers.arm, if_neg hrun]
    rw [isRunning, any_holds_iff] at hrun
    exact lookUp_putWhere_isNone (h.none_mem_slots hrun) hrun

/-! ## stopping -/

theorem occupants_stop (t : Timer) (ts : Timers) :
    (occupants (ts.stop t).slots).Sublist (occupants ts.slots) := by
  unfold stop
  generalize ts.slots = slots
  induction slots with
  | nil => exact .refl _
  | cons slot rest ih =>
      cases slot with
      | none => exact ih
      | some a =>
          by_cases hh : holds t (some a) = true
          · simpa [hh] using ih.cons a.timer
          · simpa [hh] using ih.cons_cons a.timer

theorem Sound.stop (h : ts.Sound) (t : Timer) : (ts.stop t).Sound where
  length := by simpa [Timers.stop] using h.length
  nodup := h.nodup.sublist (occupants_stop t ts)

/-- Stopping a timer removes its entry and no other. -/
theorem find?_stop (t u : Timer) (ts : Timers) :
    (ts.stop t).find? u = if u = t then none else ts.find? u := by
  unfold stop find?
  generalize ts.slots = slots
  induction slots with
  | nil => simp [lookUp]
  | cons slot rest ih => cases slot <;> grind [lookUp, holds]

/-! ## time -/

theorem timer_renew {now : Nat} (h : a.renew now = some b) :
    b.timer = a.timer ∧ b.repetition = a.repetition := by
  unfold Armed.renew at h
  split at h <;> grind

theorem occupants_map_renewSlot (now : Nat) (slots : List (Option Armed)) :
    (occupants (slots.map (renewSlot now))).Sublist (occupants slots) := by
  induction slots with
  | nil => exact .refl _
  | cons slot rest ih =>
      cases slot with
      | none => exact ih
      | some a =>
          cases hnew : renewSlot now (some a) with
          | none => simpa [hnew] using ih.cons a.timer
          | some b =>
              have hb : b.timer = a.timer := by grind [renewSlot, timer_renew]
              simpa [hnew, hb] using ih.cons_cons a.timer

theorem Sound.tick (h : ts.Sound) (elapsed : Nat) : (ts.tick elapsed).2.Sound where
  length := by simpa [Timers.tick] using h.length
  nodup := h.nodup.sublist (occupants_map_renewSlot _ ts.slots)

/-- Time that passes renews the entry of each timer that becomes due, and no other. -/
theorem find?_tick (h : ts.Sound) (elapsed : Nat) (t : Timer) :
    (ts.tick elapsed).2.find? t =
      (ts.find? t).bind fun a => renewSlot (ts.now + elapsed) (some a) := by
  have hnodup := h.nodup
  show lookUp t (ts.slots.map (renewSlot (ts.now + elapsed))) = _
  unfold find?
  generalize ts.slots = slots at hnodup
  generalize ts.now + elapsed = now
  induction slots with
  | nil => rfl
  | cons slot rest ih =>
      cases slot with
      | none => simpa [lookUp, renewSlot] using ih hnodup
      | some a =>
          obtain ⟨hfresh, hrest⟩ := List.nodup_cons.1 hnodup
          have ih := ih hrest
          by_cases hat : a.timer = t
          · -- this is the one slot that the timer can have
            have hnone : lookUp t (rest.map (renewSlot now)) = none := by
              rw [ih, lookUp_eq_none_iff.2 (hat ▸ hfresh)]
              rfl
            cases hnew : renewSlot now (some a) with
            | none => simp [lookUp, hat, hnew, hnone]
            | some b =>
                have hb : b.timer = a.timer := by grind [renewSlot, timer_renew]
                simp [lookUp, hat, hnew, hb]
          · cases hnew : renewSlot now (some a) with
            | none => simp [lookUp, hat, hnew, ih]
            | some b =>
                have hb : b.timer = a.timer := by grind [renewSlot, timer_renew]
                simp [lookUp, hat, hnew, hb, ih]

theorem le_due_renew {now : Nat} (hdue : a.due ≤ now) (h : a.renew now = some b) :
    a.due ≤ b.due := by
  unfold Armed.renew at h
  split at h
  · cases h
  · cases h
    exact Nat.le_of_lt (Nat.lt_of_le_of_lt hdue (Armed.lt_nextDue hdue))

/-- A timer is not due earlier after it was renewed. -/
theorem le_due_renewSlot {now : Nat} (h : renewSlot now (some a) = some b) : a.due ≤ b.due := by
  by_cases hdue : a.due ≤ now
  · rw [renewSlot, if_pos hdue] at h
    exact le_due_renew hdue h
  · rw [renewSlot, if_neg hdue] at h
    cases h
    exact Nat.le_refl _

/-- A timer that is due again and again goes on running. -/
theorem find?_tick_of_every (h : ts.Sound) (ha : ts.find? t = some a) {period : Nat}
    (hevery : a.repetition = .every period) (elapsed : Nat) :
    ∃ b, (ts.tick elapsed).2.find? t = some b ∧ b.repetition = .every period := by
  rw [find?_tick h, ha]
  by_cases hdue : a.due ≤ ts.now + elapsed
  · simp [renewSlot, hdue, Armed.renew, hevery]
  · simp [renewSlot, hdue, hevery]

/-- The timers that fire are those that have become due. -/
theorem mem_tick_iff (h : ts.Sound) {elapsed : Nat} :
    t ∈ (ts.tick elapsed).1 ↔ ∃ a, ts.find? t = some a ∧ a.due ≤ ts.now + elapsed := by
  show t ∈ ts.slots.filterMap (dueTimer? (ts.now + elapsed)) ↔ _
  rw [List.mem_filterMap]
  constructor
  · intro hfired
    obtain ⟨slot, hslot, hdue⟩ := hfired
    cases slot with
    | none => cases hdue
    | some a => exact ⟨a, (find?_eq_some_iff h).2 (by grind [dueTimer?]), by grind [dueTimer?]⟩
  · intro hentry
    obtain ⟨a, ha, hdue⟩ := hentry
    obtain ⟨hslot, htimer⟩ := (find?_eq_some_iff h).1 ha
    exact ⟨some a, hslot, by simp [dueTimer?, hdue, htimer]⟩

theorem length_tick_le (h : ts.Sound) (elapsed : Nat) : (ts.tick elapsed).1.length ≤ capacity := by
  rw [← h.length]
  exact List.length_filterMap_le ..

end Timers

end MeshLight
