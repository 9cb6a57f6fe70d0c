import Mathlib.Algebra.Ring.Nat
import MeshLight.Proofs.Timers.Agenda

/-!
# MeshLight.Proofs.Timers.Phase

Time that passes in pieces. A slot that was renewed on the way is renewed in the end as if it had
not been (`Timers.renewSlot_renewSlot`), so neither the timers afterwards nor which of them were
reported depends on the pieces. A periodic timer keeps to the points that its start has fixed,
however late it is looked at (`Timers.ticks_eq_tick`).
-/

namespace MeshLight

/-! ## points -/

/-- A timer that was moved on the way is moved to the same point in the end. -/
theorem Armed.nextDue_nextDue {due period now later : Nat} (h : due ≤ now)
    (hlater : nextDue due period now ≤ later) :
    nextDue (nextDue due period now) period later = nextDue due period later := by
  obtain ⟨-, k, hk⟩ := (isLeast_nextDue period h).1
  obtain ⟨-, j, hj⟩ := (isLeast_nextDue period hlater).1
  have hdue : due ≤ later := Nat.le_trans h (Nat.le_trans (Nat.le_of_lt (lt_nextDue h)) hlater)
  have hleast : IsLeast (pointsAfter later due period)
      (nextDue (nextDue due period now) period later) := by
    refine ⟨⟨lt_nextDue hlater, k + j, by rw [hj, hk, Nat.add_mul, Nat.add_assoc]⟩, ?_⟩
    rintro _ ⟨hlt, i, rfl⟩
    -- a point after `later` comes after the point to which the timer was moved on the way
    have hki : k ≤ i := by
      refine Nat.le_of_not_lt fun hik => ?_
      have := Nat.mul_le_mul_right (max period 1) (Nat.le_of_lt hik)
      omega
    obtain ⟨i, rfl⟩ := Nat.exists_eq_add_of_le hki
    exact (isLeast_nextDue period hlater).2 ⟨hlt, i, by rw [hk, Nat.add_mul, Nat.add_assoc]⟩
  exact hleast.unique (isLeast_nextDue period hdue)

namespace Timers

variable {ts : Timers} {t : Timer} {pieces : List Nat}

/-- Renewing a slot on the way makes no difference in the end. -/
theorem renewSlot_renewSlot {now later : Nat} (h : now ≤ later) (slot : Option Armed) :
    renewSlot later (renewSlot now slot) = renewSlot later slot := by
  cases slot with
  | none => rfl
  | some a =>
      by_cases hdue : a.due ≤ now
      · have hlater : a.due ≤ later := Nat.le_trans hdue h
        obtain ⟨t, repetition, due⟩ := a
        cases repetition with
        | once => simp [renewSlot, Armed.renew, hdue, hlater]
        | every period =>
            simp only [renewSlot, Armed.renew, if_pos hdue, if_pos hlater]
            by_cases hnext : Armed.nextDue due period now ≤ later
            · rw [if_pos hnext, Armed.nextDue_nextDue hdue hnext]
            · -- the first point after `now` is still to come, so it is the first after `later`
              have hnow := Armed.isLeast_nextDue period hdue
              have hleast : IsLeast (pointsAfter later due period) (Armed.nextDue due period now) :=
                ⟨⟨Nat.lt_of_not_le hnext, hnow.1.2⟩,
                  fun point hpoint => hnow.2 ⟨Nat.lt_of_le_of_lt h hpoint.1, hpoint.2⟩⟩
              rw [if_neg hnext, hleast.unique (Armed.isLeast_nextDue period hlater)]
      · rw [show renewSlot now (some a) = some a from if_neg hdue]

/-! ## pieces -/

/-- Lets time pass in pieces, with the timers that are reported after each. -/
def ticks (pieces : List Nat) (ts : Timers) : List (List Timer) × Timers :=
  ts.run (pieces.map .tick)

theorem ticks_nil (ts : Timers) : ts.ticks [] = ([], ts) := rfl

theorem ticks_cons (elapsed : Nat) (pieces : List Nat) (ts : Timers) :
    ts.ticks (elapsed :: pieces) = ((ts.tick elapsed).1 :: ((ts.tick elapsed).2.ticks pieces).1,
      ((ts.tick elapsed).2.ticks pieces).2) := rfl

theorem Sound.ticks (h : ts.Sound) (pieces : List Nat) : (ts.ticks pieces).2.Sound :=
  h.run _

/-- Two pieces come to one. -/
theorem tick_tick (first rest : Nat) (ts : Timers) :
    ((ts.tick first).2.tick rest).2 = (ts.tick (first + rest)).2 := by
  simp only [tick, List.map_map, Nat.add_assoc]
  congr 1
  refine List.map_congr_left fun slot _ => ?_
  rw [Function.comp_apply, ← Nat.add_assoc]
  exact renewSlot_renewSlot (Nat.le_add_right _ _) slot

/-- What is reported after two pieces was reported after one of them. -/
theorem mem_tick_add_iff (h : ts.Sound) {first rest : Nat} :
    t ∈ (ts.tick (first + rest)).1 ↔
      t ∈ (ts.tick first).1 ∨ t ∈ ((ts.tick first).2.tick rest).1 := by
  rw [mem_tick_iff h, mem_tick_iff h, mem_tick_iff (h.tick first), find?_tick h]
  rw [show (ts.tick first).2.now + rest = ts.now + (first + rest) from Nat.add_assoc ..]
  constructor
  · rintro ⟨a, ha, hdue⟩
    by_cases hfirst : a.due ≤ ts.now + first
    · exact .inl ⟨a, ha, hfirst⟩
    · refine .inr ⟨a, ?_, hdue⟩
      rw [ha, Option.bind_some, renewSlot, if_neg hfirst]
  · rintro (⟨a, ha, hdue⟩ | ⟨b, hb, hdue⟩)
    · exact ⟨a, ha, by omega⟩
    · obtain ⟨a, ha, hrenew⟩ := Option.bind_eq_some_iff.1 hb
      exact ⟨a, ha, Nat.le_trans (le_due_renewSlot hrenew) hdue⟩

theorem snd_ticks (hne : pieces ≠ []) (ts : Timers) :
    (ts.ticks pieces).2 = (ts.tick pieces.sum).2 := by
  induction pieces generalizing ts with
  | nil => exact absurd rfl hne
  | cons elapsed pieces ih =>
      rw [ticks_cons, List.sum_cons]
      cases pieces with
      | nil => rfl
      | cons => rw [ih (List.cons_ne_nil _ _), tick_tick]

/-- All that the pieces report is reported when the same time passes at once. -/
theorem mem_tick_sum_iff (h : ts.Sound) (hne : pieces ≠ []) :
    t ∈ (ts.tick pieces.sum).1 ↔ t ∈ (ts.ticks pieces).1.flatten := by
  induction pieces generalizing ts with
  | nil => exact absurd rfl hne
  | cons elapsed pieces ih =>
      rw [ticks_cons, List.sum_cons, List.flatten_cons, List.mem_append]
      cases pieces with
      | nil => simp [ticks_nil]
      | cons => rw [mem_tick_add_iff h, ih (h.tick elapsed) (List.cons_ne_nil _ _)]

/-- The members of a list without repetitions, in its order. -/
theorem eq_filter_of_sublist {part whole : List Timer} (h : part.Sublist whole)
    (hnodup : whole.Nodup) : part = whole.filter (· ∈ part) := by
  induction h with
  | slnil => rfl
  | @cons part whole t hpart ih =>
      obtain ⟨hfresh, hnodup⟩ := List.nodup_cons.1 hnodup
      rw [List.filter_cons_of_neg (by simpa using fun ht => hfresh (hpart.subset ht))]
      exact ih hnodup
  | @cons_cons part whole t hpart ih =>
      obtain ⟨hfresh, hnodup⟩ := List.nodup_cons.1 hnodup
      rw [List.filter_cons_of_pos (by simp)]
      congr 1
      refine (ih hnodup).trans (List.filter_congr fun u hu => ?_)
      have hne : u ≠ t := fun hut => hfresh (hut ▸ hu)
      simp [hne]

/-! ## periodic timers -/

/-- The piece after those that have passed is the first to end at a point or after it. -/
def EndsFirst (point start : Nat) (past : List Nat) (elapsed : Nat) : Prop :=
  point ≤ start + past.sum + elapsed ∧
    ∀ earlier, earlier <+: past → earlier ≠ [] → start + earlier.sum < point

theorem endsFirst_nil_iff {point start elapsed : Nat} :
    EndsFirst point start [] elapsed ↔ point ≤ start + elapsed := by
  refine ⟨fun h => h.1, fun h => ⟨h, fun earlier hpast hne => ?_⟩⟩
  exact absurd (List.prefix_nil.1 hpast) hne

theorem endsFirst_iff {point start elapsed : Nat} {past : List Nat} (hne : past ≠ []) :
    EndsFirst point start past elapsed ↔
      start + past.sum < point ∧ point ≤ start + past.sum + elapsed := by
  refine ⟨fun h => ⟨h.2 past (List.prefix_refl past) hne, h.1⟩, fun h => ⟨h.2, ?_⟩⟩
  rintro earlier ⟨rest, rfl⟩ -
  have hlt := h.1
  rw [List.sum_append] at hlt
  omega

/-- One of the points of a timer lies in a span of time exactly if the first one after its beginning
does. -/
theorem exists_point_iff {point period start stop : Nat} (h : point ≤ start) (hperiod : 0 < period) :
    (∃ k, start < point + k * period ∧ point + k * period ≤ stop) ↔
      Armed.nextDue point period start ≤ stop := by
  have hleast := Armed.isLeast_nextDue period h
  have hmax : max period 1 = period := Nat.max_eq_left hperiod
  constructor
  · rintro ⟨k, hlt, hle⟩
    exact Nat.le_trans (hleast.2 ⟨hlt, k, by rw [hmax]⟩) hle
  · intro hle
    obtain ⟨hlt, k, hk⟩ := hleast.1
    rw [hmax] at hk
    exact ⟨k, hk ▸ hlt, hk ▸ hle⟩

section

variable {point period : Nat}

theorem find?_ticks (h : ts.Sound) (hne : pieces ≠ []) :
    (ts.ticks pieces).2.find? t =
      (ts.find? t).bind fun a => renewSlot (ts.now + pieces.sum) (some a) := by
  rw [snd_ticks hne, find?_tick h]

theorem now_ticks (pieces : List Nat) (ts : Timers) :
    (ts.ticks pieces).2.now = ts.now + pieces.sum := by
  cases pieces with
  | nil => rfl
  | cons => rw [snd_ticks (List.cons_ne_nil _ _)]; rfl

/-- A periodic timer is due at one of the points that its start has fixed. -/
theorem find?_ticks_of_every (h : ts.Sound)
    (ht : ts.find? t = some ⟨t, .every period, point⟩) (pieces : List Nat) :
    ∃ k, (ts.ticks pieces).2.find? t = some ⟨t, .every period, point + k * max period 1⟩ := by
  cases pieces with
  | nil => exact ⟨0, by rw [ticks_nil, ht, Nat.zero_mul, Nat.add_zero]⟩
  | cons elapsed pieces =>
      rw [find?_ticks h (List.cons_ne_nil _ _), ht, Option.bind_some, renewSlot]
      split
      · next hdue =>
        obtain ⟨-, k, hk⟩ := (Armed.isLeast_nextDue period hdue).1
        exact ⟨k, by rw [← hk]; rfl⟩
      · exact ⟨0, by rw [Nat.zero_mul, Nat.add_zero]⟩

/-- When a periodic timer is reported. -/
theorem mem_tick_ticks_iff (h : ts.Sound) (ht : ts.find? t = some ⟨t, .every period, point⟩)
    (hperiod : 0 < period) {past : List Nat} {elapsed : Nat} :
    t ∈ ((ts.ticks past).2.tick elapsed).1 ↔ EndsFirst point ts.now past elapsed ∨
      ∃ k, ts.now + past.sum < point + k * period ∧
        point + k * period ≤ ts.now + past.sum + elapsed := by
  -- a later point of the timer is no earlier than its first
  have hpoint : (∃ k, ts.now + past.sum < point + k * period ∧
      point + k * period ≤ ts.now + past.sum + elapsed) → point ≤ ts.now + past.sum + elapsed := by
    rintro ⟨k, -, hle⟩
    omega
  rw [mem_tick_iff (h.ticks past), now_ticks]
  by_cases hne : past = []
  · subst hne
    rw [ticks_nil, ht, endsFirst_nil_iff]
    refine ⟨?_, fun hends => ⟨_, rfl, hends.elim id hpoint⟩⟩
    rintro ⟨a, ha, hdue⟩
    cases ha
    exact .inl hdue
  · rw [find?_ticks h hne, ht, Option.bind_some, renewSlot, endsFirst_iff hne]
    by_cases hdue : point ≤ ts.now + past.sum
    · rw [if_pos hdue, exists_point_iff hdue hperiod]
      simp [Armed.renew, Nat.not_lt.2 hdue]
    · rw [if_neg hdue]
      refine ⟨?_, fun hends => ⟨_, rfl, hends.elim And.right hpoint⟩⟩
      rintro ⟨a, ha, hle⟩
      cases ha
      exact .inl ⟨Nat.lt_of_not_le hdue, hle⟩

end

/-- The pieces in which time passes do not matter: the timers come out the same, and those that are
reported at once, in the order of their slots, are those that were reported after some piece. A
periodic timer is reported after the first piece that ends at its first point or later, and from
then on after the pieces in which one of its points lies; and these are fixed by its start. -/
theorem ticks_eq_tick (h : ts.Sound) :
    (∀ pieces, pieces ≠ [] → (ts.ticks pieces).2 = (ts.tick pieces.sum).2 ∧
      (ts.tick pieces.sum).1 =
        (occupants ts.slots).filter (· ∈ (ts.ticks pieces).1.flatten)) ∧
    ∀ t first period, 0 < period → ∀ past elapsed,
      (t ∈ (((ts.startPeriodic t first period).ticks past).2.tick elapsed).1 ↔
        EndsFirst (ts.now + first) ts.now past elapsed ∨
          ∃ k, ts.now + past.sum < ts.now + first + k * period ∧
            ts.now + first + k * period ≤ ts.now + past.sum + elapsed) ∧
      ∃ k, ((ts.startPeriodic t first period).ticks past).2.find? t =
        some ⟨t, .every period, ts.now + first + k * period⟩ := by
  refine ⟨fun pieces hne => ⟨snd_ticks hne ts, ?_⟩, fun t first period hperiod past elapsed => ?_⟩
  · rw [eq_filter_of_sublist (tick_sublist_occupants pieces.sum ts) h.nodup]
    exact List.filter_congr fun t _ => decide_eq_decide.2 (mem_tick_sum_iff h hne)
  · have hstarted : (ts.startPeriodic t first period).Sound := h.arm _
    have ht : (ts.startPeriodic t first period).find? t =
        some ⟨t, .every period, ts.now + first⟩ := by
      rw [startPeriodic, find?_arm h, if_pos rfl]
    have hnow : (ts.startPeriodic t first period).now = ts.now := now_arm _ ts
    refine ⟨by rw [mem_tick_ticks_iff hstarted ht hperiod, hnow], ?_⟩
    obtain ⟨k, hk⟩ := find?_ticks_of_every hstarted ht past
    rw [Nat.max_eq_left hperiod] at hk
    exact ⟨k, hk⟩

/-- A switch-off that is due in a second and a half. -/
def switchingOff : Timers := initial.startOnce (.lightOff .left) 1500

/-- It is reported once when the time stalls, and so are reports without initial delay. -/
theorem ticks_eq_tick_stalled :
    switchingOff.Sound ∧ [1000, 0, 9500] ≠ [] ∧
      (switchingOff.ticks [1000, 0, 9500]).2 = (switchingOff.tick 10500).2 ∧
      (switchingOff.tick 10500).1 = [.lightOff .left] ∧ 0 < 1000 ∧
      Timer.report ∈ (((switchingOff.startPeriodic .report 0 1000).ticks [0, 999]).2.tick 5000).1 := by
  have hsound : switchingOff.Sound := sound_initial.arm _
  obtain ⟨hpieces, hperiodic⟩ := ticks_eq_tick hsound
  obtain ⟨hsame, hfired⟩ := hpieces [1000, 0, 9500] (by decide)
  obtain ⟨hreport, -⟩ := hperiodic .report 0 1000 (by decide) [0, 999] 5000
  exact ⟨hsound, by decide, hsame, hfired.trans (by decide), by decide,
    hreport.2 (.inr ⟨1, by decide⟩)⟩

end Timers

end MeshLight
