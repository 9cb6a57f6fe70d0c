import Mathlib.Logic.Function.Basic
import Mathlib.Order.Bounds.Basic
import MeshLight.Proofs.Timers.Table

/-!
# MeshLight.Proofs.Timers.Agenda

Timers without slots (`Agenda`): a map from each timer that runs to the way it repeats and the point
at which it is due, without any limit. A start sets the alarm of its timer and a stop removes it.
Time that passes reports each timer whose point has come; an alarm for once is removed then, and a
repeated one moves to its first point that is still to come. Whatever is started and stopped, and
however time passes, the slots do what an agenda does (`Timers.refines_agenda`).
-/

namespace MeshLight

/-! ## steps -/

/-- A timer is started or stopped, or time passes. -/
inductive TimerStep where
  | startPeriodic (timer : Timer) (first period : Nat)
  | startOnce (timer : Timer) (delay : Nat)
  | stop (timer : Timer)
  | tick (elapsed : Nat)
  deriving DecidableEq

namespace Timers

/-- Takes a step. Only time that passes reports timers. -/
def step : TimerStep → Timers → List Timer × Timers
  | .startPeriodic t first period, ts => ([], ts.startPeriodic t first period)
  | .startOnce t delay, ts => ([], ts.startOnce t delay)
  | .stop t, ts => ([], ts.stop t)
  | .tick elapsed, ts => ts.tick elapsed

/-- Takes steps one after the other, with the timers that each of them reports. -/
def run : List TimerStep → Timers → List (List Timer) × Timers
  | [], ts => ([], ts)
  | s :: steps, ts =>
    let (fired, ts) := ts.step s
    let (reports, ts) := run steps ts
    (fired :: reports, ts)

variable {ts : Timers} {s : TimerStep} {fired : List Timer}

theorem Sound.step (h : ts.Sound) (s : TimerStep) : (ts.step s).2.Sound := by
  cases s with
  | startPeriodic | startOnce => exact h.arm _
  | stop t => exact h.stop t
  | tick elapsed => exact h.tick elapsed

theorem Sound.run (h : ts.Sound) (steps : List TimerStep) : (ts.run steps).2.Sound := by
  induction steps generalizing ts with
  | nil => exact h
  | cons s steps ih => exact ih (h.step s)

end Timers

/-! ## agenda -/

/-- How a timer repeats and when it is due. -/
structure Alarm where
  repetition : Repetition
  due : Nat
  deriving DecidableEq

def Armed.alarm (a : Armed) : Alarm := ⟨a.repetition, a.due⟩

/-- The points after `now` at which a timer is due that was due at `due` and then at every period. A
period of zero counts as one. -/
def pointsAfter (now due period : Nat) : Set Nat :=
  {point | now < point ∧ ∃ k, point = due + k * max period 1}

/-- What is left of an alarm at the time `now`. -/
inductive Alarm.Passes (now : Nat) : Option Alarm → Option Alarm → Prop where
  | none : Passes now none none
  | early {a : Alarm} (h : now < a.due) : Passes now (some a) (some a)
  | once {due : Nat} (h : due ≤ now) : Passes now (some ⟨.once, due⟩) none
  | every {period due next : Nat} (h : due ≤ now)
      (hnext : IsLeast (pointsAfter now due period) next) :
      Passes now (some ⟨.every period, due⟩) (some ⟨.every period, next⟩)

/-- Time leaves only one thing of an alarm. -/
theorem Alarm.Passes.unique {now : Nat} {alarm left left' : Option Alarm}
    (h : Passes now alarm left) (h' : Passes now alarm left') : left = left' := by
  cases h with
  | none =>
      cases h'
      rfl
  | early hearly =>
      cases h' with
      | early => rfl
      | once hdue | every hdue => exact absurd hdue (Nat.not_le.2 hearly)
  | once hdue =>
      cases h' with
      | early hearly => exact absurd hdue (Nat.not_le.2 hearly)
      | once => rfl
  | every hdue hnext =>
      cases h' with
      | early hearly => exact absurd hdue (Nat.not_le.2 hearly)
      | every _ hnext' => rw [hnext.unique hnext']

/-- The alarms of the timers that run, and the clock. -/
@[ext] structure Agenda where
  alarm? : Timer → Option Alarm
  now : Nat

namespace Agenda

/-- No timer runs. -/
def initial : Agenda := ⟨fun _ => none, 0⟩

/-- Gives a timer another alarm, or none. No other timer changes. -/
def set (t : Timer) (alarm : Option Alarm) (m : Agenda) : Agenda :=
  { m with alarm? := Function.update m.alarm? t alarm }

/-- What a step makes of an agenda, and what it reports. The order of a report is left open. -/
inductive Step (m : Agenda) : TimerStep → List Timer → Agenda → Prop where
  | startPeriodic (t : Timer) (first period : Nat) :
      Step m (.startPeriodic t first period) [] (m.set t (some ⟨.every period, m.now + first⟩))
  | startOnce (t : Timer) (delay : Nat) :
      Step m (.startOnce t delay) [] (m.set t (some ⟨.once, m.now + delay⟩))
  | stop (t : Timer) : Step m (.stop t) [] (m.set t none)
  | tick {elapsed : Nat} {fired : List Timer} {m' : Agenda} (hnow : m'.now = m.now + elapsed)
      (hnodup : fired.Nodup)
      (hfired : ∀ t, t ∈ fired ↔ ∃ a, m.alarm? t = some a ∧ a.due ≤ m'.now)
      (halarms : ∀ t, Alarm.Passes m'.now (m.alarm? t) (m'.alarm? t)) :
      Step m (.tick elapsed) fired m'

/-- Steps one after the other, with what each of them reports. -/
inductive Run : Agenda → List TimerStep → List (List Timer) → Agenda → Prop where
  | nil (m : Agenda) : Run m [] [] m
  | cons {m m' m'' : Agenda} {s : TimerStep} {steps : List TimerStep} {fired : List Timer}
      {reports : List (List Timer)} (hstep : Step m s fired m') (hrun : Run m' steps reports m'') :
      Run m (s :: steps) (fired :: reports) m''

end Agenda

/-! ## slots as an agenda -/

/-- The point to which a timer moves is the first of its points after now. -/
theorem Armed.isLeast_nextDue {due now : Nat} (period : Nat) (h : due ≤ now) :
    IsLeast (pointsAfter now due period) (nextDue due period now) := by
  refine ⟨⟨lt_nextDue h, _, rfl⟩, ?_⟩
  rintro _ ⟨hlt, k, rfl⟩
  have hk : (now - due) / max period 1 < k := Nat.div_lt_of_lt_mul (by rw [Nat.mul_comm]; omega)
  exact Nat.add_le_add_left (Nat.mul_le_mul_right _ hk) due

namespace Timers

variable {ts : Timers} {s : TimerStep} {fired : List Timer} {t : Timer} {m : Agenda}

/-- What the slots say about each timer. -/
def agenda (ts : Timers) : Agenda := ⟨fun t => (ts.find? t).map Armed.alarm, ts.now⟩

/-- The alarm that a renewed slot holds is what time leaves of the one it held. -/
theorem passes_renewSlot (now : Nat) (slot : Option Armed) :
    Alarm.Passes now (slot.map Armed.alarm) ((renewSlot now slot).map Armed.alarm) := by
  cases slot with
  | none => exact .none
  | some a =>
      obtain ⟨t, repetition, due⟩ := a
      by_cases hdue : due ≤ now
      · rw [renewSlot, if_pos hdue]
        cases repetition with
        | once => exact .once hdue
        | every period => exact .every hdue (Armed.isLeast_nextDue period hdue)
      · rw [renewSlot, if_neg hdue]
        exact .early (Nat.lt_of_not_le hdue)

theorem agenda_arm (h : ts.Sound) (a : Armed) :
    (ts.arm a).agenda = ts.agenda.set a.timer (some a.alarm) := by
  refine Agenda.ext (funext fun t => ?_) (now_arm a ts)
  show ((ts.arm a).find? t).map Armed.alarm = _
  simp only [find?_arm h, Agenda.set, Function.update_apply]
  split <;> rfl

theorem agenda_stop (t : Timer) (ts : Timers) : (ts.stop t).agenda = ts.agenda.set t none := by
  refine Agenda.ext (funext fun u => ?_) rfl
  show ((ts.stop t).find? u).map Armed.alarm = _
  simp only [find?_stop, Agenda.set, Function.update_apply]
  split <;> rfl

theorem alarm?_tick (h : ts.Sound) (elapsed : Nat) (t : Timer) :
    (ts.tick elapsed).2.agenda.alarm? t =
      (renewSlot (ts.now + elapsed) (ts.find? t)).map Armed.alarm := by
  show ((ts.tick elapsed).2.find? t).map Armed.alarm = _
  rw [find?_tick h]
  cases ts.find? t <;> rfl

/-- The timers that are reported stand in the order of their slots. -/
theorem tick_sublist_occupants (elapsed : Nat) (ts : Timers) :
    (ts.tick elapsed).1.Sublist (occupants ts.slots) := by
  show (ts.slots.filterMap (dueTimer? (ts.now + elapsed))).Sublist _
  induction ts.slots with
  | nil => exact .refl _
  | cons slot rest ih =>
      cases slot with
      | none => exact ih
      | some a =>
          by_cases hdue : a.due ≤ ts.now + elapsed
          · simpa [dueTimer?, hdue] using ih.cons_cons a.timer
          · simpa [dueTimer?, hdue] using ih.cons a.timer

/-- No timer is reported twice. -/
theorem nodup_tick (h : ts.Sound) (elapsed : Nat) : (ts.tick elapsed).1.Nodup :=
  h.nodup.sublist (tick_sublist_occupants elapsed ts)

/-- Time that passes for the slots passes in the same way for the agenda. -/
theorem step_tick_iff (h : ts.Sound) {elapsed : Nat} :
    ts.agenda.Step (.tick elapsed) fired m ↔
      m = (ts.tick elapsed).2.agenda ∧ (ts.tick elapsed).1.Perm fired := by
  have hfired (t : Timer) : t ∈ (ts.tick elapsed).1 ↔
      ∃ a, ts.agenda.alarm? t = some a ∧ a.due ≤ ts.now + elapsed := by
    rw [mem_tick_iff h]
    simp [agenda, Armed.alarm]
  constructor
  · intro hstep
    cases hstep with
    | tick hnow hnodup hfired' halarms =>
        have hnow : m.now = ts.now + elapsed := hnow
        refine ⟨Agenda.ext (funext fun t => ?_) hnow, ?_⟩
        · rw [alarm?_tick h, ← hnow]
          exact (halarms t).unique (passes_renewSlot _ _)
        · refine (List.perm_ext_iff_of_nodup (nodup_tick h elapsed) hnodup).2 fun t => ?_
          rw [hfired, hfired', hnow]
  · intro hstep
    obtain ⟨rfl, hperm⟩ := hstep
    refine .tick rfl (hperm.nodup_iff.1 (nodup_tick h elapsed)) (fun t => ?_) fun t => ?_
    · rw [← hperm.mem_iff]
      exact hfired t
    · rw [alarm?_tick h]
      exact passes_renewSlot _ _

/-- A step of the slots is the only step of the agenda that they stand for. -/
theorem step_iff (h : ts.Sound) :
    ts.agenda.Step s fired m ↔ m = (ts.step s).2.agenda ∧ (ts.step s).1.Perm fired := by
  cases s with
  | tick elapsed => exact step_tick_iff h
  | startPeriodic t first period =>
      rw [step, startPeriodic, agenda_arm h, List.nil_perm]
      refine ⟨fun hstep => ?_, fun hstep => ?_⟩
      · cases hstep
        exact ⟨rfl, rfl⟩
      · obtain ⟨rfl, rfl⟩ := hstep
        exact .startPeriodic t first period
  | startOnce t delay =>
      rw [step, startOnce, agenda_arm h, List.nil_perm]
      refine ⟨fun hstep => ?_, fun hstep => ?_⟩
      · cases hstep
        exact ⟨rfl, rfl⟩
      · obtain ⟨rfl, rfl⟩ := hstep
        exact .startOnce t delay
  | stop t =>
      rw [step, agenda_stop, List.nil_perm]
      refine ⟨fun hstep => ?_, fun hstep => ?_⟩
      · cases hstep
        exact ⟨rfl, rfl⟩
      · obtain ⟨rfl, rfl⟩ := hstep
        exact .stop t

/-- The same of any number of steps. -/
theorem run_iff (h : ts.Sound) {steps : List TimerStep} {reports : List (List Timer)} :
    ts.agenda.Run steps reports m ↔
      m = (ts.run steps).2.agenda ∧ List.Forall₂ List.Perm (ts.run steps).1 reports := by
  induction steps generalizing ts reports with
  | nil =>
      refine ⟨fun hrun => ?_, fun hrun => ?_⟩
      · cases hrun
        exact ⟨rfl, .nil⟩
      · obtain ⟨rfl, hreports⟩ := hrun
        cases hreports
        exact .nil _
  | cons s steps ih =>
      refine ⟨fun hrun => ?_, fun hrun => ?_⟩
      · cases hrun with
        | cons hstep hrun =>
            obtain ⟨rfl, hperm⟩ := (step_iff h).1 hstep
            obtain ⟨rfl, hreports⟩ := (ih (h.step s)).1 hrun
            exact ⟨rfl, .cons hperm hreports⟩
      · obtain ⟨rfl, hreports⟩ := hrun
        cases hreports with
        | cons hperm hreports =>
            exact .cons ((step_iff h).2 ⟨rfl, hperm⟩) ((ih (h.step s)).2 ⟨rfl, hreports⟩)

/-- Whatever is started and stopped, and however time passes: the slots report what an agenda
reports and stand for its alarms, each timer that runs in a slot of its own. -/
theorem refines_agenda (steps : List TimerStep) :
    (∀ reports m, Agenda.initial.Run steps reports m ↔
      m = (initial.run steps).2.agenda ∧ List.Forall₂ List.Perm (initial.run steps).1 reports) ∧
    (occupants (initial.run steps).2.slots).Nodup ∧
    (∀ t alarm, (initial.run steps).2.agenda.alarm? t = some alarm ↔
      some ⟨t, alarm.repetition, alarm.due⟩ ∈ (initial.run steps).2.slots) ∧
    ∀ t, (initial.run steps).2.isRunning t = true ↔
      ((initial.run steps).2.agenda.alarm? t).isSome = true := by
  have hsound := sound_initial.run steps
  refine ⟨fun reports m => run_iff sound_initial, hsound.nodup, fun t alarm => ?_, fun t => ?_⟩
  · show ((initial.run steps).2.find? t).map Armed.alarm = some alarm ↔ _
    rw [Option.map_eq_some_iff]
    constructor
    · rintro ⟨a, ha, rfl⟩
      obtain ⟨hslot, rfl⟩ := (find?_eq_some_iff hsound).1 ha
      exact hslot
    · intro hslot
      exact ⟨_, (find?_eq_some_iff hsound).2 ⟨hslot, rfl⟩, rfl⟩
  · show _ ↔ (((initial.run steps).2.find? t).map Armed.alarm).isSome = true
    rw [isRunning_eq_isSome, Option.isSome_map]

end Timers

end MeshLight
