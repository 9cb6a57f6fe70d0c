import MeshLight.Proofs.Exchange
import MeshLight.Proofs.Timers.Table

/-!
# MeshLight.Proofs.Timers.Serves

Timers that answer the calls of a log (`Timers.Serves`). What a log leaves of a timer is decided by
the last call in it that starts or stops that timer (`Serves.find?`); all other calls, those to
stack and board included, leave the timers alone. Surroundings with timers in them serve every
program that runs in them (`KeepsTimers.serves`).
-/

namespace MeshLight

open Prog

/-! ## starts and stops -/

/-- The timer that a call starts or stops. -/
def TimerCall.sets? : TimerCall → Option Timer
  | .startPeriodic t _ _ | .startOnce t _ | .stop t => some t
  | .isRunning _ | .now => none

/-- The entry that a call leaves of the timer that it starts or stops. -/
def TimerCall.leaves? (now : Nat) : TimerCall → Option Armed
  | .startPeriodic t first period => some ⟨t, .every period, now + first⟩
  | .startOnce t delay => some ⟨t, .once, now + delay⟩
  | .stop _ | .isRunning _ | .now => none

/-- A call that starts or stops a timer. -/
def Call.setting? : Call → Option TimerCall
  | .timer c => if c.sets?.isSome then some c else none
  | _ => none

/-- The calls of a log that start or stop a timer, in their order. -/
def settings (log : List Exchange) : List TimerCall := log.filterMap fun x => x.call.setting?

@[simp] theorem settings_nil : settings [] = [] := rfl

@[simp] theorem settings_append (first rest : List Exchange) :
    settings (first ++ rest) = settings first ++ settings rest :=
  collect_append first rest

@[simp] theorem settings_cons (x : Exchange) (log : List Exchange) :
    settings (x :: log) = x.call.setting?.toList ++ settings log :=
  collect_cons x log

theorem settings_eq_nil_iff {log : List Exchange} :
    settings log = [] ↔ ∀ x ∈ log, x.call.setting? = none :=
  collect_eq_nil_iff

theorem settings_of_timers {log : List Exchange} {calls : List TimerCall}
    (h : log.map Exchange.call = calls.map Call.timer) :
    settings log = calls.filterMap fun c => (Call.timer c).setting? :=
  collect_of_timers h

/-- The last call of a list that starts or stops the given timer. -/
def lastSetting (t : Timer) (calls : List TimerCall) : Option TimerCall :=
  calls.reverse.find? fun c => c.sets? = some t

theorem lastSetting_append (t : Timer) (first rest : List TimerCall) :
    lastSetting t (first ++ rest) = (lastSetting t rest).or (lastSetting t first) := by
  simp [lastSetting, List.find?_append]

theorem lastSetting_eq_some {t : Timer} {calls : List TimerCall} {c : TimerCall}
    (h : lastSetting t calls = some c) : c ∈ calls ∧ c.sets? = some t := by
  refine ⟨?_, by simpa using List.find?_some h⟩
  simpa using List.mem_of_find?_eq_some h

theorem lastSetting_setting? (t : Timer) (c : TimerCall) :
    lastSetting t (Call.timer c).setting?.toList = if c.sets? = some t then some c else none := by
  cases h : c.sets? <;> simp [Call.setting?, h, lastSetting]

/-! ## serving -/

namespace Timers

variable {ts ts' : Timers} {log : List Exchange}

/-- The timers answer their calls in a log, and are `ts'` afterwards. Nothing is said about the
answers to other calls. -/
def Serves : List Exchange → Timers → Timers → Prop
  | [], ts, ts' => ts' = ts
  | ⟨.timer c, reply⟩ :: rest, ts, ts' =>
    reply = (answer c ts).1 ∧ Serves rest (answer c ts).2 ts'
  | _ :: rest, ts, ts' => Serves rest ts ts'

theorem serves_append_iff {first rest : List Exchange} :
    Serves (first ++ rest) ts ts' ↔ ∃ mid, Serves first ts mid ∧ Serves rest mid ts' := by
  induction first generalizing ts with
  | nil => simp [Serves]
  | cons x first ih =>
      obtain ⟨c, reply⟩ := x
      cases c with
      | timer c => simp only [List.cons_append, Serves, ih, and_assoc, exists_and_left]
      | mesh c | board c | emit c => exact ih

theorem Sound.answer (h : ts.Sound) (c : TimerCall) : (Timers.answer c ts).2.Sound := by
  cases c with
  | startPeriodic | startOnce => exact h.arm _
  | stop => exact h.stop _
  | isRunning | now => exact h

theorem now_answer (c : TimerCall) (ts : Timers) : (answer c ts).2.now = ts.now := by
  cases c with
  | startPeriodic | startOnce => exact now_arm _ ts
  | stop | isRunning | now => rfl

/-- A call decides the entry of the timer that it starts or stops, and of no other. -/
theorem find?_answer (h : ts.Sound) (c : TimerCall) (t : Timer) :
    (answer c ts).2.find? t = if c.sets? = some t then c.leaves? ts.now else ts.find? t := by
  cases c with
  | startPeriodic u first period =>
      rw [answer, startPeriodic, find?_arm h]
      simp [TimerCall.sets?, TimerCall.leaves?, eq_comm]
  | startOnce u delay =>
      rw [answer, startOnce, find?_arm h]
      simp [TimerCall.sets?, TimerCall.leaves?, eq_comm]
  | stop u =>
      rw [answer, find?_stop]
      simp [TimerCall.sets?, TimerCall.leaves?, eq_comm]
  | isRunning | now => simp [answer, TimerCall.sets?]

theorem Serves.now (h : Serves log ts ts') : ts'.now = ts.now := by
  induction log generalizing ts with
  | nil => rw [show ts' = ts from h]
  | cons x log ih =>
      obtain ⟨c, reply⟩ := x
      cases c with
      | timer c => exact (ih h.2).trans (now_answer c ts)
      | mesh c | board c | emit c =>
          have hrest : Serves log ts ts' := h
          exact ih hrest

theorem Serves.sound (h : Serves log ts ts') (hsound : ts.Sound) : ts'.Sound := by
  induction log generalizing ts with
  | nil => rw [show ts' = ts from h]; exact hsound
  | cons x log ih =>
      obtain ⟨c, reply⟩ := x
      cases c with
      | timer c => exact ih h.2 (hsound.answer c)
      | mesh c | board c | emit c =>
          have hrest : Serves log ts ts' := h
          exact ih hrest hsound

/-- What a log leaves of a timer: what its last start or stop does, or else what there was. -/
theorem Serves.find? (h : Serves log ts ts') (hsound : ts.Sound) (t : Timer) :
    ts'.find? t = match lastSetting t (settings log) with
      | some c => c.leaves? ts.now
      | none => ts.find? t := by
  induction log generalizing ts with
  | nil => rw [show ts' = ts from h]; rfl
  | cons x log ih =>
      obtain ⟨c, reply⟩ := x
      cases c with
      | mesh c | board c | emit c =>
          have hrest : Serves log ts ts' := h
          exact ih hrest hsound
      | timer c =>
          rw [ih h.2 (hsound.answer c), settings_cons, lastSetting_append, lastSetting_setting?,
            now_answer, find?_answer hsound]
          cases lastSetting t (settings log) with
          | some later => rfl
          | none => by_cases hset : c.sets? = some t <;> simp [hset]

/-- A log that starts and stops no timer leaves the timers as they are. -/
theorem Serves.eq_of_settings (h : Serves log ts ts') (hnone : settings log = []) : ts' = ts := by
  induction log generalizing ts with
  | nil => exact h
  | cons x log ih =>
      obtain ⟨c, reply⟩ := x
      rw [settings_cons, List.append_eq_nil_iff] at hnone
      cases c with
      | mesh c | board c | emit c =>
          have hrest : Serves log ts ts' := h
          exact ih hrest hnone.2
      | timer c =>
          have hsame : (answer c ts).2 = ts := by
            cases c with
            | isRunning | now => rfl
            | startPeriodic | startOnce | stop => cases hnone.1
          have hrest := ih h.2 hnone.2
          rwa [hsame] at hrest

end Timers

/-! ## surroundings with timers -/

/-- The surroundings hold timers: these answer their calls, and other calls leave them alone. -/
structure KeepsTimers (answer : (c : Call) → σ → c.Answer × σ) (timers : σ → Timers) : Prop where
  timer : ∀ c s, (answer (.timer c) s).1 = (Timers.answer c (timers s)).1 ∧
    timers (answer (.timer c) s).2 = (Timers.answer c (timers s)).2
  mesh : ∀ c s, timers (answer (.mesh c) s).2 = timers s
  board : ∀ c s, timers (answer (.board c) s).2 = timers s
  emit : ∀ n s, timers (answer (.emit n) s).2 = timers s

theorem KeepsTimers.serves {answer : (c : Call) → σ → c.Answer × σ} {timers : σ → Timers}
    (h : KeepsTimers answer timers) (p : Prog α) (s : σ) :
    Timers.Serves (p.exchanges answer s) (timers s) (timers (p.run answer s).2) := by
  induction p generalizing s with
  | done a => rfl
  | call c next ih =>
      have hrest := ih (answer c s).1 (answer c s).2
      cases c with
      | timer c =>
          obtain ⟨hreply, htimers⟩ := h.timer c s
          rw [htimers] at hrest
          exact ⟨hreply, hrest⟩
      | mesh c => rw [h.mesh] at hrest; exact hrest
      | board c => rw [h.board] at hrest; exact hrest
      | emit n => rw [h.emit] at hrest; exact hrest

end MeshLight
