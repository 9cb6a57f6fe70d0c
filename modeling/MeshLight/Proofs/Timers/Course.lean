import MeshLight.Proofs.Timers.Reports

/-!
# MeshLight.Proofs.Timers.Course

The node together with its queue and its timers (`Course`). Each event that waits carries the number
of events that had been dealt with when it was queued. Events are dealt with in the order in which
they came, so what waits behind an event is dealt with before anything that is queued later
(`Course.fifo`). Surroundings that hold the timers take an engine along a course
(`Course.exists_deal`).
-/

namespace MeshLight

open Prog

/-! ## the queue -/

/-- An event that waits, and the number of events that had been dealt with when it was queued. -/
structure Waiting where
  event : Event
  stamp : Nat
  deriving DecidableEq

/-- Queues an event. A full queue drops it. -/
def enqueue (stamp : Nat) (queue : List Waiting) (event : Event) : List Waiting :=
  if queue.length < EventQueue.capacity then queue ++ [⟨event, stamp⟩] else queue

/-- Queues events, one after the other. -/
def enqueueAll (stamp : Nat) (queue : List Waiting) (events : List Event) : List Waiting :=
  events.foldl (enqueue stamp) queue

variable {stamp : Nat} {queue : List Waiting} {event : Event} {events : List Event}

theorem map_event_enqueue :
    (enqueue stamp queue event).map Waiting.event =
      (EventQueue.push event ⟨queue.map Waiting.event⟩).2.events := by
  unfold enqueue EventQueue.push
  simp only [List.length_map]
  split <;> simp

/-- What is queued comes last and carries the given number. -/
theorem enqueueAll_eq_append :
    ∃ new, enqueueAll stamp queue events = queue ++ new ∧
      ∀ w ∈ new, w.event ∈ events ∧ w.stamp = stamp := by
  induction events generalizing queue with
  | nil => exact ⟨[], (List.append_nil queue).symm, nofun⟩
  | cons event events ih =>
      obtain ⟨new, hnew, hnewest⟩ := @ih (enqueue stamp queue event)
      rw [enqueueAll, List.foldl_cons, ← enqueueAll, hnew]
      unfold enqueue
      split
      · refine ⟨⟨event, stamp⟩ :: new, by simp, fun w hw => ?_⟩
        obtain rfl | hw := List.mem_cons.1 hw
        · exact ⟨List.mem_cons_self .., rfl⟩
        · exact ⟨List.mem_cons_of_mem _ (hnewest w hw).1, (hnewest w hw).2⟩
      · exact ⟨new, rfl, fun w hw => ⟨List.mem_cons_of_mem _ (hnewest w hw).1, (hnewest w hw).2⟩⟩

theorem mem_enqueueAll {w : Waiting} (h : w ∈ enqueueAll stamp queue events) :
    w ∈ queue ∨ w.event ∈ events ∧ w.stamp = stamp := by
  obtain ⟨new, hnew, hnewest⟩ := enqueueAll_eq_append
  rw [hnew] at h
  exact (List.mem_append.1 h).imp_right (hnewest w)

/-- A queue with room for all of the events takes them all. -/
theorem mem_enqueueAll_of_mem (hroom : queue.length + events.length ≤ EventQueue.capacity)
    (hmem : event ∈ events) : ⟨event, stamp⟩ ∈ enqueueAll stamp queue events := by
  induction events generalizing queue with
  | nil => cases hmem
  | cons first rest ih =>
      rw [List.length_cons] at hroom
      have hqueued : enqueue stamp queue first = queue ++ [⟨first, stamp⟩] := if_pos (by omega)
      rw [enqueueAll, List.foldl_cons, ← enqueueAll, hqueued]
      obtain rfl | hmem := List.mem_cons.1 hmem
      · obtain ⟨new, hnew, -⟩ := enqueueAll_eq_append
        rw [hnew]
        simp
      · exact ih (by simp; omega) hmem

/-- An expiry that waits after time has passed waited before, or else its timer has become due. -/
theorem mem_enqueueAll_tick {ts : Timers} {elapsed : Nat} {timer : Timer} {w : Waiting}
    (h : w ∈ enqueueAll stamp queue ((ts.tick elapsed).1.map .timerFired)) (hsound : ts.Sound)
    (hexpiry : w.event = .timerFired timer) :
    w ∈ queue ∨ (∃ a, ts.find? timer = some a ∧ a.due ≤ ts.now + elapsed) ∧ w.stamp = stamp := by
  refine (mem_enqueueAll h).imp_right fun hnew => ?_
  obtain ⟨hmem, hstamp⟩ := hnew
  rw [hexpiry] at hmem
  have hfired := (List.mem_map_of_injective fun _ _ => Event.timerFired.inj).1 hmem
  exact ⟨(Timers.mem_tick_iff hsound).1 hfired, hstamp⟩

/-! ## courses -/

/-- An event that was dealt with: the turn, the time at its beginning, and what waited behind the
event then. -/
structure Dealt where
  item : Waiting
  turn : Turn
  clock : Nat
  behind : List Waiting

/-- The courses of a node with its own timers and its queue: the events dealt with so far, and the
engine, the timers and the queue after them. Once the node has started, which does not look at the
queue, anything but an expiry may be queued by others, time may pass, or the oldest event may be
dealt with, in any order; expiries are queued by the timers. -/
inductive Course (config : Config) : List Dealt → Engine → Timers → List Waiting → Prop where
  | start {ts : Timers} (t : Turn) (hnew : Engine.new config = .ok t.before)
      (hinput : t.input = .start) (ht : t.Happens) (hserves : Timers.initial.Serves t.log ts) :
      Course config [] t.after ts []
  | push {dealt : List Dealt} {e : Engine} {ts : Timers} {queue : List Waiting}
      (events : List Event) (hevents : ∀ timer, .timerFired timer ∉ events)
      (course : Course config dealt e ts queue) :
      Course config dealt e ts (enqueueAll dealt.length queue events)
  | tick {dealt : List Dealt} {e : Engine} {ts : Timers} {queue : List Waiting} (elapsed : Nat)
      (course : Course config dealt e ts queue) :
      Course config dealt e (ts.tick elapsed).2
        (enqueueAll dealt.length queue ((ts.tick elapsed).1.map .timerFired))
  | deal {dealt : List Dealt} {ts ts' : Timers} (d : Dealt)
      (course : Course config dealt d.turn.before ts (d.item :: d.behind))
      (hclock : d.clock = ts.now) (hinput : d.turn.input = .event d.item.event)
      (ht : d.turn.Happens) (hserves : ts.Serves d.turn.log ts') :
      Course config (dealt ++ [d]) d.turn.after ts' d.behind

namespace Course

variable {config : Config} {dealt past later : List Dealt} {d : Dealt} {e : Engine} {ts : Timers}

/-- A course is a run with timers, whatever waits. -/
theorem timedRun (course : Course config dealt e ts queue) :
    ∃ t, TimedRun config (t :: dealt.map Dealt.turn) e ts := by
  induction course with
  | start t hnew hinput ht hserves => exact ⟨t, .start t (.new hnew) hinput ht hserves⟩
  | push events hevents course ih => exact ih
  | tick elapsed course ih =>
      obtain ⟨t, run⟩ := ih
      exact ⟨t, run.tick elapsed⟩
  | deal d course hclock hinput ht hserves ih =>
      obtain ⟨t, run⟩ := ih
      refine ⟨t, ?_⟩
      rw [List.map_append, ← List.cons_append]
      exact run.handle d.turn d.item.event (List.cons_ne_nil _ _) hinput ht hserves

theorem sound (course : Course config dealt e ts queue) : ts.Sound := by
  obtain ⟨t, run⟩ := course.timedRun
  exact run.reports_session.1

theorem atRest (course : Course config dealt e ts queue) : ∃ turns, AtRest turns e := by
  obtain ⟨t, run⟩ := course.timedRun
  exact ⟨_, (run.run (List.cons_ne_nil _ _)).atRest.1⟩

theorem config_eq (course : Course config dealt e ts queue) : e.config = config := by
  induction course with
  | start t hnew hinput ht hserves =>
      rw [ht.config fun _ => Engine.state_new hnew]
      obtain ⟨-, interval, hengine⟩ := Engine.eq_of_new hnew
      rw [hengine]
  | push events hevents course ih => exact ih
  | tick elapsed course ih => exact ih
  | deal d course hclock hinput ht hserves ih =>
      rw [ht.config fun hstart => absurd hstart (Turn.ne_start_of_event hinput)]
      exact ih

/-- The course up to one of the events. -/
theorem split (course : Course config (past ++ d :: later) e ts queue) :
    ∃ before after, Course config past d.turn.before before (d.item :: d.behind) ∧
      d.clock = before.now ∧ d.turn.input = .event d.item.event ∧ d.turn.Happens ∧
      before.Serves d.turn.log after ∧
      Course config (past ++ [d]) d.turn.after after d.behind := by
  generalize hdealt : past ++ d :: later = dealt at course
  induction course generalizing later with
  | start => simp at hdealt
  | push events hevents course ih => exact ih hdealt
  | tick elapsed course ih => exact ih hdealt
  | @deal dealt ts ts' last course hclock hinput ht hserves ih =>
      obtain ⟨rfl, rfl, -⟩ | ⟨rest, -, hrest⟩ := append_cons_eq_concat_iff.1 hdealt
      · exact ⟨ts, ts', course, hclock, hinput, ht, hserves, .deal d course hclock hinput ht hserves⟩
      · exact ih hrest

/-- No event was dealt with in the future. -/
theorem clock_le (course : Course config dealt e ts queue) : ∀ d ∈ dealt, d.clock ≤ ts.now := by
  induction course with
  | start => exact fun d hd => absurd hd List.not_mem_nil
  | push events hevents course ih => exact ih
  | tick elapsed course ih => exact fun d hd => Nat.le_add_right_of_le (ih d hd)
  | deal u course hclock hinput ht hserves ih =>
      intro d hd
      rw [hserves.now]
      obtain hd | hd := List.mem_append.1 hd
      · exact ih d hd
      · rw [List.mem_singleton.1 hd]
        exact Nat.le_of_eq hclock

/-! ## first in, first out -/

/-- Nothing waits with a number from the future. -/
theorem stamp_le (course : Course config dealt e ts queue) :
    ∀ w ∈ queue, w.stamp ≤ dealt.length := by
  induction course with
  | start => exact nofun
  | push events hevents course ih | tick elapsed course ih =>
      intro w hw
      obtain hw | ⟨-, hstamp⟩ := mem_enqueueAll hw
      · exact ih w hw
      · exact Nat.le_of_eq hstamp
  | deal d course hclock hinput ht hserves ih =>
      intro w hw
      rw [List.length_append]
      exact Nat.le_add_right_of_le (ih w (List.mem_cons_of_mem _ hw))

/-- What waited behind an event is dealt with first after it; what comes next was queued later. -/
theorem fifo (course : Course config (past ++ d :: later) e ts queue) :
    ∃ new, later.map Dealt.item ++ queue = d.behind ++ new ∧ ∀ w ∈ new, past.length < w.stamp := by
  generalize hdealt : past ++ d :: later = dealt at course
  have hlength : past.length < (past ++ d :: later).length := by simp
  induction course generalizing later with
  | start => simp at hdealt
  | push events hevents course ih | tick elapsed course ih =>
      obtain ⟨new, hnew, hstamps⟩ := ih hdealt hlength
      obtain ⟨newest, hnewest, hstamp⟩ := enqueueAll_eq_append
      refine ⟨new ++ newest, ?_, fun w hw => ?_⟩
      · rw [hnewest, ← List.append_assoc, hnew, List.append_assoc]
      · obtain hw | hw := List.mem_append.1 hw
        · exact hstamps w hw
        · rw [(hstamp w hw).2, ← hdealt]
          exact hlength
  | deal last course hclock hinput ht hserves ih =>
      obtain ⟨-, rfl, rfl⟩ | ⟨rest, rfl, hrest⟩ := append_cons_eq_concat_iff.1 hdealt
      · exact ⟨[], by simp, nofun⟩
      · obtain ⟨new, hnew, hstamps⟩ := ih hrest (by simp)
        refine ⟨new, ?_, hstamps⟩
        rw [← hnew]
        simp

/-! ## surroundings with timers -/

/-- Surroundings that hold the node's timers start the engine along a course. -/
theorem exists_start {e₀ : Engine} (hnew : Engine.new config = .ok e₀)
    {answer : (c : Call) → σ → c.Answer × σ} {timers : σ → Timers}
    (hkeeps : KeepsTimers answer timers) {s : σ} (hs : timers s = .initial) :
    Course config [] (e₀.start.run answer s).1 (timers (e₀.start.run answer s).2) [] := by
  obtain ⟨t, ht, hinput, rfl, -, hlog, hafter⟩ := Engine.exists_turn .start e₀ answer s
  have hserves := hkeeps.serves t.before.start s
  rw [show t.before.start.exchanges answer s = t.log from hlog.symm, hs] at hserves
  rw [← show t.after = (t.before.start.run answer s).1 from hafter]
  exact .start t hnew hinput ht hserves

/-- A course goes on with the oldest event in surroundings that hold the timers. -/
theorem exists_deal {answer : (c : Call) → σ → c.Answer × σ} {timers : σ → Timers}
    (hkeeps : KeepsTimers answer timers) {s : σ} {w : Waiting}
    (course : Course config dealt e (timers s) (w :: queue)) :
    ∃ d, Course config (dealt ++ [d]) ((e.handle w.event).run answer s).1
        (timers ((e.handle w.event).run answer s).2) queue ∧
      d.item = w ∧ d.behind = queue ∧ d.clock = (timers s).now ∧
      d.turn.input = .event w.event ∧
      d.turn.opening = (e.apply w.event).exchanges answer s ∧
      d.turn.log = (e.handle w.event).exchanges answer s ∧
      d.turn.before = e ∧ d.turn.after = ((e.handle w.event).run answer s).1 := by
  obtain ⟨t, ht, hinput, rfl, hopening, hlog, hafter⟩ :=
    Engine.exists_turn (.event w.event) e answer s
  have hserves := hkeeps.serves (t.before.handle w.event) s
  rw [show (t.before.handle w.event).exchanges answer s = t.log from hlog.symm] at hserves
  have hcourse := Course.deal ⟨w, t, (timers s).now, queue⟩ course rfl hinput ht hserves
  rw [show t.after = ((t.before.handle w.event).run answer s).1 from hafter] at hcourse
  exact ⟨_, hcourse, rfl, rfl, rfl, hinput, hopening, hlog, rfl, hafter⟩

/-- A course goes on until nothing waits. -/
theorem exists_dealAll {answer : (c : Call) → σ → c.Answer × σ} {timers : σ → Timers}
    (hkeeps : KeepsTimers answer timers) {s : σ} (course : Course config dealt e (timers s) queue) :
    ∃ later, Course config (dealt ++ later)
        ((Engine.handleAll (queue.map Waiting.event) e).run answer s).1
        (timers ((Engine.handleAll (queue.map Waiting.event) e).run answer s).2) [] ∧
      later.map Dealt.item = queue := by
  induction queue generalizing dealt e s with
  | nil => exact ⟨[], by rwa [List.append_nil], rfl⟩
  | cons w queue ih =>
      obtain ⟨d, hcourse, hitem, -⟩ := course.exists_deal hkeeps
      obtain ⟨later, hlater, hitems⟩ := ih hcourse
      refine ⟨d :: later, ?_, by rw [List.map_cons, hitem, hitems]⟩
      rw [List.append_assoc] at hlater
      rw [List.map_cons, Engine.handleAll, run_bind]
      exact hlater

end Course

end MeshLight
