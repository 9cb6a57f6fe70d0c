import Mathlib.Data.List.Count
import Mathlib.Data.List.Nodup
import MeshLight.Event
import MeshLight.Proofs.Timers.Agenda

/-!
# MeshLight.Proofs.Timers.Feed

Timers that feed a queue (`Feed`). When time passes, each timer that is reported is queued as an
expiry; others queue events of their own, and the oldest event is taken out, all in any order. What
comes out was accepted before, and in the same order (`Feed.queue_append_accepted`). A timer that is
due once leaves its slot when it is reported, whether or not the queue has room. So its expiry comes
out once if there was room for it at that moment, and never if there was none
(`Feed.expiry_accepted_iff_room`).
-/

namespace MeshLight

/-! ## the queue -/

namespace EventQueue

/-- A queue takes events as long as it has room. -/
theorem events_pushTimers (timers : List Timer) (q : EventQueue) :
    (q.pushTimers timers).events =
      q.events ++ (timers.take (capacity - q.events.length)).map .timerFired := by
  induction timers generalizing q with
  | nil => simp [pushTimers]
  | cons t timers ih =>
      rw [pushTimers, List.foldl_cons, ← pushTimers, ih]
      by_cases hroom : q.events.length < capacity
      · obtain ⟨room, hsub⟩ : ∃ room, capacity - q.events.length = room + 1 :=
          ⟨capacity - q.events.length - 1, by omega⟩
        have hrest : capacity - (q.events ++ [Event.timerFired t]).length = room := by
          rw [List.length_append, List.length_singleton]
          omega
        rw [push_of_lt hroom, hrest, hsub]
        simp
      · rw [push_of_le (Nat.le_of_not_lt hroom), Nat.sub_eq_zero_of_le (Nat.le_of_not_lt hroom)]
        simp

end EventQueue

/-! ## timers and queue -/

/-- Timers, and the queue that they feed. -/
structure Feed where
  timers : Timers
  queue : EventQueue
  deriving DecidableEq

/-- A step of the timers, an event that is queued by others, or the oldest event that is taken out. A
queue is drained by taking out events until none is left. -/
inductive FeedStep where
  | timers (step : TimerStep)
  | push (event : Event)
  | pop
  deriving DecidableEq

namespace Feed

def initial : Feed := ⟨.initial, .empty⟩

/-- Takes a step. -/
def step (f : Feed) : FeedStep → Feed
  | .timers s => ⟨(f.timers.step s).2, f.queue.pushTimers (f.timers.step s).1⟩
  | .push event => { f with queue := (f.queue.push event).2 }
  | .pop =>
    match f.queue.pop? with
    | none => f
    | some (_, queue) => { f with queue := queue }

/-- The events that the queue accepts in a step. -/
def acceptedBy (f : Feed) (s : FeedStep) : List Event :=
  (f.step s).queue.events.drop f.queue.events.length

/-- The event that is taken out in a step. -/
def poppedBy (f : Feed) : FeedStep → List Event
  | .pop => (f.queue.pop?.map Prod.fst).toList
  | _ => []

/-- Takes steps one after the other. -/
def after : List FeedStep → Feed → Feed
  | [], f => f
  | s :: steps, f => after steps (f.step s)

/-- The events that the queue accepts on the way. -/
def accepted : List FeedStep → Feed → List Event
  | [], _ => []
  | s :: steps, f => f.acceptedBy s ++ accepted steps (f.step s)

/-- The events that are taken out on the way. -/
def popped : List FeedStep → Feed → List Event
  | [], _ => []
  | s :: steps, f => f.poppedBy s ++ popped steps (f.step s)

variable {f : Feed} {t : Timer} {due elapsed : Nat}

/-! ## first in, first out -/

theorem events_step_timers (f : Feed) (s : TimerStep) :
    (f.step (.timers s)).queue.events = f.queue.events ++
      ((f.timers.step s).1.take (EventQueue.capacity - f.queue.events.length)).map .timerFired :=
  EventQueue.events_pushTimers _ f.queue

theorem acceptedBy_timers (f : Feed) (s : TimerStep) :
    f.acceptedBy (.timers s) =
      ((f.timers.step s).1.take (EventQueue.capacity - f.queue.events.length)).map .timerFired := by
  rw [acceptedBy, events_step_timers, List.drop_left]

theorem acceptedBy_pop (f : Feed) : f.acceptedBy .pop = [] := by
  obtain ⟨timers, ⟨events⟩⟩ := f
  cases events with
  | nil => rfl
  | cons event events => exact List.drop_eq_nil_of_le (Nat.le_succ _)

/-- What waits and what is accepted is what is taken out and what waits then. -/
theorem queue_append_acceptedBy (f : Feed) (s : FeedStep) :
    f.queue.events ++ f.acceptedBy s = f.poppedBy s ++ (f.step s).queue.events := by
  cases s with
  | timers s => rw [acceptedBy_timers, ← events_step_timers]; rfl
  | push event =>
      by_cases hroom : f.queue.events.length < EventQueue.capacity
      · simp [acceptedBy, poppedBy, step, EventQueue.push_of_lt hroom]
      · simp [acceptedBy, poppedBy, step, EventQueue.push_of_le (Nat.le_of_not_lt hroom)]
  | pop =>
      rw [acceptedBy_pop, List.append_nil]
      obtain ⟨timers, ⟨events⟩⟩ := f
      cases events <;> rfl

theorem queue_append_accepted (steps : List FeedStep) (f : Feed) :
    f.queue.events ++ f.accepted steps = f.popped steps ++ (f.after steps).queue.events := by
  induction steps generalizing f with
  | nil => rw [accepted, popped, after, List.append_nil, List.nil_append]
  | cons s steps ih =>
      rw [accepted, popped, after, ← List.append_assoc, queue_append_acceptedBy, List.append_assoc,
        ih, List.append_assoc]

/-! ## expiries -/

end Feed

/-- A step that neither starts nor stops a timer, and does not queue its expiry from elsewhere. -/
def FeedStep.Spares (t : Timer) : FeedStep → Prop
  | .timers (.startPeriodic u _ _) | .timers (.startOnce u _) | .timers (.stop u) => u ≠ t
  | .push event => event ≠ .timerFired t
  | .timers (.tick _) | .pop => True

namespace Feed

variable {f : Feed} {t : Timer} {due elapsed : Nat} {wait : List FeedStep}

/-- The steps spare a timer that is due at a point, and whenever time passes that ends before the
point. -/
def Awaits (t : Timer) (due : Nat) : List FeedStep → Feed → Prop
  | [], _ => True
  | s :: steps, f =>
    s.Spares t ∧ (∀ elapsed, s = .timers (.tick elapsed) → f.timers.now + elapsed < due) ∧
      Awaits t due steps (f.step s)

theorem sound_step (h : f.timers.Sound) (s : FeedStep) : (f.step s).timers.Sound := by
  cases s with
  | timers s => exact h.step s
  | push event => exact h
  | pop => rw [step]; split <;> exact h

/-- A timer that is spared, and is not due yet, goes on, and no expiry of it is queued. -/
theorem spared (h : f.timers.Sound) (ht : f.timers.find? t = some ⟨t, .once, due⟩) {s : FeedStep}
    (hspares : s.Spares t)
    (hbefore : ∀ elapsed, s = .timers (.tick elapsed) → f.timers.now + elapsed < due) :
    (f.step s).timers.find? t = some ⟨t, .once, due⟩ ∧ .timerFired t ∉ f.acceptedBy s := by
  cases s with
  | timers s =>
      rw [acceptedBy_timers]
      cases s with
      | startPeriodic u | startOnce u =>
          refine ⟨?_, by simp [Timers.step]⟩
          show (f.timers.arm _).find? t = _
          rw [Timers.find?_arm h, if_neg (Ne.symm hspares), ht]
      | stop u =>
          refine ⟨?_, by simp [Timers.step]⟩
          show (f.timers.stop u).find? t = _
          rw [Timers.find?_stop, if_neg (Ne.symm hspares), ht]
      | tick elapsed =>
          have hnot : ¬due ≤ f.timers.now + elapsed := Nat.not_le.2 (hbefore elapsed rfl)
          refine ⟨?_, fun hmem => ?_⟩
          · show (f.timers.tick elapsed).2.find? t = _
            rw [Timers.find?_tick h, ht, Option.bind_some, Timers.renewSlot, if_neg hnot]
          · obtain ⟨u, hfired, hut⟩ := List.mem_map.1 hmem
            cases hut
            obtain ⟨a, ha, hdue⟩ := (Timers.mem_tick_iff h).1 (List.mem_of_mem_take hfired)
            rw [ht] at ha
            cases ha
            exact hnot hdue
  | push event =>
      refine ⟨ht, fun hmem => hspares ?_⟩
      by_cases hroom : f.queue.events.length < EventQueue.capacity
      · simpa [acceptedBy, step, EventQueue.push_of_lt hroom, eq_comm] using hmem
      · simp [acceptedBy, step, EventQueue.push_of_le (Nat.le_of_not_lt hroom)] at hmem
  | pop =>
      rw [acceptedBy_pop]
      refine ⟨?_, List.not_mem_nil⟩
      rw [step]
      split <;> exact ht

/-- The same of any number of steps before the timer is due. -/
theorem Awaits.spared (hwait : f.Awaits t due wait) (h : f.timers.Sound)
    (ht : f.timers.find? t = some ⟨t, .once, due⟩) :
    (f.after wait).timers.Sound ∧ (f.after wait).timers.find? t = some ⟨t, .once, due⟩ ∧
      .timerFired t ∉ f.accepted wait := by
  induction wait generalizing f with
  | nil => exact ⟨h, ht, List.not_mem_nil⟩
  | cons s wait ih =>
      obtain ⟨hspares, hbefore, hwait⟩ := hwait
      obtain ⟨hstill, hfirst⟩ := Feed.spared h ht hspares hbefore
      obtain ⟨hsound, hlast, hrest⟩ := ih hwait (sound_step h s) hstill
      refine ⟨hsound, hlast, fun hmem => ?_⟩
      exact (List.mem_append.1 hmem).elim hfirst hrest

/-- The expiry of a timer that has become due is accepted once if the queue has room for it and for
those that are reported ahead of it. -/
theorem count_acceptedBy_tick (h : f.timers.Sound) (ht : t ∈ (f.timers.tick elapsed).1) :
    (f.acceptedBy (.timers (.tick elapsed))).count (.timerFired t) =
      if f.queue.events.length + (f.timers.tick elapsed).1.idxOf t < EventQueue.capacity then 1
      else 0 := by
  rw [acceptedBy_timers, List.count_map_of_injective _ _ fun _ _ => Event.timerFired.inj]
  show ((f.timers.tick elapsed).1.take _).count t = _
  by_cases hroom : f.queue.events.length + (f.timers.tick elapsed).1.idxOf t < EventQueue.capacity
  · rw [if_pos hroom]
    have hnodup := (Timers.nodup_tick h elapsed).sublist (List.take_sublist
      (EventQueue.capacity - f.queue.events.length) _)
    refine List.count_eq_one_of_mem hnodup ?_
    exact (List.mem_take_iff_idxOf_lt ht).2 (by omega)
  · rw [if_neg hroom]
    refine List.count_eq_zero_of_not_mem fun hmem => hroom ?_
    have := (List.mem_take_iff_idxOf_lt ht).1 hmem
    omega

/-- A timer that is due once, and is neither stopped nor started again until then, is reported once
when time first reaches the point, and leaves its slot. The queue accepts its expiry, once, exactly
if there is room behind what waits and the timers that are reported ahead of it; and when the queue
is drained, all that it has accepted has come out, in order and nothing else. -/
theorem expiry_accepted_iff_room (h : f.timers.Sound)
    (ht : f.timers.find? t = some ⟨t, .once, due⟩) (hwait : f.Awaits t due wait)
    (hdue : due ≤ (f.after wait).timers.now + elapsed) :
    let f₁ := f.after wait
    let f₂ := f₁.step (.timers (.tick elapsed))
    .timerFired t ∉ f.accepted wait ∧
    (f₁.timers.tick elapsed).1.count t = 1 ∧ f₂.timers.find? t = none ∧
    (f₁.acceptedBy (.timers (.tick elapsed))).count (.timerFired t) =
      (if f₁.queue.events.length + (f₁.timers.tick elapsed).1.idxOf t < EventQueue.capacity then 1
      else 0) ∧
    ∀ later, (f₂.after later).queue.events = [] →
      f₂.popped later =
        f₁.queue.events ++ f₁.acceptedBy (.timers (.tick elapsed)) ++ f₂.accepted later := by
  intro f₁ f₂
  obtain ⟨hsound, hstill, hnone⟩ := hwait.spared h ht
  have hfired : t ∈ (f₁.timers.tick elapsed).1 :=
    (Timers.mem_tick_iff hsound).2 ⟨_, hstill, hdue⟩
  refine ⟨hnone, List.count_eq_one_of_mem (Timers.nodup_tick hsound elapsed) hfired, ?_,
    count_acceptedBy_tick hsound hfired, fun later hdrained => ?_⟩
  · show (f₁.timers.tick elapsed).2.find? t = none
    rw [Timers.find?_tick hsound, hstill, Option.bind_some, Timers.renewSlot, if_pos hdue]
    rfl
  · have hfifo := queue_append_accepted later f₂
    rw [hdrained, List.append_nil] at hfifo
    rw [← hfifo, queue_append_acceptedBy f₁ (.timers (.tick elapsed))]
    rfl

/-! ### a burst of events -/

/-- The left half is to be switched off in a second. -/
def leftSwitchingOff : Feed := initial.step (.timers (.startOnce (.lightOff .left) 1000))

/-- Events that others queue spare every timer. -/
theorem awaits_replicate_push {event : Event} (hevent : event ≠ .timerFired t) (n : Nat) (f : Feed) :
    f.Awaits t due (List.replicate n (.push event)) := by
  induction n generalizing f with
  | zero => trivial
  | succ n ih => exact ⟨hevent, nofun, ih _⟩

/-- Thirty-one requests for a report leave room for the switch-off. -/
theorem expiry_accepted_iff_room_last :
    leftSwitchingOff.timers.Sound ∧
    leftSwitchingOff.timers.find? (.lightOff .left) = some ⟨.lightOff .left, .once, 1000⟩ ∧
    leftSwitchingOff.Awaits (.lightOff .left) 1000 (List.replicate 31 (.push .reportRequested)) ∧
    1000 ≤ (leftSwitchingOff.after (List.replicate 31 (.push .reportRequested))).timers.now + 1000 ∧
    ((leftSwitchingOff.after (List.replicate 31 (.push .reportRequested))).step
        (.timers (.tick 1000))).popped (List.replicate 32 .pop) =
      List.replicate 31 .reportRequested ++ [.timerFired (.lightOff .left)] := by
  have hsound : leftSwitchingOff.timers.Sound := Timers.sound_initial.arm _
  have hset : leftSwitchingOff.timers.find? (.lightOff .left) =
      some ⟨.lightOff .left, .once, 1000⟩ := rfl
  have hwait : leftSwitchingOff.Awaits (.lightOff .left) 1000
      (List.replicate 31 (.push .reportRequested)) := awaits_replicate_push (by simp) 31 _
  have hdue : 1000 ≤
      (leftSwitchingOff.after (List.replicate 31 (.push .reportRequested))).timers.now + 1000 := by
    decide
  obtain ⟨-, -, -, -, hpopped⟩ := expiry_accepted_iff_room hsound hset hwait hdue
  have hout := hpopped (List.replicate 32 .pop) (by decide +kernel)
  exact ⟨hsound, hset, hwait, hdue, hout.trans (by decide +kernel)⟩

/-- Thirty-two of them leave none: the switch-off is due and leaves its slot, and when the queue has
been drained only the requests have come out. -/
theorem switch_off_lost_in_burst :
    leftSwitchingOff.timers.find? (.lightOff .left) = some ⟨.lightOff .left, .once, 1000⟩ ∧
    leftSwitchingOff.Awaits (.lightOff .left) 1000 (List.replicate 32 (.push .reportRequested)) ∧
    (leftSwitchingOff.after (List.replicate 32 (.push .reportRequested) ++
      .timers (.tick 1000) :: List.replicate 33 .pop)) = ⟨⟨List.replicate 4 none, 1000⟩, .empty⟩ ∧
    leftSwitchingOff.popped (List.replicate 32 (.push .reportRequested) ++
      .timers (.tick 1000) :: List.replicate 33 .pop) = List.replicate 32 .reportRequested :=
  ⟨rfl, awaits_replicate_push (by simp) 32 _, by decide +kernel, by decide +kernel⟩

end Feed

end MeshLight
