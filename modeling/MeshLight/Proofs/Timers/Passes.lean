import MeshLight.Node
import MeshLight.Proofs.Timers.Course

/-!
# MeshLight.Proofs.Timers.Passes

The main loop takes a node along one of its courses. Whatever happens between two passes only queues
events, none of them an expiry; a pass lets time pass for the timers, queues what the local inputs
stand for, and deals with all that waits (`Node.Reaches.exists_course`).
-/

namespace MeshLight

open Prog

variable {stamp : Nat} {queue : List Waiting} {events : List Event}

/-! ## the queue -/

/-- Adds events, one after the other. -/
def EventQueue.pushAll (events : List Event) (q : EventQueue) : EventQueue :=
  events.foldl (fun q e => (q.push e).2) q

/-- Queueing events with numbers queues the events. -/
theorem map_event_enqueueAll :
    (enqueueAll stamp queue events).map Waiting.event =
      (EventQueue.pushAll events ⟨queue.map Waiting.event⟩).events := by
  induction events generalizing queue with
  | nil => rfl
  | cons event events ih =>
      rw [enqueueAll, List.foldl_cons, ← enqueueAll, ih, map_event_enqueue, EventQueue.pushAll,
        EventQueue.pushAll, List.foldl_cons]

theorem EventQueue.pushTimers_eq (timers : List Timer) (q : EventQueue) :
    q.pushTimers timers = q.pushAll (timers.map .timerFired) := by
  rw [pushTimers, pushAll, List.foldl_map]

namespace Node

/-! ## local inputs -/

/-- No gesture on a button stands for an expiry. -/
theorem event?_ne_timerFired {testing : Bool} {b : Button} {g : Gesture} (timer : Timer) :
    b.event? testing g ≠ some (.timerFired timer) := by
  cases b <;> cases g <;> nofun

theorem timerFired_not_mem_keyEvents (testing : Bool) (now : UInt32) (keys : List Key)
    (timer : Timer) : .timerFired timer ∉ (keyEvents testing now keys).1 := by
  induction keys with
  | nil => exact List.not_mem_nil
  | cons k keys ih =>
      intro hmem
      obtain hmem | hmem := List.mem_append.1 hmem
      · obtain ⟨g, -, hevent⟩ := Option.bind_eq_some_iff.1 (Option.mem_toList.1 hmem)
        exact event?_ne_timerFired timer hevent
      · exact ih hmem

/-- What the encoder leads to being queued. -/
theorem queue_lookAtEncoder (n : Node) :
    ∃ events, (∀ timer, Event.timerFired timer ∉ events) ∧
      n.lookAtEncoder.queue = n.queue.pushAll events := by
  cases hreport : (n.rotation.feed n.encoder.take.1).1 with
  | none => exact ⟨[], fun _ => List.not_mem_nil, by simp [lookAtEncoder, hreport, EventQueue.pushAll]⟩
  | some steps =>
      refine ⟨[rotationEvent steps], fun timer => by simp [rotationEvent], ?_⟩
      simp [lookAtEncoder, hreport, EventQueue.pushAll]

/-! ## courses of a node -/

/-- The node is where a course has led, with the same events in its queue. -/
structure OnCourse (config : Config) (dealt : List Dealt) (queue : List Waiting) (n : Node) :
    Prop where
  course : Course config dealt n.engine n.host.timers queue
  events : n.queue.events = queue.map Waiting.event

namespace OnCourse

variable {config : Config} {dealt : List Dealt} {n n' : Node}

/-- Events were queued, none of them an expiry, and nothing else has changed that a course is
about. -/
theorem queued (h : n.OnCourse config dealt queue) (events : List Event)
    (hevents : ∀ timer, .timerFired timer ∉ events) (hengine : n'.engine = n.engine)
    (htimers : n'.host.timers = n.host.timers) (hqueue : n'.queue = n.queue.pushAll events) :
    n'.OnCourse config dealt (enqueueAll dealt.length queue events) where
  course := by
    rw [hengine, htimers]
    exact h.course.push events hevents
  events := by rw [hqueue, map_event_enqueueAll, ← h.events]

theorem advanceTimers (h : n.OnCourse config dealt queue) (elapsed : UInt32) :
    (n.advanceTimers elapsed).OnCourse config dealt (enqueueAll dealt.length queue
      ((n.host.timers.tick elapsed.toNat).1.map .timerFired)) where
  course := h.course.tick elapsed.toNat
  events := by
    rw [map_event_enqueueAll, ← h.events, ← EventQueue.pushTimers_eq]
    rfl

theorem lookAtKeys (h : n.OnCourse config dealt queue) :
    ∃ queue', n.lookAtKeys.OnCourse config dealt queue' :=
  ⟨_, h.queued _ (timerFired_not_mem_keyEvents n.engine.session.testing (UInt32.ofNat n.uptime)
    n.keys) rfl rfl rfl⟩

theorem lookAtEncoder (h : n.OnCourse config dealt queue) :
    ∃ queue', n.lookAtEncoder.OnCourse config dealt queue' := by
  obtain ⟨events, hevents, hqueue⟩ := n.queue_lookAtEncoder
  exact ⟨_, h.queued events hevents rfl rfl hqueue⟩

/-- All that waits is dealt with, oldest first. -/
theorem drainQueue (h : n.OnCourse config dealt queue) :
    ∃ later, n.drainQueue.OnCourse config (dealt ++ later) [] ∧ later.map Dealt.item = queue := by
  obtain ⟨later, hcourse, hitems⟩ := h.course.exists_dealAll Host.keepsTimers
  rw [← h.events] at hcourse
  exact ⟨later, ⟨hcourse, rfl⟩, hitems⟩

/-- A pass leads on along a course, and nothing waits after it. -/
theorem pass (h : n.OnCourse config dealt queue) (elapsed : UInt32) :
    ∃ later, (n.pass elapsed).OnCourse config (dealt ++ later) [] := by
  obtain ⟨queue₁, hkeys⟩ := (h.advanceTimers elapsed).lookAtKeys
  obtain ⟨queue₂, hencoder⟩ := hkeys.lookAtEncoder
  obtain ⟨later, hdrained, -⟩ := hencoder.drainQueue
  exact ⟨later, hdrained.course, hdrained.events⟩

end OnCourse

/-! ## the main loop -/

/-- The nodes that come about from a booted one. Between passes events may be queued, the stack may
change its role, and buttons and encoder may be touched; but only the timers queue expiries. -/
inductive Reaches (config : Config) : Node → Prop where
  | boot {n : Node} (role : Role) (uptime : Nat) (hboot : Node.boot config role uptime = .ok n) :
      Reaches config n
  | push {n : Node} (event : Event) (hevent : ∀ timer, event ≠ .timerFired timer)
      (reached : Reaches config n) : Reaches config (n.push event).2
  | setRole {n : Node} (role : Role) (reached : Reaches config n) :
      Reaches config (n.setRole role).2
  | press {n : Node} (index : Nat) (now : UInt32) (reached : Reaches config n) :
      Reaches config (n.press index now)
  | release {n : Node} (index : Nat) (now : UInt32) (reached : Reaches config n) :
      Reaches config (n.release index now)
  | seePhases {n : Node} (phases : List Phase) (reached : Reaches config n) :
      Reaches config (n.seePhases phases)
  | pass {n : Node} (elapsed : UInt32) (reached : Reaches config n) :
      Reaches config (n.pass elapsed)

/-- The main loop takes a node along a course. -/
theorem Reaches.exists_course {config : Config} {n : Node} (h : Reaches config n) :
    ∃ dealt queue, n.OnCourse config dealt queue := by
  induction h with
  | boot role uptime hboot =>
      cases hnew : Engine.new config with
      | error defect =>
          rw [Node.boot, hnew] at hboot
          cases hboot
      | ok e =>
          rw [Node.boot, hnew] at hboot
          cases hboot
          exact ⟨[], [], Course.exists_start hnew Host.keepsTimers (s := .initial role) rfl, rfl⟩
  | push event hevent reached ih =>
      obtain ⟨dealt, queue, hn⟩ := ih
      exact ⟨dealt, _, hn.queued [event]
        (fun timer hmem => hevent timer (List.mem_singleton.1 hmem).symm) rfl rfl rfl⟩
  | setRole role reached ih =>
      obtain ⟨dealt, queue, hn⟩ := ih
      exact ⟨dealt, _, hn.queued [.roleChanged role] (fun timer => by simp) rfl rfl rfl⟩
  | press index now reached ih | release index now reached ih | seePhases phases reached ih =>
      obtain ⟨dealt, queue, hn⟩ := ih
      exact ⟨dealt, queue, hn.course, hn.events⟩
  | pass elapsed reached ih =>
      obtain ⟨dealt, queue, hn⟩ := ih
      obtain ⟨later, hpass⟩ := hn.pass elapsed
      exact ⟨dealt ++ later, [], hpass⟩

end Node

end MeshLight
