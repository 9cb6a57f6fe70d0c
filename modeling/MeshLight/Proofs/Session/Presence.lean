import Mathlib.Data.List.Basic
import MeshLight.Proofs.Engine.Asked
import MeshLight.Proofs.Session.Connecting

/-!
# MeshLight.Proofs.Session.Presence

What the presence light shows. Pulses aside, it is set by work only, and the work of a turn sets it
if the session enters or leaves the connected state, if a join begins, or if the end of an attempt
is the end of a join (`AtRest.lastMode`). That is enough to tell connected and joining apart from
everything else (`Run.light_shows_state`).

A join can also end in other ways: it succeeds before the node has a role on the network, or a
factory reset ends it. Then nothing sets the light, and it goes on blinking as while joining
(`Lingers`), until the node is connected or joins again (`Run.joining_blink_iff`).
-/

namespace MeshLight

open Prog

/-! ## base modes -/

/-- The base mode that a call gives the presence light. A pulse gives it none. -/
def Call.baseMode? : Call → Option IndicatorMode
  | .board (.setIndicator (.pulse _)) => none
  | .board (.setIndicator mode) => some mode
  | _ => none

/-- The base mode that the presence light was given last. -/
def lastMode (turns : List Turn) : Option IndicatorMode :=
  (collect Call.baseMode? (turns.flatMap Turn.log)).getLast?

/-- The base mode that a piece of work gives the presence light. -/
def Work.mode? (config : Config) : Work → Option IndicatorMode
  | .indicateConnected => some .on
  | .indicateDisconnected => some (.blink config.disconnectedBlinkMs)
  | .indicateJoining => some (.blink config.joiningBlinkMs)
  | .indicateIdle => some .off
  | _ => none

/-- Whether work may make the presence light pulse. -/
def Work.pulses : Work → Bool
  | .reportStatus | .emitTrigger _ => true
  | _ => false

theorem baseMode?_of_work (config : Config) {w : Work} {c : Call} (hw : w.mode? config = none)
    (hpulses : w.pulses = false) (h : w.mayCall c = true) : c.baseMode? = none := by
  unfold Call.baseMode?
  split
  · rfl
  · cases w <;> first | exact Bool.noConfusion h | exact Bool.noConfusion hpulses | cases hw
  · rfl

theorem baseMode?_of_input {input : Input} {c : Call} (h : input.mayCall c = true) :
    c.baseMode? = none := by
  unfold Input.mayCall at h
  split at h <;> first | rfl | exact Bool.noConfusion h

namespace Engine

variable {e e' : Engine} {log : List Exchange}

theorem modes_sendReport {peer : Address} (h : Path (e.sendReport peer) log e') :
    collect Call.baseMode? log = [] := by
  obtain ⟨-, sampled, id, readings, answer, rest, rfl, ⟨-, rfl⟩ | ⟨-, rfl⟩⟩ := path_sendReport h <;>
    rfl

theorem modes_sendAlong {route : Route} {event : TriggerEvent}
    (h : Path (e.sendAlong route event) log e') : collect Call.baseMode? log = [] := by
  obtain ⟨-, id, answer, rest, rfl, ⟨-, rfl⟩ | ⟨-, shown, hshown, rfl⟩⟩ := path_sendAlong h
  · rfl
  · split at hshown <;> rw [hshown] <;> rfl

/-- A piece of work gives the light the mode that it stands for. -/
theorem modes_execute {w : Work} (h : Path (e.execute w) log e') :
    collect Call.baseMode? log = (w.mode? e.config).toList := by
  cases w with
  | indicateConnected | indicateDisconnected | indicateJoining | indicateIdle =>
      obtain ⟨-, rfl⟩ := path_indicate h
      rfl
  | reportStatus =>
      obtain ⟨-, rfl, -⟩ | ⟨-, ⟨-, rfl, -⟩ | ⟨peer, -, hsend⟩⟩ := path_reportStatus h
      · rfl
      · rfl
      · exact modes_sendReport hsend
  | emitTrigger event =>
      obtain ⟨-, rfl, -⟩ | ⟨-, ⟨-, -, rfl, -⟩ | ⟨route, -, hsend⟩⟩ := path_emitTrigger h
      · rfl
      · rfl
      · exact modes_sendAlong hsend
  | _ =>
      exact collect_eq_nil_iff.2 fun x hx =>
        baseMode?_of_work e.config rfl rfl (h.only (only_execute _ e) x hx)

theorem Drains.modes {tasks : List Task} (h : Drains e tasks e') :
    collect Call.baseMode? (tasks.flatMap Task.log) =
      (tasks.map Task.work).filterMap (Work.mode? e.config) := by
  have hmodes : ∀ task ∈ tasks,
      collect Call.baseMode? task.log = (task.work.mode? e.config).toList := by
    intro task htask
    rw [modes_execute (h.executes task htask), (h.sameFacts.2 task htask).config]
  rw [collect_flatMap, List.flatMap_congr hmodes, List.filterMap_map,
    List.filterMap_eq_flatMap_toList]
  rfl

/-- Work that is asked for by other work is no signal. -/
theorem modes_asks (config : Config) (w : Work) (e : Engine) :
    (e.asks w).filterMap (Work.mode? config) = [] := by
  unfold asks
  split <;> rfl

end Engine

/-! ## modes of a turn -/

/-- What an input asks for by itself sets no mode. -/
theorem modes_of_input (config : Config) (e : Engine) (input : Input) :
    (input.asks e).filterMap (Work.mode? config) = [] := by
  cases input with
  | start => rfl
  | event event =>
      cases event with
      | reply kind payload =>
          cases kind with
          | provisioning =>
              show (if _ then _ else _ : List Work).filterMap _ = []
              split <;> rfl
          | status | trigger => rfl
      | commandReceived request =>
          show (leftBy e.config request).filterMap _ = []
          unfold leftBy
          split
          · split
            · next action _ => cases action <;> rfl
            · rfl
          · rfl
      | timerFired timer => cases timer <;> rfl
      | _ => rfl

/-- The mode that a change of the session's state gives the light. -/
def SessionState.mode? (config : Config) (old new : SessionState) : Option IndicatorMode :=
  if old = .connected then
    if new = .connected then none else some (.blink config.disconnectedBlinkMs)
  else if new = .connected then some .on else none

/-- The mode that the progress of joining gives the light. -/
def Join.mode? (config : Config) (ended : Bool) (old new : Join) : Option IndicatorMode :=
  match old.isJoining, new.isJoining with
  | false, true => some (.blink config.joiningBlinkMs)
  | true, false => if ended then some .off else none
  | _, _ => none

theorem SessionState.modes_asks (config : Config) (old new : SessionState) :
    ((old.asks new).filterMap (Work.mode? config)) = (old.mode? config new).toList := by
  unfold asks mode?
  split <;> split <;> rfl

theorem Join.modes_signals (config : Config) (ended : Bool) (old new : Join) :
    (old.signals ended new).filterMap (Work.mode? config) =
      (old.mode? config ended new).toList := by
  unfold signals mode?
  cases old.isJoining <;> cases new.isJoining <;> cases ended <;> rfl

variable {turns : List Turn} {t : Turn}

/-- The work of a turn tells which modes the light is given. -/
theorem AtRest.modes (h : AtRest turns t.before) (ht : t.Happens)
    (hstart : t.input = .start → t.before.state ≠ .connected) :
    collect Call.baseMode? t.log =
      (t.before.join.mode? t.before.config t.endsAttempt t.applied.join).toList ++
        (t.before.state.mode? t.before.config t.applied.state).toList := by
  have hopening : collect Call.baseMode? t.opening = [] := collect_eq_nil_iff.2 fun x hx =>
    baseMode?_of_input (ht.receives.only (Engine.only_receive _ _) x hx)
  have hconfig : t.applied.config = t.before.config := by
    rw [← ht.config hstart, ht.drains.sameFacts.1.config]
  have hmore : (t.tasks.flatMap Task.asked).filterMap (Work.mode? t.before.config) = [] := by
    rw [List.filterMap_flatMap, List.flatMap_eq_nil_iff]
    exact fun task _ => Engine.modes_asks _ _ _
  obtain ⟨-, hdone, -⟩ := h.takes ht hstart
  rw [Turn.log, collect_append, hopening, List.nil_append, ht.drains.modes, hconfig, hdone,
    List.filterMap_append, hmore, List.append_nil, Turn.asked, List.filterMap_append,
    List.filterMap_append, modes_of_input, List.append_nil, Join.modes_signals,
    SessionState.modes_asks]

/-- A factory reset that ends a join gives the light no mode. -/
theorem AtRest.joinMode_after (h : AtRest turns t.before) (ht : t.Happens)
    (hstart : t.input = .start → t.before.state ≠ .connected) (config : Config) :
    t.before.join.mode? config t.endsAttempt t.applied.join =
      t.before.join.mode? config t.endsAttempt t.after.join := by
  obtain ⟨-, hmoves, -, hafter⟩ | ⟨-, hafter, -⟩ := ht.join_cases h.idle hstart
  · obtain ⟨-, hends, -, happlied, -⟩ := ht.join_applied hmoves
    rw [hends, happlied, hafter]
    unfold Join.mode?
    cases t.before.join.isJoining <;> rfl
  · rw [hafter]

/-- The light is given the mode of a changed state, else that of a join that began or failed; else
it keeps its mode. -/
theorem AtRest.lastMode_concat (h : AtRest turns t.before) (ht : t.Happens)
    (hstart : t.input = .start → t.before.state ≠ .connected) (past : List Turn) :
    lastMode (past ++ [t]) =
      ((t.before.state.mode? t.before.config t.after.state).or
        (t.before.join.mode? t.before.config t.endsAttempt t.after.join)).or (lastMode past) := by
  have hlast (mode : Option IndicatorMode) : mode.toList.getLast? = mode := by
    cases mode <;> rfl
  unfold lastMode
  rw [List.flatMap_append, List.flatMap_singleton, collect_append, List.getLast?_append,
    h.modes ht hstart, List.getLast?_append, hlast, hlast, h.joinMode_after ht hstart,
    ht.drains.sameFacts.1.state]

/-- What a turn does to the light: the base mode that it gives it, and when. -/
inductive Relights (config : Config) (t : Turn) : Option IndicatorMode → Prop where
  | connects (hold : t.before.state ≠ .connected) (hnew : t.after.state = .connected) :
      Relights config t (some .on)
  | disconnects (hold : t.before.state = .connected) (hnew : t.after.state ≠ .connected)
      (hjoin : t.after.join.isJoining = false) :
      Relights config t (some (.blink config.disconnectedBlinkMs))
  | begins (hnew : t.after.state ≠ .connected) (hjoining : t.after.join.isJoining = true) :
      Relights config t (some (.blink config.joiningBlinkMs))
  | fails (hnew : t.after.state ≠ .connected) (hends : t.endsAttempt = true)
      (hjoining : t.before.join.isJoining = true) (hended : t.after.join.isJoining = false) :
      Relights config t (some .off)
  | nothing (hstays : t.after.state = .connected ↔ t.before.state = .connected)
      (hjoining : t.after.join.isJoining = true → t.before.join.isJoining = true)
      (hended : t.before.join.isJoining = true → t.after.join.isJoining = false →
        t.endsAttempt = false) : Relights config t none

/-- A connected node does not begin to join. -/
theorem AtRest.isJoining_of_connected (h : AtRest turns t.before) (ht : t.Happens)
    (hstart : t.input = .start → t.before.state ≠ .connected) (hs : t.before.state = .connected)
    (hbefore : t.before.join.isJoining = false) : t.after.join.isJoining = false := by
  obtain ⟨-, -, -, hafter⟩ | ⟨-, -, hmove⟩ := ht.join_cases h.idle hstart
  · rw [hafter]
    rfl
  · refine Bool.eq_false_iff.2 fun hafter => ?_
    exact (hmove.opensJoin hbefore hafter).2.1 hs

/-- A node joins only while it is not connected. -/
def Engine.JoinsApart (e : Engine) : Prop := e.join.isJoining = true → e.state ≠ .connected

theorem AtRest.relights (h : AtRest turns t.before) (ht : t.Happens)
    (hstart : t.input = .start → t.before.state ≠ .connected) (hbefore : t.before.JoinsApart)
    (hafter : t.after.JoinsApart) (past : List Turn) :
    ∃ mode, Relights t.before.config t mode ∧
      lastMode (past ++ [t]) = mode.or (lastMode past) := by
  have hapart {e : Engine} (he : e.JoinsApart) (hs : e.state = .connected) :
      e.join.isJoining = false := Bool.eq_false_iff.2 fun hjoining => he hjoining hs
  rw [h.lastMode_concat ht hstart past]
  unfold SessionState.mode?
  by_cases hold : t.before.state = .connected
  · have hnot := hapart hbefore hold
    by_cases hnew : t.after.state = .connected
    · rw [if_pos hold, if_pos hnew, Join.mode?, hnot, hapart hafter hnew]
      exact ⟨none, .nothing (iff_of_true hnew hold) (fun hj => absurd hnew (hafter hj))
        (fun hj => absurd hold (hbefore hj)), rfl⟩
    · rw [if_pos hold, if_neg hnew]
      exact ⟨_, .disconnects hold hnew (h.isJoining_of_connected ht hstart hold hnot), rfl⟩
  · by_cases hnew : t.after.state = .connected
    · rw [if_neg hold, if_pos hnew]
      exact ⟨_, .connects hold hnew, rfl⟩
    · rw [if_neg hold, if_neg hnew, Option.none_or, Join.mode?]
      have hstays : t.after.state = .connected ↔ t.before.state = .connected :=
        iff_of_false hnew hold
      cases hold' : t.before.join.isJoining <;> cases hnew' : t.after.join.isJoining
      · exact ⟨_, .nothing hstays (by simp [hnew']) (by simp [hold']), rfl⟩
      · exact ⟨_, .begins hnew hnew', rfl⟩
      · cases hends : t.endsAttempt with
        | true => exact ⟨_, .fails hnew hends hold' hnew', rfl⟩
        | false => exact ⟨_, .nothing hstays (by simp [hnew']) (fun _ _ => hends), rfl⟩
      · exact ⟨_, .nothing hstays (fun _ => hold') (by simp [hnew']), rfl⟩

/-! ## connected and joining -/

variable {config : Config} {e : Engine}

theorem Run.joinsApart (run : Run config turns e) : e.JoinsApart := by
  intro hjoining hs
  rw [run.connecting_of_isJoining hjoining] at hs
  cases hs

/-- A new engine does not join. -/
theorem Engine.joinsApart_new (h : Engine.new config = .ok e) :
    e.JoinsApart ∧ e.join.isJoining = false := by
  obtain ⟨-, interval, rfl⟩ := Engine.eq_of_new h
  exact ⟨nofun, rfl⟩

/-- What the last turn of a run does to the light. -/
theorem Run.relights (run : Run config (turns ++ [t]) e) :
    t.before.JoinsApart ∧ t.after.JoinsApart ∧
      ∃ mode, Relights config t mode ∧ lastMode (turns ++ [t]) = mode.or (lastMode turns) := by
  have hafter := run.joinsApart
  have hconfig := run.config_eq.2 t (by simp)
  obtain ⟨ht, rfl, ⟨rfl, hnew, hinput⟩ | ⟨hrun, event, hinput⟩⟩ := run.last
  · have hbefore := (Engine.joinsApart_new hnew).1
    have hrelights := (atRest_new hnew).relights ht (fun _ => Engine.state_new hnew) hbefore hafter []
    rw [hconfig] at hrelights
    exact ⟨hbefore, hafter, hrelights⟩
  · have hrelights := hrun.atRest.1.relights ht
      (fun hstart => absurd hstart (Turn.ne_start_of_event hinput)) hrun.joinsApart hafter turns
    rw [hconfig] at hrelights
    exact ⟨hrun.joinsApart, hafter, hrelights⟩

/-- The light tells whether the session is connected, and that a join is in progress. -/
structure LightTells (config : Config) (turns : List Turn) (e : Engine) : Prop where
  connected : lastMode turns = some .on ↔ e.state = .connected
  joining : e.join.isJoining = true → lastMode turns = some (.blink config.joiningBlinkMs)

theorem LightTells.step {mode : Option IndicatorMode} (h : LightTells config turns t.before)
    (hafter : t.after.JoinsApart) (hrelights : Relights config t mode)
    (hlast : lastMode (turns ++ [t]) = mode.or (lastMode turns)) :
    LightTells config (turns ++ [t]) t.after := by
  cases hrelights with
  | connects hold hnew =>
      rw [Option.some_or] at hlast
      exact ⟨iff_of_true hlast hnew, fun hjoining => absurd hnew (hafter hjoining)⟩
  | disconnects hold hnew hjoin =>
      rw [Option.some_or] at hlast
      exact ⟨iff_of_false (by rw [hlast]; nofun) hnew, fun hjoining => by
        rw [hjoin] at hjoining
        cases hjoining⟩
  | begins hnew hjoining =>
      rw [Option.some_or] at hlast
      exact ⟨iff_of_false (by rw [hlast]; nofun) hnew, fun _ => hlast⟩
  | fails hnew hends hjoining hended =>
      rw [Option.some_or] at hlast
      exact ⟨iff_of_false (by rw [hlast]; nofun) hnew, fun hjoining => by
        rw [hended] at hjoining
        cases hjoining⟩
  | nothing hstays hjoining hended =>
      rw [Option.none_or] at hlast
      exact ⟨by rw [hlast, hstays, h.connected], fun hnew => by rw [hlast, h.joining (hjoining hnew)]⟩

/-- Before the first turn the light is off, and the engine is not connected. -/
theorem lightTells_new (h : Engine.new config = .ok e) : LightTells config [] e where
  connected := iff_of_false nofun (Engine.state_new h)
  joining hjoining := by
    rw [(Engine.joinsApart_new h).2] at hjoining
    cases hjoining

theorem Run.lightTells (run : Run config turns e) : LightTells config turns e := by
  induction run with
  | start t hnew hinput ht =>
      have run : Run config ([] ++ [t]) t.after := .start t hnew hinput ht
      obtain ⟨-, hafter, mode, hrelights, hlast⟩ := run.relights
      exact (lightTells_new hnew).step hafter hrelights hlast
  | handle t event run hinput ht ih =>
      obtain ⟨-, hafter, mode, hrelights, hlast⟩ := (run.handle t event hinput ht).relights
      exact ih.step hafter hrelights hlast

/-- The presence light tells the truth while the node is connected or joins. However the calls are
answered, between turns the base mode that it was given last is steadily on exactly if the session
is connected, and the fast blink while a join is in progress. -/
theorem Run.light_shows_state (run : Run config turns e) :
    (lastMode turns = some .on ↔ e.state = .connected) ∧
      (e.join.isJoining = true → lastMode turns = some (.blink config.joiningBlinkMs)) :=
  ⟨run.lightTells.connected, run.lightTells.joining⟩

/-- A simulated node that joins as soon as it starts, and gets on the network. -/
theorem Run.light_shows_state_simulated :
    ∃ turns e, Run .default turns e ∧
      turns.map Turn.input = [.start, .event (.roleChanged .child)] ∧
      e.state = .connected ∧ lastMode turns = some .on := by
  obtain ⟨turns, run, hinputs, -⟩ := exists_run_of_answer Engine.new_default
    [.roleChanged .child] Host.answer (.initial .disabled)
  have hs : ((Engine.default.start >>= Engine.handleAll [.roleChanged .child]).run Host.answer
      (.initial .disabled)).1.state = .connected := by
    decide
  exact ⟨turns, _, run, hinputs, hs, run.light_shows_state.1.2 hs⟩

/-! ## the blink that lingers -/

/-- A join has ended otherwise than by the end of an attempt, and since then the node was neither
connected nor joining. -/
def Lingers (turns : List Turn) : Prop :=
  ∃ past t later, turns = past ++ t :: later ∧ t.before.join.isJoining = true ∧
    t.endsAttempt = false ∧
    ∀ u ∈ t :: later, u.after.state ≠ .connected ∧ u.after.join.isJoining = false

theorem not_lingers_nil : ¬Lingers [] := by
  intro h
  obtain ⟨past, t, later, hturns, -⟩ := h
  simp at hturns

theorem lingers_concat : Lingers (turns ++ [t]) ↔
    (t.after.state ≠ .connected ∧ t.after.join.isJoining = false) ∧
      (t.before.join.isJoining = true ∧ t.endsAttempt = false ∨ Lingers turns) := by
  constructor
  · intro h
    obtain ⟨past, u, later, hturns, hjoining, hends, hsince⟩ := h
    obtain ⟨-, rfl, rfl⟩ | ⟨rest, rfl, rfl⟩ := append_cons_eq_concat_iff.1 hturns.symm
    · exact ⟨hsince u (by simp), .inl ⟨hjoining, hends⟩⟩
    · refine ⟨hsince t (by simp), .inr ⟨past, u, rest, rfl, hjoining, hends, fun v hv => ?_⟩⟩
      exact hsince v (List.mem_append_left [t] hv)
  · intro h
    obtain ⟨hnew, ⟨hjoining, hends⟩ | ⟨past, u, later, rfl, hjoining, hends, hsince⟩⟩ := h
    · refine ⟨turns, t, [], rfl, hjoining, hends, fun u hu => ?_⟩
      rw [List.mem_singleton.1 hu]
      exact hnew
    · refine ⟨past, u, later ++ [t], by simp, hjoining, hends, fun v hv => ?_⟩
      obtain hv | hv := List.mem_append.1 (List.cons_append ▸ hv)
      · exact hsince v hv
      · rw [List.mem_singleton.1 hv]
        exact hnew

/-- The light shows the joining blink while a join is in progress, or the blink lingers. -/
structure Blinks (config : Config) (turns : List Turn) (e : Engine) : Prop where
  shown : lastMode turns = some (.blink config.joiningBlinkMs) ↔
    e.join.isJoining = true ∨ Lingers turns
  apart : Lingers turns → e.state ≠ .connected ∧ e.join.isJoining = false

theorem Blinks.step {mode : Option IndicatorMode}
    (hne : config.joiningBlinkMs ≠ config.disconnectedBlinkMs)
    (h : Blinks config turns t.before) (htells : LightTells config turns t.before)
    (hbefore : t.before.JoinsApart) (hafter : t.after.JoinsApart)
    (hrelights : Relights config t mode)
    (hlast : lastMode (turns ++ [t]) = mode.or (lastMode turns)) :
    Blinks config (turns ++ [t]) t.after := by
  refine ⟨?_, fun hlingers => (lingers_concat.1 hlingers).1⟩
  rw [hlast, lingers_concat]
  cases hrelights with
  | connects hold hnew =>
      exact iff_of_false nofun fun hor =>
        hor.elim (fun hjoining => hafter hjoining hnew) fun hlingers => hlingers.1.1 hnew
  | disconnects hold hnew hjoin =>
      refine iff_of_false (by simpa using hne.symm) fun hor => ?_
      obtain hjoining | ⟨-, ⟨hjoining, -⟩ | hlingers⟩ := hor
      · rw [hjoin] at hjoining
        cases hjoining
      · exact hbefore hjoining hold
      · exact (h.apart hlingers).1 hold
  | begins hnew hjoining => exact iff_of_true rfl (.inl hjoining)
  | fails hnew hends hjoining hended =>
      refine iff_of_false nofun fun hor => ?_
      obtain hjoining' | ⟨-, ⟨-, hends'⟩ | hlingers⟩ := hor
      · rw [hended] at hjoining'
        cases hjoining'
      · rw [hends] at hends'
        cases hends'
      · rw [(h.apart hlingers).2] at hjoining
        cases hjoining
  | nothing hstays hjoining hended =>
      rw [Option.none_or]
      by_cases hnew : t.after.state = .connected
      · rw [htells.connected.2 (hstays.1 hnew)]
        exact iff_of_false nofun fun hor =>
          hor.elim (fun hjoining => hafter hjoining hnew) fun hlingers => hlingers.1.1 hnew
      · rw [h.shown]
        cases hold' : t.before.join.isJoining <;> cases hnew' : t.after.join.isJoining
        · simp [hnew]
        · rw [hjoining hnew'] at hold'
          cases hold'
        · simp [hnew, hended hold' hnew']
        · simp

theorem blinks_new (h : Engine.new config = .ok e) : Blinks config [] e where
  shown := by
    rw [(Engine.joinsApart_new h).2]
    exact iff_of_false nofun (by simp [not_lingers_nil])
  apart hlingers := absurd hlingers not_lingers_nil

theorem Run.blinks (hne : config.joiningBlinkMs ≠ config.disconnectedBlinkMs)
    (run : Run config turns e) : Blinks config turns e := by
  induction run with
  | start t hnew hinput ht =>
      have run : Run config ([] ++ [t]) t.after := .start t hnew hinput ht
      obtain ⟨hbefore, hafter, mode, hrelights, hlast⟩ := run.relights
      exact (blinks_new hnew).step hne (lightTells_new hnew) hbefore hafter hrelights hlast
  | handle t event run hinput ht ih =>
      obtain ⟨hbefore, hafter, mode, hrelights, hlast⟩ := (run.handle t event hinput ht).relights
      exact ih.step hne run.lightTells hbefore hafter hrelights hlast

/-- The joining blink stops with the join, unless it lingers: between turns the light shows it
exactly while a join is in progress, or if one has ended otherwise than by the end of an attempt and
the node was neither connected nor joining since. So it is not shown while the session is
disconnected, with just this exception. -/
theorem Run.joining_blink_iff (hne : config.joiningBlinkMs ≠ config.disconnectedBlinkMs)
    (run : Run config turns e) :
    (lastMode turns = some (.blink config.joiningBlinkMs) ↔
      e.join.isJoining = true ∨ Lingers turns) ∧
    ((e.state = .disconnected → lastMode turns ≠ some (.blink config.joiningBlinkMs)) ↔
      ¬(e.state = .disconnected ∧ Lingers turns)) := by
  have hshown := (run.blinks hne).shown
  refine ⟨hshown, ?_⟩
  rw [not_and]
  refine imp_congr_right fun hs => not_congr ?_
  have hidle : ¬e.join.isJoining = true := by
    intro hjoining
    rw [run.connecting_of_isJoining hjoining] at hs
    cases hs
  rw [hshown, or_iff_right hidle]

/-- A simulated node that joins as soon as it starts. -/
theorem Run.joining_blink_iff_simulated :
    Config.default.joiningBlinkMs ≠ Config.default.disconnectedBlinkMs ∧
    ∃ turns e, Run .default turns e ∧ turns.map Turn.input = [.start] ∧
      e.join.isJoining = true ∧ lastMode turns = some (.blink Config.default.joiningBlinkMs) := by
  obtain ⟨turns, run, hinputs, -⟩ := exists_run_of_answer Engine.new_default []
    Host.answer (.initial .disabled)
  have hjoining : ((Engine.default.start >>= Engine.handleAll []).run Host.answer
      (.initial .disabled)).1.join.isJoining = true := by
    decide
  have hne : Config.default.joiningBlinkMs ≠ Config.default.disconnectedBlinkMs := by decide
  exact ⟨hne, turns, _, run, hinputs, hjoining, (run.joining_blink_iff hne).1.2 (.inl hjoining)⟩

/-- A simulated node whose join succeeds before it has a role on the network: the session is
disconnected, and the light still shows the joining blink. -/
theorem Run.joining_blink_after_join :
    Config.default.joiningBlinkMs ≠ Config.default.disconnectedBlinkMs ∧
    ∃ turns e, Run .default turns e ∧
      turns.map Turn.input = [.start, .event (.joinerChanged .joined)] ∧
      e.state = .disconnected ∧ lastMode turns = some (.blink Config.default.joiningBlinkMs) := by
  obtain ⟨turns, run, hinputs, hlog⟩ := exists_run_of_answer Engine.new_default
    [.joinerChanged .joined] Host.answer (.initial .disabled)
  refine ⟨by decide, turns, _, run, hinputs, by decide, ?_⟩
  unfold lastMode
  rw [hlog]
  decide

end MeshLight
