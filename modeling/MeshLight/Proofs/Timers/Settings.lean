import MeshLight.Proofs.Engine.Calls
import MeshLight.Proofs.Timers.Serves

/-!
# MeshLight.Proofs.Timers.Settings

Which timers a turn starts and stops. Waiting work touches none (`Turn.Happens.settings_log`), and of
the inputs only three do: the first success of a registration, testing mode, and a command that is
accepted. The report timer is always started with the initial delay and the interval of the moment;
the timer of a light group is set only by commands that switch the group.
-/

namespace MeshLight

open Prog

/-! ## calls that set no timer -/

/-- No timer is started or stopped by calls that only ask or were refused. -/
theorem settings_of_isIdle {log : List Exchange} (h : ∀ x ∈ log, x.isIdle = true) :
    settings log = [] := by
  refine settings_eq_nil_iff.2 fun x hx => ?_
  have hidle := h x hx
  obtain ⟨c, reply⟩ := x
  cases c with
  | timer c => cases c <;> first | rfl | cases hidle
  | mesh c | board c | emit c => rfl

theorem setting?_of_mayCall {w : Work} {c : Call} (h : w.mayCall c = true) : c.setting? = none := by
  cases c with
  | timer c => cases w <;> cases h
  | mesh c | board c | emit c => rfl

/-- Whether an input may start or stop timers. -/
def Input.setsTimers : Input → Bool
  | .event (.registrationCompleted _) | .event (.commandReceived _) | .event (.setTesting _) => true
  | _ => false

theorem setting?_of_setsTimers {input : Input} {c : Call} (hsets : input.setsTimers = false)
    (h : input.mayCall c = true) : c.setting? = none := by
  unfold Input.mayCall at h
  split at h <;> first | rfl | exact Bool.noConfusion h | exact Bool.noConfusion hsets

namespace Engine

variable {e e' : Engine} {log : List Exchange}

/-- Waiting work starts and stops no timer. -/
theorem Drains.settings_log {tasks : List Task} (h : Drains e tasks e') :
    settings (tasks.flatMap Task.log) = [] := by
  refine settings_eq_nil_iff.2 fun x hx => ?_
  obtain ⟨task, htask, hx⟩ := List.mem_flatMap.1 hx
  exact setting?_of_mayCall (h.mayCall task htask x hx)

end Engine

theorem Turn.Happens.settings_log {t : Turn} (ht : t.Happens) :
    settings t.log = settings t.opening := by
  rw [Turn.log, settings_append, ht.drains.settings_log, List.append_nil]

theorem Turn.Happens.settings_of_setsTimers {t : Turn} (ht : t.Happens)
    (h : t.input.setsTimers = false) : settings t.log = [] := by
  rw [ht.settings_log]
  exact settings_eq_nil_iff.2 fun x hx =>
    setting?_of_setsTimers h (ht.receives.only (Engine.only_receive _ _) x hx)

/-! ## registration and testing mode -/

namespace Engine

variable {e e' : Engine} {log : List Exchange}

/-- The first success of a registration starts the reports, unless in testing mode. -/
theorem settings_onRegistration {outcome : RegistrationOutcome}
    (h : Path (e.onRegistration outcome) log e') :
    settings log = if (e.session.registration.apply outcome).1 = .firstSuccess ∧
      e.session.testing = false then [e.reportStart] else [] := by
  obtain ⟨-, hlog⟩ := path_onRegistration_cases h
  split at hlog
  · next happly =>
      rw [hlog, happly]
      rfl
  · next happly =>
      rw [hlog, happly]
      rfl
  · next happly =>
      obtain ⟨reports, hreports, rfl⟩ := hlog
      rw [List.cons_append, settings_cons, settings_append, settings_of_timers hreports, happly]
      cases e.session.testing <;> rfl

/-- Testing mode stops the reports; leaving it starts them again if the node is registered. -/
theorem settings_setTesting {on : Bool} (h : Path (e.setTesting on) log e') :
    (e' = e ∧ settings log = []) ∨
      e' = { e with session := { e.session with testing := on } } ∧
        settings log = if on then [.stop .report]
          else if e.session.registration.state = .registered then [e.reportStart] else [] := by
  obtain ⟨rfl, rfl⟩ | ⟨-, rfl, timers, htimers, rfl⟩ := path_setTesting_cases h
  · exact .inl ⟨rfl, rfl⟩
  · refine .inr ⟨rfl, ?_⟩
    rw [settings_append, settings_of_timers htimers]
    split
    · rfl
    · split <;> rfl

end Engine

/-! ## commands -/

namespace Action

variable {config : Config} {s : Session} {log : List Exchange}

/-- What an action starts and stops once it is accepted, given whether the report timer runs. -/
def timerCalls (config : Config) (running : Bool) : Action → List TimerCall
  | .setPower group _ delaySecs =>
    if 0 < delaySecs then [.startOnce (.lightOff group) (delayMs delaySecs)]
    else [.stop (.lightOff group)]
  | .setReportInterval interval =>
    if running then
      [.stop .report,
        .startPeriodic .report config.reportInitialDelayMs.toNat interval.period]
    else []
  | _ => []

/-- The session after an action that was accepted. -/
def adjust (s : Session) : Action → Session
  | .setReportInterval interval => { s with interval := interval }
  | _ => s

/-- An action that is rejected starts and stops nothing. -/
theorem settings_of_error {action : Action} {fault : CommandFault}
    (h : Path (action.perform config s).run log (.error fault)) : settings log = [] :=
  settings_of_isIdle ((performed_of_path h).idle fault rfl)

/-- An action that is accepted starts and stops what it says. A new interval asks first whether the
report timer runs. -/
theorem settings_of_ok {action : Action} {effect : Effect}
    (h : Path (action.perform config s).run log (.ok effect)) :
    effect.session = action.adjust s ∧ ∃ running, settings log = action.timerCalls config running ∧
      ∀ interval, action = .setReportInterval interval →
        ∃ rest, log = ⟨.timer (.isRunning .report), running⟩ :: rest := by
  cases action with
  | setPower group on delaySecs =>
      obtain ⟨answer, hp, hr⟩ := path_perform_setPower h
      obtain ⟨reply, rest, rfl, ⟨⟨fault, rfl, rfl⟩, rfl⟩ | ⟨rfl, rfl, rfl⟩⟩ := path_power hp
      · cases hr
      · cases hr
        refine ⟨rfl, false, ?_, by simp⟩
        by_cases hd : 0 < delaySecs <;> simp [timerCalls, hd, Call.setting?, TimerCall.sets?]
  | setColor group color =>
      obtain ⟨answer, rfl, hr⟩ := path_perform_setColor h
      cases answer with
      | error fault => cases hr
      | ok u => cases hr; exact ⟨rfl, false, rfl, by simp⟩
  | setPin name high =>
      obtain ⟨answer, rfl, hr⟩ := path_perform_setPin h
      cases answer with
      | error fault => cases hr
      | ok u => cases hr; exact ⟨rfl, false, rfl, by simp⟩
  | setLinkMode mode =>
      obtain ⟨answer, rfl, hr⟩ := path_perform_setLinkMode h
      cases answer with
      | error fault => cases hr
      | ok u => cases hr; exact ⟨rfl, false, rfl, by simp⟩
  | lightStatus =>
      obtain ⟨answer, hp, hr⟩ := path_perform_lightStatus h
      have hnone : settings log = [] := by
        refine settings_eq_nil_iff.2 fun x hx => ?_
        obtain ⟨group, hcall⟩ := path_lightEntries hp x hx
        rw [hcall]
        rfl
      cases answer with
      | error fault => cases hr
      | ok entries => cases hr; exact ⟨rfl, false, hnone, by simp⟩
  | pinStatus =>
      obtain ⟨pins, rfl, hr⟩ := path_perform_pinStatus h
      cases hr
      exact ⟨rfl, false, rfl, by simp⟩
  | setReportInterval interval =>
      obtain ⟨hp, hr⟩ := path_perform_setReportInterval h
      cases hr
      obtain rfl | rfl := path_restartReports hp
      · exact ⟨rfl, false, rfl, fun _ _ => ⟨[], rfl⟩⟩
      · exact ⟨rfl, true, rfl, fun _ _ => ⟨_, rfl⟩⟩
  | upgrade | factoryReset | reboot =>
      obtain ⟨rfl, hr⟩ := path_done_iff.1 h
      cases hr
      exact ⟨rfl, false, rfl, by simp⟩

end Action

/-- A body that is rejected starts and stops nothing; an accepted one does what its action says. -/
theorem settings_dispatch {config : Config} {body : Bytes} {s s' : Session} {outcome : Outcome}
    {log : List Exchange} (h : Path (dispatch config body s) log (s', outcome)) :
    (outcome.code ≠ 0 ∧ s' = s ∧ settings log = []) ∨
      ∃ command action running, readCommand body = .ok (command, action) ∧ outcome.code = 0 ∧
        outcome.commandName = command.name ∧ s' = action.adjust s ∧
        settings log = action.timerCalls config running ∧
        ∀ interval, action = .setReportInterval interval →
          ∃ rest, log = ⟨.timer (.isRunning .report), running⟩ :: rest := by
  obtain ⟨command, fault, -, rfl, rfl, rfl⟩ | ⟨command, action, r, hread, hp, hr⟩ := path_dispatch h
  · exact .inl ⟨CommandFault.code_ne_zero _, rfl, rfl⟩
  · obtain ⟨effect, rfl, rfl, rfl⟩ | ⟨fault, rfl, rfl, rfl⟩ := hr
    · obtain ⟨hsession, running, hsettings, hasks⟩ := Action.settings_of_ok hp
      exact .inr ⟨command, action, running, hread, rfl, rfl, hsession, hsettings, hasks⟩
    · exact .inl ⟨CommandFault.code_ne_zero _, rfl, Action.settings_of_error hp⟩

/-- A command that is accepted: its body is read as the action, which is carried out, and code zero
is noted. -/
def Turn.Accepts (t : Turn) (action : Action) : Prop :=
  ∃ request command, t.input = .event (.commandReceived request) ∧ request.method = .put ∧
    readCommand request.payload = .ok (command, action) ∧
    Call.emit (.commandHandled command.name 0) ∈ t.opening.map Exchange.call

namespace Engine

variable {e e' : Engine} {log : List Exchange}

theorem session_submit? (work : Option Work) (e : Engine) :
    (submit? work e).session = { e.session with work := (submit? work e).session.work } := by
  cases work <;> rfl

/-- A request that is no accepted command leaves timers and session as they are. An accepted one
does what its action says. -/
theorem settings_onCommand {request : InboundRequest} (h : Path (e.onCommand request) log e') :
    (settings log = [] ∧ e'.session = { e.session with work := e'.session.work } ∧
        ∀ name, Call.emit (.commandHandled name 0) ∉ log.map Exchange.call) ∨
      request.method = .put ∧ ∃ command action running,
        readCommand request.payload = .ok (command, action) ∧
        Call.emit (.commandHandled command.name 0) ∈ log.map Exchange.call ∧
        e'.session = { action.adjust e.session with work := e'.session.work } ∧
        settings log = action.timerCalls e.config running ∧
        ∀ interval, action = .setReportInterval interval →
          ∃ rest, log = ⟨.timer (.isRunning .report), running⟩ :: rest := by
  obtain ⟨-, rfl, rfl⟩ | ⟨hmethod, s, first, outcome, reply, hdispatch, rfl, rfl⟩ :=
    path_onCommand_dispatch h
  · exact .inl ⟨rfl, rfl, by simp⟩
  · obtain ⟨hcode, rfl, hsettings⟩ | ⟨command, action, running, hread, hcode, hname, rfl,
      hsettings, hasks⟩ := settings_dispatch hdispatch
    · refine .inl ⟨by simp [hsettings, Call.setting?], session_submit? _ _, fun name hmem => ?_⟩
      obtain ⟨x, hx, hcall⟩ := List.mem_map.1 hmem
      obtain hx | hx := List.mem_append.1 hx
      · have hidle := ((dispatched_of_path hdispatch).rejected hcode).2.2 x hx
        obtain ⟨c, answer⟩ := x
        obtain rfl : c = _ := hcall
        cases hidle
      · simp only [List.mem_cons, List.not_mem_nil, or_false] at hx
        obtain rfl | rfl := hx
        · cases hcall
        · injection hcall with hnotice
          injection hnotice with _ hzero
          exact hcode hzero
    · refine .inr ⟨hmethod, command, action, running, hread, ?_, session_submit? _ _, ?_, ?_⟩
      · simp [hname, hcode]
      · simp [hsettings, Call.setting?]
      · intro interval haction
        obtain ⟨rest, rfl⟩ := hasks interval haction
        exact ⟨_, rfl⟩

end Engine

/-! ## turns -/

namespace Turn.Happens

variable {t : Turn}

/-- A turn starts and stops nothing, or the report timer, or else what the action of an accepted
command says. -/
theorem settings_cases (ht : t.Happens) :
    settings t.log = [] ∨ settings t.log = [.stop .report] ∨
      settings t.log = [t.before.reportStart] ∨
      ∃ action running, t.Accepts action ∧
        settings t.log = action.timerCalls t.before.config running := by
  cases hsets : t.input.setsTimers with
  | false => exact .inl (ht.settings_of_setsTimers hsets)
  | true =>
      rw [ht.settings_log]
      have hreceives := ht.receives
      cases hinput : t.input with
      | start => rw [hinput] at hsets; cases hsets
      | event event =>
          rw [hinput] at hreceives hsets
          cases event with
          | registrationCompleted outcome =>
              rw [Engine.settings_onRegistration hreceives]
              split
              · exact .inr (.inr (.inl rfl))
              · exact .inl rfl
          | setTesting on =>
              obtain ⟨-, hsettings⟩ | ⟨-, hsettings⟩ := Engine.settings_setTesting hreceives
              · exact .inl hsettings
              · rw [hsettings]
                split
                · exact .inr (.inl rfl)
                · split
                  · exact .inr (.inr (.inl rfl))
                  · exact .inl rfl
          | commandReceived request =>
              obtain ⟨hsettings, -⟩ | ⟨hmethod, command, action, running, hread, hemit, -,
                hsettings, -⟩ := Engine.settings_onCommand hreceives
              · exact .inl hsettings
              · exact .inr (.inr (.inr
                  ⟨action, running, ⟨request, command, hinput, hmethod, hread, hemit⟩, hsettings⟩))
          | _ => cases hsets

/-- An accepted command starts and stops what its action says. -/
theorem settings_of_accepts (ht : t.Happens) {action : Action} (h : t.Accepts action) :
    ∃ running, settings t.log = action.timerCalls t.before.config running ∧
      ∀ interval, action = .setReportInterval interval →
        ∃ rest, t.opening = ⟨.timer (.isRunning .report), running⟩ :: rest := by
  obtain ⟨request, command, hinput, -, hread, hemit⟩ := h
  rw [ht.settings_log]
  have hreceives := ht.receives
  rw [hinput] at hreceives
  obtain ⟨-, -, hnot⟩ | ⟨-, command', action', running, hread', -, -, hsettings, hasks⟩ :=
    Engine.settings_onCommand hreceives
  · exact absurd hemit (hnot _)
  · rw [hread] at hread'
    cases hread'
    exact ⟨running, hsettings, hasks⟩

/-- Each single start or stop of a turn. The report timer is always started with the initial delay,
and the switch-off of a group is set only by an accepted command for that group. -/
theorem cases_of_mem_settings (ht : t.Happens) {c : TimerCall} (hc : c ∈ settings t.log) :
    c = .stop .report ∨
      (∃ period, c = .startPeriodic .report t.before.config.reportInitialDelayMs.toNat period) ∨
      ∃ group on delaySecs, t.Accepts (.setPower group on delaySecs) ∧
        (c = .stop (.lightOff group) ∨
          0 < delaySecs ∧ c = .startOnce (.lightOff group) (Action.delayMs delaySecs)) := by
  obtain hs | hs | hs | ⟨action, running, haccepts, hs⟩ := ht.settings_cases
  · rw [hs] at hc
    cases hc
  · rw [hs, List.mem_singleton] at hc
    exact .inl hc
  · rw [hs, List.mem_singleton] at hc
    exact .inr (.inl ⟨_, hc⟩)
  · rw [hs] at hc
    cases action with
    | setPower group on delaySecs =>
        refine .inr (.inr ⟨group, on, delaySecs, haccepts, ?_⟩)
        by_cases hd : 0 < delaySecs
        · rw [Action.timerCalls, if_pos hd, List.mem_singleton] at hc
          exact .inr ⟨hd, hc⟩
        · rw [Action.timerCalls, if_neg hd, List.mem_singleton] at hc
          exact .inl hc
    | setReportInterval interval =>
        cases running with
        | false => cases hc
        | true =>
            have hboth : c = .stop .report ∨ c = .startPeriodic .report
                t.before.config.reportInitialDelayMs.toNat interval.period := by
              simpa [Action.timerCalls] using hc
            exact hboth.imp_right fun hstart => .inl ⟨_, hstart⟩
    | _ => cases hc

/-- The switch-off of a group is started only by an accepted command with a delay for that group. -/
theorem accepts_of_starts_lightOff (ht : t.Happens) {group : LightGroup} {c : TimerCall} {now : Nat}
    {a : Armed} (hc : lastSetting (.lightOff group) (settings t.log) = some c)
    (ha : c.leaves? now = some a) :
    ∃ on delaySecs, t.Accepts (.setPower group on delaySecs) ∧ 0 < delaySecs := by
  obtain ⟨hmem, hset⟩ := lastSetting_eq_some hc
  obtain rfl | ⟨period, rfl⟩ | ⟨group', on, delaySecs, haccepts, rfl | ⟨hd, rfl⟩⟩ :=
    ht.cases_of_mem_settings hmem
  · cases ha
  · cases hset
  · cases ha
  · cases hset
    exact ⟨on, delaySecs, haccepts, hd⟩

/-- The report timer is always started to be due after the initial delay. -/
theorem due_of_starts_report (ht : t.Happens) {c : TimerCall} {now : Nat} {a : Armed}
    (hc : lastSetting .report (settings t.log) = some c) (ha : c.leaves? now = some a) :
    a.due = now + t.before.config.reportInitialDelayMs.toNat := by
  obtain ⟨hmem, hset⟩ := lastSetting_eq_some hc
  obtain rfl | ⟨period, rfl⟩ | ⟨group, on, delaySecs, -, rfl | ⟨-, rfl⟩⟩ :=
    ht.cases_of_mem_settings hmem
  · cases ha
  · cases ha
    rfl
  · cases ha
  · cases hset

end Turn.Happens

end MeshLight
