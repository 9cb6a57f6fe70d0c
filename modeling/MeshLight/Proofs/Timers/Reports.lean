import MeshLight.Node
import MeshLight.Proofs.Timers.Settings

/-!
# MeshLight.Proofs.Timers.Reports

The report timer in runs with the node's own timers. Whatever was asked of the node before, between
turns the timer does not run in testing mode, it does run while the node is registered and not in
testing mode, and its period is that of the current interval (`TimedRun.reports`).

The timer outlives the connection. So the invariant is not about the connection but about the
session (`Reports`), and most steps only expect less of the timer than was expected before
(`Eases`); the few others start or stop the timer themselves.
-/

namespace MeshLight

open Prog

/-! ## what the session expects -/

/-- What the session expects of the report timer. -/
structure Reports (s : Session) (ts : Timers) : Prop where
  silent : s.testing = true → ts.find? .report = none
  armed : s.registration.state = .registered → s.testing = false → ts.find? .report ≠ none
  periodic : ∀ a, ts.find? .report = some a → a.repetition = .every s.interval.period

/-- The later session expects no more of the report timer than the earlier one. -/
structure Eases (s s' : Session) : Prop where
  interval : s'.interval = s.interval
  testing : s'.testing = true → s.testing = true
  registered : s'.registration.state = .registered → s'.testing = false →
    s.registration.state = .registered ∧ s.testing = false

namespace Eases

variable {s s' s'' : Session}

theorem trans (h : Eases s s') (h' : Eases s' s'') : Eases s s'' where
  interval := h'.interval.trans h.interval
  testing htesting := h.testing (h'.testing htesting)
  registered hstate htesting :=
    have hmid := h'.registered hstate htesting
    h.registered hmid.1 hmid.2

/-- Nothing that the report timer depends on has changed. -/
theorem of_eq (hinterval : s'.interval = s.interval) (htesting : s'.testing = s.testing)
    (hregistration : s'.registration = s.registration) : Eases s s' where
  interval := hinterval
  testing h := htesting ▸ h
  registered hstate hoff := ⟨hregistration ▸ hstate, htesting ▸ hoff⟩

/-- Changing the progress of the registration, but not to success. -/
theorem of_registration {registration : Registration}
    (h : registration.state = .registered → s.registration.state = .registered) :
    Eases s { s with registration := registration } where
  interval := rfl
  testing := id
  registered hstate htesting := ⟨h hstate, htesting⟩

theorem enter (s : Session) : Eases s (SessionState.connected.enter s) := by
  unfold SessionState.enter
  dsimp only
  split <;> exact of_eq rfl rfl rfl

/-- The end of an episode ends testing mode, and nothing is registered then. -/
theorem leave (s : Session) : Eases s (SessionState.connected.leave s) where
  interval := rfl
  testing h := by cases h
  registered h := by cases h

end Eases

theorem Reports.mono {s s' : Session} {ts : Timers} (h : Reports s ts) (hease : Eases s s') :
    Reports s' ts where
  silent htesting := h.silent (hease.testing htesting)
  armed hstate htesting :=
    have hbefore := hease.registered hstate htesting
    h.armed hbefore.1 hbefore.2
  periodic := by rw [hease.interval]; exact h.periodic

/-! ## steps that expect no more -/

namespace Engine

variable {e e' : Engine} {log : List Exchange}

theorem Follows.eases (h : Follows e e') : Eases e.session e'.session := by
  have hfacing : Eases e.session e.facing := .of_eq rfl rfl rfl
  obtain ⟨-, hs⟩ | ⟨-, -, hs⟩ | ⟨-, -, hs⟩ := h.session
  · rw [hs]
    exact hfacing
  · rw [hs]
    exact hfacing.trans (.enter _)
  · rw [hs]
    exact hfacing.trans (.leave _)

theorem JoinStep.eases {e₁ : Engine} (h : JoinStep e e₁) : Eases e.session e₁.session := by
  cases h <;> exact .of_eq rfl rfl rfl

/-- An input that sets no timers expects no more of the report timer. -/
theorem eases_of_receive {input : Input} (h : Path (e.receive input) log e')
    (hstart : input = .start → e.state ≠ .connected) (hsets : input.setsTimers = false) :
    Eases e.session e'.session := by
  have hrefl : Eases e.session e.session := .of_eq rfl rfl rfl
  cases input with
  | start =>
      obtain ⟨-, role, rest, -, ⟨-, hfollow⟩ | ⟨-, rfl | ⟨e₁, hstep, hfollow⟩⟩⟩ :=
        path_startUp (hstart rfl) h
      · have htold : Eases e.session (e.told role).session := .of_eq rfl rfl rfl
        exact htold.trans hfollow.eases
      · exact hrefl
      · exact hstep.eases.trans hfollow.eases
  | event event =>
      cases event with
      | roleChanged role =>
          have htold : Eases e.session (e.told role).session := .of_eq rfl rfl rfl
          exact htold.trans (path_onRole h).2.eases
      | joinerChanged state =>
          obtain ⟨-, e₁, hstep, hfollow⟩ := path_onJoiner h
          exact hstep.eases.trans hfollow.eases
      | joinRequested =>
          obtain ⟨-, rfl | ⟨e₁, hstep, hfollow⟩⟩ := path_requestJoin h
          · exact hrefl
          · exact hstep.eases.trans hfollow.eases
      | reply kind payload =>
          cases kind with
          | provisioning =>
              obtain ⟨-, ⟨-, address, -, rfl⟩ | ⟨-, rfl⟩⟩ := path_onProvisioningReply h
              · exact .of_eq rfl rfl rfl
              · exact hrefl
          | status | trigger =>
              obtain ⟨-, rfl⟩ := path_done_iff.1 h
              exact hrefl
      | replyTimedOut kind =>
          obtain ⟨-, rfl | ⟨-, rfl⟩⟩ := path_onReplyTimeout h <;> exact hrefl
      | timerFired timer =>
          obtain ⟨-, ⟨-, rfl⟩ | ⟨-, rfl⟩⟩ := path_onTimer h
          · exact .of_eq rfl rfl rfl
          · exact hrefl
      | factoryResetRequested | reportRequested | trigger event =>
          obtain ⟨-, rfl⟩ := path_done_iff.1 h
          exact .of_eq rfl rfl rfl
      | registrationCompleted | commandReceived | setTesting => cases hsets

/-- Work does not lead to a registration that has succeeded. -/
theorem eases_of_execute {w : Work} (h : Path (e.execute w) log e') :
    Eases e.session e'.session := by
  cases alters_of_execute h with
  | registers _ r hr =>
      refine .of_registration fun hregistered => ?_
      obtain hr | hr := hr <;> rw [hr] at hregistered <;> cases hregistered
  | nothing | asks | boosts | releases | wipes => exact .of_eq rfl rfl rfl

theorem Drains.eases {tasks : List Task} (h : Drains e tasks e') :
    Eases e.session e'.session := by
  induction h with
  | rest => exact .of_eq rfl rfl rfl
  | @work e _ _ task hnext hdone hrest ih =>
      obtain ⟨rest, -, hbefore⟩ := nextWork?_eq_some_iff.1 hnext
      have hpop : Eases e.session task.before.session := by
        rw [hbefore]
        exact .of_eq rfl rfl rfl
      exact (hpop.trans (eases_of_execute hdone)).trans ih

end Engine

/-! ## steps that set the timer -/

/-- Only the first success makes a registration one that has succeeded. -/
theorem Registration.registered_of_apply {outcome : RegistrationOutcome} {r : Registration}
    (hfirst : (r.apply outcome).1 ≠ .firstSuccess)
    (hstate : (r.apply outcome).2.state = .registered) : r.state = .registered := by
  cases outcome with
  | registered => grind [apply]
  | removed => exact hstate
  | failed fault => grind [apply, fail]

/-- Switching a light group leaves the report timer alone. -/
theorem Action.lastSetting_setPower (config : Config) (running : Bool) (group : LightGroup)
    (on : Bool) (delaySecs : Nat) :
    lastSetting .report ((setPower group on delaySecs).timerCalls config running) = none := by
  by_cases hd : 0 < delaySecs <;> simp [timerCalls, hd, lastSetting, TimerCall.sets?]

/-- An action does not start the report timer if that does not run. -/
theorem Action.find?_report_eq_none {action : Action} {config : Config} {running : Bool}
    {log : List Exchange} {ts ts' : Timers} (hserves : ts.Serves log ts') (hsound : ts.Sound)
    (hsettings : settings log = action.timerCalls config running)
    (hasks : ∀ interval, action = .setReportInterval interval →
      ∃ rest, log = ⟨.timer (.isRunning .report), running⟩ :: rest)
    (hnone : ts.find? .report = none) : ts'.find? .report = none := by
  have hfind := hserves.find? hsound .report
  rw [hsettings] at hfind
  cases action with
  | setReportInterval interval =>
      obtain ⟨rest, rfl⟩ := hasks interval rfl
      have hrunning : running = false := by
        rw [show running = ts.isRunning .report from hserves.1, Timers.isRunning_eq_isSome, hnone]
        rfl
      rw [hrunning] at hfind
      exact hfind.trans hnone
  | setPower group on delaySecs =>
      rw [hfind, lastSetting_setPower, hnone]
  | setColor | setPin | lightStatus | pinStatus | setLinkMode | upgrade | factoryReset | reboot =>
      exact hfind.trans hnone

namespace Reports

variable {e e' : Engine} {log : List Exchange} {ts ts' : Timers}

/-- The timer was just started with the current interval. -/
theorem of_started {s : Session} {first : Nat} (htesting : s.testing = false)
    (h : ts'.find? .report =
      (TimerCall.startPeriodic .report first s.interval.period).leaves? ts.now) :
    Reports s ts' where
  silent hon := by rw [htesting] at hon; cases hon
  armed _ _ := by rw [h]; exact nofun
  periodic a ha := by
    rw [h] at ha
    cases ha
    rfl

/-- The timer does not run, and is not expected to. -/
theorem of_stopped {s : Session} (h : ts.find? .report = none)
    (hexpected : s.registration.state = .registered → s.testing = true) : Reports s ts where
  silent _ := h
  armed hstate htesting := by rw [hexpected hstate] at htesting; cases htesting
  periodic a ha := by rw [h] at ha; cases ha

/-- The first success of a registration starts the reports. -/
theorem onRegistration (h : Reports e.session ts) (hsound : ts.Sound)
    {outcome : RegistrationOutcome} (hpath : Path (e.onRegistration outcome) log e')
    (hserves : ts.Serves log ts') : Reports e'.session ts' := by
  obtain ⟨-, rfl⟩ := Engine.path_onRegistration hpath
  have hsettings := Engine.settings_onRegistration hpath
  by_cases hstarts : (e.session.registration.apply outcome).1 = .firstSuccess ∧
      e.session.testing = false
  · have hfind := hserves.find? hsound .report
    rw [hsettings, if_pos hstarts] at hfind
    exact of_started hstarts.2 hfind
  · rw [if_neg hstarts] at hsettings
    rw [hserves.eq_of_settings hsettings]
    -- what was registered before is still registered, and a new success is not outside testing mode
    refine ⟨h.silent, fun hstate htesting => h.armed ?_ htesting, h.periodic⟩
    exact Registration.registered_of_apply (fun hfirst => hstarts ⟨hfirst, htesting⟩) hstate

/-- Testing mode stops the reports, and leaving it starts them again. -/
theorem setTesting (h : Reports e.session ts) (hsound : ts.Sound) {on : Bool}
    (hpath : Path (e.setTesting on) log e') (hserves : ts.Serves log ts') :
    Reports e'.session ts' := by
  obtain ⟨rfl, hsettings⟩ | ⟨rfl, hsettings⟩ := Engine.settings_setTesting hpath
  · rw [hserves.eq_of_settings hsettings]
    exact h
  · have hfind := hserves.find? hsound .report
    cases on with
    | true =>
        rw [hsettings, if_pos rfl] at hfind
        exact of_stopped hfind fun _ => rfl
    | false =>
        rw [if_neg Bool.false_ne_true] at hsettings
        by_cases hregistered : e.session.registration.state = .registered
        · rw [hsettings, if_pos hregistered] at hfind
          exact of_started rfl hfind
        · rw [if_neg hregistered] at hsettings
          rw [hserves.eq_of_settings hsettings]
          exact ⟨nofun, fun hstate _ => absurd hstate hregistered, h.periodic⟩

/-- A new interval starts the reports again if they run. -/
theorem adjust {action : Action} {running : Bool} (h : Reports e.session ts) (hsound : ts.Sound)
    (hsettings : settings log = action.timerCalls e.config running)
    (hasks : ∀ interval, action = .setReportInterval interval →
      ∃ rest, log = ⟨.timer (.isRunning .report), running⟩ :: rest)
    (hserves : ts.Serves log ts') : Reports (action.adjust e.session) ts' := by
  have hfind := hserves.find? hsound .report
  rw [hsettings] at hfind
  cases action with
  | setReportInterval interval =>
      obtain ⟨rest, rfl⟩ := hasks interval rfl
      have hrunning : running = (ts.find? .report).isSome := by
        rw [hserves.1, Timers.answer, Timers.isRunning_eq_isSome]
      cases hfound : ts.find? .report with
      | none =>
          have hstill :=
            Action.find?_report_eq_none hserves hsound hsettings (fun _ _ => ⟨rest, rfl⟩) hfound
          refine of_stopped hstill fun hstate => ?_
          by_contra htesting
          exact h.armed hstate (Bool.eq_false_iff.2 htesting) hfound
      | some a =>
          rw [hfound] at hrunning
          rw [hrunning] at hfind
          have htesting : e.session.testing = false := by
            rw [Bool.eq_false_iff]
            intro hon
            rw [h.silent hon] at hfound
            cases hfound
          exact of_started htesting hfind
  | setPower group on delaySecs =>
      have hsame : ts'.find? .report = ts.find? .report := by
        rw [hfind, Action.lastSetting_setPower]
      exact ⟨fun hon => hsame.trans (h.silent hon), fun hs ht => hsame ▸ h.armed hs ht,
        hsame ▸ h.periodic⟩
  | setColor | setPin | lightStatus | pinStatus | setLinkMode | upgrade | factoryReset | reboot =>
      rw [hserves.eq_of_settings hsettings]
      exact h

theorem onCommand (h : Reports e.session ts) (hsound : ts.Sound) {request : InboundRequest}
    (hpath : Path (e.onCommand request) log e') (hserves : ts.Serves log ts') :
    Reports e'.session ts' := by
  obtain ⟨hsettings, hs, -⟩ | ⟨-, command, action, running, -, -, hs, hsettings, hasks⟩ :=
    Engine.settings_onCommand hpath
  · rw [hserves.eq_of_settings hsettings, hs]
    exact h.mono (.of_eq rfl rfl rfl)
  · rw [hs]
    exact (h.adjust hsound hsettings hasks hserves).mono (.of_eq rfl rfl rfl)

/-- Time that passes makes the report timer due again, never run out. -/
theorem tick {s : Session} (h : Reports s ts) (hsound : ts.Sound) (elapsed : Nat) :
    Reports s (ts.tick elapsed).2 := by
  have hfind := Timers.find?_tick hsound elapsed .report
  cases hfound : ts.find? .report with
  | none =>
      rw [hfound] at hfind
      refine ⟨fun _ => hfind, fun hs ht => absurd hfound (h.armed hs ht), fun a ha => ?_⟩
      rw [hfind] at ha
      cases ha
  | some a =>
      obtain ⟨b, hb, hbperiod⟩ :=
        Timers.find?_tick_of_every hsound hfound (h.periodic a hfound) elapsed
      refine ⟨fun ht => ?_, fun _ _ => by rw [hb]; exact nofun, fun c hc => ?_⟩
      · rw [h.silent ht] at hfound
        cases hfound
      · rw [hb] at hc
        cases hc
        exact hbperiod

/-- A turn. -/
theorem turn {t : Turn} (h : Reports t.before.session ts) (hsound : ts.Sound) (ht : t.Happens)
    (hstart : t.input = .start → t.before.state ≠ .connected) (hserves : ts.Serves t.log ts') :
    Reports t.after.session ts' := by
  obtain ⟨mid, hopening, hwork⟩ := Timers.serves_append_iff.1 hserves
  rw [hwork.eq_of_settings ht.drains.settings_log]
  refine Reports.mono ?_ ht.drains.eases
  have hreceives := ht.receives
  cases hsets : t.input.setsTimers with
  | false =>
      have hnone := ht.settings_of_setsTimers hsets
      rw [ht.settings_log] at hnone
      rw [hopening.eq_of_settings hnone]
      exact h.mono (Engine.eases_of_receive hreceives hstart hsets)
  | true =>
      cases hinput : t.input with
      | start => rw [hinput] at hsets; cases hsets
      | event event =>
          rw [hinput] at hreceives hsets
          cases event with
          | registrationCompleted outcome => exact h.onRegistration hsound hreceives hopening
          | commandReceived request => exact h.onCommand hsound hreceives hopening
          | setTesting on => exact h.setTesting hsound hreceives hopening
          | _ => cases hsets

end Reports

/-! ## runs with timers -/

/-- Runs whose timers are the node's own: these answer every call to the timers, and time may pass
before and after each turn. -/
inductive TimedRun (config : Config) : List Turn → Engine → Timers → Prop where
  | new {e : Engine} (hnew : Engine.new config = .ok e) : TimedRun config [] e .initial
  | start {ts ts' : Timers} (t : Turn) (run : TimedRun config [] t.before ts)
      (hinput : t.input = .start) (ht : t.Happens) (hserves : ts.Serves t.log ts') :
      TimedRun config [t] t.after ts'
  | handle {turns : List Turn} {ts ts' : Timers} (t : Turn) (event : Event) (hne : turns ≠ [])
      (run : TimedRun config turns t.before ts) (hinput : t.input = .event event)
      (ht : t.Happens) (hserves : ts.Serves t.log ts') : TimedRun config (turns ++ [t]) t.after ts'
  | tick {turns : List Turn} {e : Engine} {ts : Timers} (elapsed : Nat)
      (run : TimedRun config turns e ts) : TimedRun config turns e (ts.tick elapsed).2

namespace TimedRun

variable {config : Config} {turns : List Turn} {e : Engine} {ts : Timers}

theorem new_of_nil (run : TimedRun config [] e ts) : Engine.new config = .ok e := by
  generalize hturns : ([] : List Turn) = turns at run
  induction run with
  | new hnew => exact hnew
  | tick elapsed run ih => exact ih hturns
  | start => cases hturns
  | handle => exact absurd hturns.symm (List.append_ne_nil_of_right_ne_nil _ (List.cons_ne_nil _ _))

/-- A run with timers is a run. -/
theorem run (run : TimedRun config turns e ts) (hne : turns ≠ []) : Run config turns e := by
  induction run with
  | new => exact absurd rfl hne
  | tick elapsed run ih => exact ih hne
  | start t run hinput ht hserves => exact .start t run.new_of_nil hinput ht
  | handle t event hpast run hinput ht hserves ih => exact .handle t event (ih hpast) hinput ht

/-- Time passes between turns only: the timers keep to what the session expects. -/
theorem reports_session (run : TimedRun config turns e ts) : ts.Sound ∧ Reports e.session ts := by
  induction run with
  | new hnew =>
      obtain ⟨interval, -, hsession, -⟩ := Engine.new_eq_ok hnew
      rw [hsession]
      exact ⟨Timers.sound_initial, .of_stopped rfl nofun⟩
  | start t run hinput ht hserves ih =>
      have hs := Engine.state_new run.new_of_nil
      exact ⟨hserves.sound ih.1, ih.2.turn ih.1 ht (fun _ => hs) hserves⟩
  | handle t event hne run hinput ht hserves ih =>
      have hstart : t.input = .start → t.before.state ≠ .connected :=
        fun hstart => absurd hstart (Turn.ne_start_of_event hinput)
      exact ⟨hserves.sound ih.1, ih.2.turn ih.1 ht hstart hserves⟩
  | tick elapsed run ih => exact ⟨ih.1.tick elapsed, ih.2.tick ih.1 elapsed⟩

/-- The report timer follows the session. Between turns it does not run in testing mode, it runs
while the node is registered and not in testing mode, and it always repeats with the period of the
current interval. -/
theorem report_timer_follows (run : TimedRun config turns e ts) :
    (e.session.testing = true → ts.isRunning .report = false) ∧
    (e.session.registration.state = .registered → e.session.testing = false →
      ts.isRunning .report = true) ∧
    ∀ a, some a ∈ ts.slots → a.timer = .report →
      a.repetition = .every e.session.interval.period := by
  obtain ⟨hsound, hreports⟩ := run.reports_session
  rw [Timers.isRunning_eq_isSome]
  refine ⟨fun htesting => ?_, fun hstate htesting => ?_, fun a ha htimer => ?_⟩
  · rw [hreports.silent htesting]
    rfl
  · exact Option.isSome_iff_ne_none.2 (hreports.armed hstate htesting)
  · exact hreports.periodic a ((Timers.find?_eq_some_iff hsound).2 ⟨ha, htimer⟩)

/-! ## surroundings with timers -/

/-- A run with timers goes on in surroundings that hold the timers. -/
theorem handleAll {answer : (c : Call) → σ → c.Answer × σ} {timers : σ → Timers}
    (hkeeps : KeepsTimers answer timers) (events : List Event) {s : σ} (hne : turns ≠ [])
    (run : TimedRun config turns e (timers s)) :
    ∃ later, TimedRun config (turns ++ later) ((Engine.handleAll events e).run answer s).1
        (timers ((Engine.handleAll events e).run answer s).2) ∧
      later.map Turn.input = events.map Input.event := by
  induction events generalizing turns e s with
  | nil => exact ⟨[], by rwa [List.append_nil], rfl⟩
  | cons event events ih =>
      obtain ⟨t, ht, hinput, rfl, hlog, hafter⟩ :=
        (Engine.path_take_iff (.event event)).1 (path_run answer (e.handle event) s)
      have hserves := hkeeps.serves (t.before.handle event) s
      rw [← hlog] at hserves
      have hrun := run.handle t event hne hinput ht hserves
      rw [hafter] at hrun
      obtain ⟨later, hlater, hinputs⟩ := ih (by simp) hrun
      rw [Engine.handleAll, run_bind]
      refine ⟨t :: later, ?_, by rw [List.map_cons, List.map_cons, hinputs, hinput]⟩
      rwa [List.append_assoc] at hlater

end TimedRun

/-- Surroundings that hold the node's timers run the engine along one of the runs with timers. -/
theorem exists_timedRun_of_answer {config : Config} {e₀ : Engine}
    (hnew : Engine.new config = .ok e₀) (events : List Event)
    {answer : (c : Call) → σ → c.Answer × σ} {timers : σ → Timers}
    (hkeeps : KeepsTimers answer timers) {s : σ} (hs : timers s = .initial) :
    ∃ turns, TimedRun config turns ((e₀.start >>= Engine.handleAll events).run answer s).1
        (timers ((e₀.start >>= Engine.handleAll events).run answer s).2) ∧
      turns.map Turn.input = .start :: events.map Input.event := by
  obtain ⟨t, ht, hinput, rfl, hlog, hafter⟩ :=
    (Engine.path_take_iff .start).1 (path_run answer e₀.start s)
  have hserves := hkeeps.serves t.before.start s
  rw [← hlog, hs] at hserves
  have hrun := TimedRun.start t (.new hnew) hinput ht hserves
  rw [hafter] at hrun
  obtain ⟨later, hlater, hinputs⟩ := hrun.handleAll hkeeps events (by simp)
  rw [run_bind]
  exact ⟨t :: later, hlater, by rw [List.map_cons, hinput, hinputs]⟩

theorem Host.keepsTimers : KeepsTimers Host.answer Host.timers where
  timer _ _ := ⟨rfl, rfl⟩
  mesh _ _ := rfl
  board _ _ := rfl
  emit _ _ := rfl

/-- A simulated node that has just registered. -/
theorem TimedRun.report_timer_follows_simulated :
    ∃ turns e ts, TimedRun .default turns e ts ∧ turns.map Turn.input =
        [.start, .event (.roleChanged .child), .event (.registrationCompleted .registered)] ∧
      e.session.registration.state = .registered ∧ e.session.testing = false ∧
      ts.isRunning .report = true := by
  obtain ⟨turns, run, hinputs⟩ := exists_timedRun_of_answer Engine.new_default
    [.roleChanged .child, .registrationCompleted .registered] Host.keepsTimers
    (s := .initial .disabled) rfl
  have hregistered : ((Engine.default.start >>= Engine.handleAll [.roleChanged .child,
      .registrationCompleted .registered]).run Host.answer
        (.initial .disabled)).1.session.registration.state = .registered ∧
      ((Engine.default.start >>= Engine.handleAll [.roleChanged .child,
        .registrationCompleted .registered]).run Host.answer
          (.initial .disabled)).1.session.testing = false := by
    decide
  obtain ⟨-, harmed, -⟩ := run.report_timer_follows
  exact ⟨turns, _, _, run, hinputs, hregistered.1, hregistered.2,
    harmed hregistered.1 hregistered.2⟩

end MeshLight
