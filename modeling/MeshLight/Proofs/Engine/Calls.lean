import MeshLight.Proofs.Session.Episode

/-!
# MeshLight.Proofs.Engine.Calls

Which calls a program may make at all, whatever it is answered (`Prog.Only`). Each piece of work and
each input has its own few calls (`Work.mayCall`, `Input.mayCall`), and an input asks for work of a
few kinds (`Input.mayAsk`). So a call that is found in a turn tells what the turn was about
(`Turn.Happens.call_cases`, `Turn.Happens.work_cases`).
-/

namespace MeshLight

open Prog

/-! ## programs with limited calls -/

namespace Prog

/-- The program makes only calls that satisfy the test. -/
def Only (test : Call → Bool) : Prog α → Prop
  | .done _ => True
  | .call c next => test c = true ∧ ∀ answer, (next answer).Only test

variable {test : Call → Bool}

@[simp] theorem only_done (a : α) : (done a).Only test := trivial

@[simp] theorem only_call {c : Call} {next : c.Answer → Prog α} :
    (call c next).Only test ↔ test c = true ∧ ∀ answer, (next answer).Only test := .rfl

theorem Only.bind {p : Prog α} {f : α → Prog β} (hp : p.Only test) (hf : ∀ a, (f a).Only test) :
    (p >>= f).Only test := by
  induction p with
  | done a => exact hf a
  | call c next ih => exact ⟨hp.1, fun answer => ih answer (hp.2 answer)⟩

theorem Only.mono {test' : Call → Bool} {p : Prog α} (hp : p.Only test)
    (h : ∀ c, test c = true → test' c = true) : p.Only test' := by
  induction p with
  | done a => trivial
  | call c next ih => exact ⟨h c hp.1, fun answer => ih answer (hp.2 answer)⟩

/-- A program that may fail, and one that follows unless it does. -/
theorem Only.run_bind {p : ExceptT ε Prog α} {f : α → ExceptT ε Prog β} (hp : p.run.Only test)
    (hf : ∀ a, (f a).run.Only test) : (p >>= f).run.Only test := by
  rw [ExceptT.run_bind]
  refine hp.bind fun answer => ?_
  cases answer with
  | ok a => exact hf a
  | error fault => trivial

theorem Path.only {p : Prog α} {log : List Exchange} {a : α} (h : Path p log a)
    (hp : p.Only test) : ∀ x ∈ log, test x.call = true := by
  induction h with
  | done a => exact fun x hx => absurd hx List.not_mem_nil
  | call c next answer _ ih =>
      intro x hx
      obtain rfl | hx := List.mem_cons.1 hx
      · exact hp.1
      · exact ih (hp.2 answer) x hx

end Prog

/-! ## calls of work -/

/-- The calls that a piece of work may make. -/
def Work.mayCall : Work → Call → Bool
  | .indicateConnected | .indicateDisconnected | .indicateJoining | .indicateIdle => fun
    | .board (.setIndicator _) => true
    | _ => false
  | .sendProvisioning => fun
    | .mesh .linkMode | .mesh .pollPeriod | .mesh (.setPollPeriod _) | .mesh (.send _) => true
    | _ => false
  | .releasePollBoost => fun
    | .mesh (.setPollPeriod _) => true
    | _ => false
  | .beginRegistration => fun
    | .mesh .identity | .mesh (.setHostName _) | .mesh (.setHostAddress _) | .mesh (.addService _)
    | .mesh .enableAutostart | .emit (.registrationChanged _) => true
    | _ => false
  | .reportStatus => fun
    | .mesh .identity | .mesh (.send _) | .board .sample | .board .readings
    | .board (.setIndicator _) | .emit (.statusReported _) => true
    | _ => false
  | .emitTrigger _ => fun
    | .mesh .identity | .mesh (.send _) | .board (.setIndicator _) | .emit (.triggerSent _ _) => true
    | _ => false
  | .startManagement => fun
    | .board .startManagement => true
    | _ => false
  | .factoryReset _ => fun
    | .board (.delay _) | .mesh (.removeAll _) | .mesh .factoryReset => true
    | _ => false
  | .reboot _ => fun
    | .board (.delay _) | .board .reboot => true
    | _ => false

theorem Work.eq_of_mayCall_releasePollBoost {c : Call}
    (h : Work.releasePollBoost.mayCall c = true) : ∃ ms, c = .mesh (.setPollPeriod ms) := by
  dsimp only [mayCall] at h
  split at h
  · exact ⟨_, rfl⟩
  · cases h

/-- Work that entering or leaving the connected state asks for. -/
def Work.isFollowing : Work → Bool
  | .indicateConnected | .sendProvisioning | .beginRegistration | .indicateDisconnected
  | .releasePollBoost => true
  | _ => false

/-- Work that joining, and following the facts after it, asks for. -/
def Work.isOfJoining (w : Work) : Bool := w.isFollowing || w.isSignal

namespace PollBoost

theorem only_restore (b : PollBoost) : b.restore.Only Work.releasePollBoost.mayCall := by
  obtain ⟨_ | saved⟩ := b <;> simp [restore, mesh, Work.mayCall]

theorem only_engage (b : PollBoost) (ms : UInt32) :
    (b.engage ms).Only Work.sendProvisioning.mayCall := by
  simp only [engage, mesh, bind_call, bind_done, only_call]
  refine ⟨rfl, fun mode => ?_⟩
  split
  · trivial
  · refine ⟨rfl, fun current => ⟨rfl, fun answer => ?_⟩⟩
    cases answer <;> trivial

end PollBoost

namespace Engine

variable {e e' : Engine} {log : List Exchange}

theorem only_restorePoll (e : Engine) : e.restorePoll.Only Work.releasePollBoost.mayCall :=
  e.boost.only_restore.bind fun _ => trivial

theorem only_indicate {mode : IndicatorMode} {test : Call → Bool}
    (h : test (.board (.setIndicator mode)) = true) : (e.indicate mode).Only test :=
  ⟨h, fun _ => trivial⟩

theorem only_sendProvisioning (e : Engine) :
    e.sendProvisioning.Only Work.sendProvisioning.mayCall := by
  unfold sendProvisioning
  split
  · trivial
  · refine (e.boost.only_engage _).bind fun boost => ⟨rfl, fun answer => ?_⟩
    cases answer with
    | ok u => trivial
    | error fault =>
        refine (only_restorePoll _).mono fun c hc => ?_
        obtain ⟨ms, rfl⟩ := Work.eq_of_mayCall_releasePollBoost hc
        rfl

theorem only_advertise (e : Engine) : e.advertise.run.Only Work.beginRegistration.mayCall := by
  refine Only.run_bind ⟨rfl, fun _ => trivial⟩ fun id => ?_
  refine Only.run_bind ⟨rfl, fun _ => trivial⟩ fun _ => ?_
  refine Only.run_bind ⟨rfl, fun _ => trivial⟩ fun _ => ?_
  exact Only.run_bind ⟨rfl, fun _ => trivial⟩ fun _ => ⟨rfl, fun _ => trivial⟩

theorem only_beginRegistration (e : Engine) :
    e.beginRegistration.Only Work.beginRegistration.mayCall := by
  unfold beginRegistration
  split
  · trivial
  · refine e.only_advertise.bind fun r => ?_
    cases r <;> exact ⟨rfl, fun _ => trivial⟩

theorem only_reportStatus (e : Engine) : e.reportStatus.Only Work.reportStatus.mayCall := by
  unfold reportStatus
  split
  · trivial
  · split
    · trivial
    · simp only [sendReport, board, mesh, bind_call, bind_done, only_call]
      refine ⟨rfl, fun _ => ⟨rfl, fun id => ⟨rfl, fun readings => ⟨rfl, fun answer => ?_⟩⟩⟩⟩
      cases answer with
      | error fault => trivial
      | ok u => exact ⟨rfl, fun _ => ⟨rfl, fun _ => trivial⟩⟩

theorem only_emitTrigger (event : TriggerEvent) (e : Engine) :
    (e.emitTrigger event).Only (Work.emitTrigger event).mayCall := by
  unfold emitTrigger
  split
  · trivial
  · split
    · trivial
    · simp only [sendAlong, mesh, bind_call, bind_done, only_call]
      refine ⟨rfl, fun id => ⟨rfl, fun answer => ?_⟩⟩
      cases answer with
      | error fault => trivial
      | ok u =>
          dsimp only
          split
          · exact ⟨rfl, fun _ => ⟨rfl, fun _ => trivial⟩⟩
          · exact ⟨rfl, fun _ => trivial⟩

theorem only_execute (w : Work) (e : Engine) : (e.execute w).Only w.mayCall := by
  cases w with
  | indicateConnected | indicateDisconnected | indicateJoining | indicateIdle =>
      exact only_indicate rfl
  | sendProvisioning => exact e.only_sendProvisioning
  | releasePollBoost => exact e.only_restorePoll
  | beginRegistration => exact e.only_beginRegistration
  | reportStatus => exact e.only_reportStatus
  | emitTrigger event => exact e.only_emitTrigger event
  | startManagement => exact ⟨rfl, fun _ => trivial⟩
  | factoryReset graceMs => exact ⟨rfl, fun _ => ⟨rfl, fun _ => ⟨rfl, fun _ => trivial⟩⟩⟩
  | reboot graceMs => exact ⟨rfl, fun _ => ⟨rfl, fun _ => trivial⟩⟩

/-- Work that was waiting, or the question for the coordinator's address, is all that is done. -/
theorem Drains.work_mem {tasks : List Task} (h : Drains e tasks e') :
    ∀ task ∈ tasks, task.work ∈ e.session.work.items ∨ task.work = .sendProvisioning := by
  induction h with
  | rest => exact fun task h => absurd h List.not_mem_nil
  | @work e _ _ task hnext hdone hrest ih =>
      obtain ⟨rest, hitems, hbefore⟩ := nextWork?_eq_some_iff.1 hnext
      have hafter : ∀ w ∈ task.after.session.work.items,
          w ∈ e.session.work.items ∨ w = .sendProvisioning := by
        intro w hw
        obtain hwork | ⟨-, -, hafter⟩ := (path_execute hdone).2
        · rw [hwork, hbefore] at hw
          rw [hitems]
          exact .inl (List.mem_cons_of_mem _ hw)
        · rw [hafter] at hw
          obtain hw | hw := WorkQueue.mem_of_mem_submit hw
          · rw [hbefore] at hw
            rw [hitems]
            exact .inl (List.mem_cons_of_mem _ hw)
          · exact .inr hw
      intro later hlater
      obtain rfl | hlater := List.mem_cons.1 hlater
      · rw [hitems]
        exact .inl (List.mem_cons_self ..)
      · exact (ih later hlater).elim (hafter _) .inr

theorem Drains.mayCall {tasks : List Task} (h : Drains e tasks e') :
    ∀ task ∈ tasks, ∀ x ∈ task.log, task.work.mayCall x.call = true :=
  fun task htask => (h.executes task htask).only (only_execute _ _)

end Engine

/-! ## calls of inputs -/

/-- The calls that applying an input may make, before the work that it asks for. -/
def Input.mayCall : Input → Call → Bool
  | .start, .emit (.started _) | .start, .mesh .role | .start, .timer .now
  | .start, .mesh .startJoiner | .start, .emit (.sessionChanged _ _) => true
  | .event (.roleChanged _), .emit (.sessionChanged _ _) => true
  | .event (.joinerChanged .idle), .timer .now | .event (.joinerChanged .idle), .mesh .startJoiner
  | .event (.joinerChanged .idle), .emit (.joinGaveUp _)
  | .event (.joinerChanged _), .emit (.sessionChanged _ _) => true
  | .event .joinRequested, .timer .now | .event .joinRequested, .mesh .startJoiner
  | .event .joinRequested, .emit (.sessionChanged _ _) => true
  | .event (.reply _ _), .mesh (.setPollPeriod _)
  | .event (.reply _ _), .emit (.peerDiscovered _) => true
  | .event (.replyTimedOut _), .mesh (.setPollPeriod _) => true
  | .event (.registrationCompleted _), .board .startManagement
  | .event (.registrationCompleted _), .timer (.startPeriodic .report _ _)
  | .event (.registrationCompleted _), .emit (.registrationChanged _) => true
  | .event (.commandReceived _), .mesh (.setLinkMode _)
  | .event (.commandReceived _), .mesh (.respond _ _)
  | .event (.commandReceived _), .board (.setGroupPower _ _)
  | .event (.commandReceived _), .board (.setGroupColor _ _)
  | .event (.commandReceived _), .board (.groupStatus _)
  | .event (.commandReceived _), .board (.setPin _ _) | .event (.commandReceived _), .board .pins
  | .event (.commandReceived _), .timer (.startPeriodic .report _ _)
  | .event (.commandReceived _), .timer (.startOnce (.lightOff _) _)
  | .event (.commandReceived _), .timer (.stop _)
  | .event (.commandReceived _), .timer (.isRunning .report)
  | .event (.commandReceived _), .emit (.commandHandled _ _) => true
  | .event (.timerFired (.lightOff _)), .board (.setGroupPower _ false) => true
  | .event (.setTesting _), .timer (.startPeriodic .report _ _)
  | .event (.setTesting _), .timer (.stop .report)
  | .event (.setTesting _), .emit (.testingChanged _) => true
  | _, _ => false

/-- The work that an input may ask for, apart from what that work asks for itself. -/
def Input.mayAsk : Input → Work → Bool
  | .event (.roleChanged _), w => w.isFollowing
  | .start, w | .event (.joinerChanged _), w | .event .joinRequested, w => w.isOfJoining
  | .event (.reply _ _), .reportStatus | .event (.timerFired _), .reportStatus
  | .event .reportRequested, .reportStatus => true
  | .event (.commandReceived _), w => w.isMaintenance
  | .event .factoryResetRequested, .factoryReset _ => true
  | .event (.trigger _), .emitTrigger _ => true
  | _, _ => false

namespace Action

variable {config : Config} {s : Session}

/-- The calls of commands. -/
def calls : Call → Bool := Input.mayCall (.event (.commandReceived ⟨0, .put, []⟩))

theorem mayCall_commandReceived (request : InboundRequest) :
    (Input.event (.commandReceived request)).mayCall = calls := by
  funext c
  unfold calls Input.mayCall
  split <;> simp_all

/-- The calls that carry out an action: those of commands, apart from the answer and the notice that
a command was handled. -/
def mayCall (c : Call) : Bool := calls c && !c.isMessage && c.handled?.isNone

theorem calls_of_mayCall {c : Call} (h : mayCall c = true) : calls c = true :=
  (Bool.and_eq_true_iff.1 (Bool.and_eq_true_iff.1 h).1).1

theorem only_actuate {p : Prog (Except ActuatorFault α)} {test : Call → Bool} (hp : p.Only test) :
    (actuate p).run.Only test := by
  refine Only.run_bind (hp.bind fun _ => trivial) fun answer => ?_
  cases answer <;> trivial

theorem only_lightEntries (groups : List LightGroup) : (lightEntries groups).run.Only mayCall := by
  induction groups with
  | nil => trivial
  | cons group rest ih =>
      refine Only.run_bind (only_actuate ⟨rfl, fun _ => trivial⟩) fun status => ?_
      exact Only.run_bind ih fun entries => trivial

theorem only_power (group : LightGroup) (on : Bool) (delaySecs : Nat) :
    (power group on delaySecs).run.Only mayCall := by
  refine Only.run_bind (only_actuate ⟨rfl, fun _ => trivial⟩) fun _ => ?_
  split <;> exact ⟨rfl, fun _ => trivial⟩

theorem only_restartReports (config : Config) (interval : ReportInterval) :
    (restartReports config interval).Only mayCall := by
  refine ⟨rfl, fun running => ?_⟩
  cases running with
  | false => trivial
  | true => exact ⟨rfl, fun _ => ⟨rfl, fun _ => trivial⟩⟩

theorem only_perform (action : Action) : (perform config s action).run.Only mayCall := by
  cases action with
  | setPower group on delaySecs =>
      exact Only.run_bind (only_power group on delaySecs) fun _ => trivial
  | setColor | setPin =>
      exact Only.run_bind (only_actuate ⟨rfl, fun _ => trivial⟩) fun _ => trivial
  | lightStatus => exact Only.run_bind (only_lightEntries _) fun _ => trivial
  | pinStatus => exact Only.run_bind ⟨rfl, fun _ => trivial⟩ fun _ => trivial
  | setReportInterval interval =>
      exact Only.run_bind ((only_restartReports config interval).bind fun _ => trivial)
        fun _ => trivial
  | setLinkMode mode =>
      refine Only.run_bind ⟨rfl, fun _ => trivial⟩ fun answer => ?_
      cases answer <;> trivial
  | upgrade | factoryReset | reboot => trivial

end Action

theorem only_dispatch (config : Config) (body : Bytes) (s : Session) :
    (dispatch config body s).Only Action.mayCall := by
  unfold dispatch
  split
  · trivial
  · refine (Action.only_perform _).bind fun r => ?_
    cases r <;> trivial

namespace Engine

variable {e e' : Engine} {log : List Exchange}

theorem only_sync (e : Engine) {test : Call → Bool}
    (h : ∀ old new, test (.emit (.sessionChanged old new)) = true) : e.sync.Only test := by
  unfold sync
  dsimp only
  split
  · exact ⟨h _ _, fun _ => trivial⟩
  · trivial

theorem only_requestJoin (e : Engine) :
    e.requestJoin.Only (Input.event .joinRequested).mayCall := by
  unfold requestJoin
  split
  · trivial
  · simp only [timer, mesh, bind_call, bind_done, only_call]
    refine ⟨rfl, fun now => ?_⟩
    split
    · trivial
    · refine ⟨rfl, fun answer => ?_⟩
      cases answer <;> exact only_sync _ fun _ _ => rfl

theorem only_onJoiner (state : JoinerState) (e : Engine) :
    (e.onJoiner state).Only (Input.event (.joinerChanged state)).mayCall := by
  cases state with
  | idle =>
      refine Only.bind ?_ fun e' => only_sync _ fun _ _ => rfl
      simp only [onJoinerIdle, timer, mesh, emit, bind_call, bind_done, only_call]
      refine ⟨rfl, fun now => ?_⟩
      split
      · refine ⟨rfl, fun answer => ?_⟩
        cases answer <;> trivial
      · exact ⟨rfl, fun _ => trivial⟩
      · trivial
  | joined | discover | connect | connected | entrust => exact only_sync _ fun _ _ => rfl

theorem only_apply (event : Event) (e : Engine) :
    (e.apply event).Only (Input.event event).mayCall := by
  cases event with
  | roleChanged role => exact only_sync _ fun _ _ => rfl
  | joinerChanged state => exact only_onJoiner state e
  | joinRequested => exact only_requestJoin e
  | reply kind payload =>
      cases kind with
      | provisioning =>
          refine ((only_restorePoll e).mono fun c hc => ?_).bind fun e' => ?_
          · obtain ⟨ms, rfl⟩ := Work.eq_of_mayCall_releasePollBoost hc
            rfl
          · split
            · trivial
            · split
              · exact ⟨rfl, fun _ => trivial⟩
              · trivial
      | status | trigger => trivial
  | replyTimedOut kind =>
      cases kind with
      | provisioning =>
          refine (only_restorePoll e).mono fun c hc => ?_
          obtain ⟨ms, rfl⟩ := Work.eq_of_mayCall_releasePollBoost hc
          rfl
      | status | trigger => trivial
  | registrationCompleted outcome =>
      simp only [apply, onRegistration]
      split
      · trivial
      · exact ⟨rfl, fun _ => trivial⟩
      · refine ⟨rfl, fun _ => ?_⟩
        dsimp only
        split
        · exact ⟨rfl, fun _ => ⟨rfl, fun _ => trivial⟩⟩
        · exact ⟨rfl, fun _ => trivial⟩
  | commandReceived request =>
      simp only [apply, onCommand]
      split
      · trivial
      · rw [Action.mayCall_commandReceived]
        refine Only.bind ((only_dispatch _ _ _).mono fun c => Action.calls_of_mayCall)
          fun r => ⟨rfl, fun _ => ⟨rfl, fun _ => ?_⟩⟩
        dsimp only [bind_done]
        split <;> trivial
  | timerFired timer =>
      cases timer with
      | report => trivial
      | lightOff group => exact ⟨rfl, fun _ => trivial⟩
  | setTesting on =>
      simp only [apply, setTesting]
      split
      · trivial
      · split
        · exact ⟨rfl, fun _ => ⟨rfl, fun _ => trivial⟩⟩
        · split
          · exact ⟨rfl, fun _ => ⟨rfl, fun _ => trivial⟩⟩
          · exact ⟨rfl, fun _ => trivial⟩
  | factoryResetRequested | reportRequested | trigger => trivial

theorem only_startUp (e : Engine) : e.startUp.Only Input.start.mayCall := by
  simp only [startUp, emit, mesh, bind_call, bind_done, only_call]
  refine ⟨rfl, fun _ => ⟨rfl, fun role => ?_⟩⟩
  split
  · exact only_sync _ fun _ _ => rfl
  · split
    · refine (only_requestJoin _).mono fun c hc => ?_
      unfold Input.mayCall at hc
      split at hc <;> simp_all [Input.mayCall]
    · trivial

theorem only_receive (input : Input) (e : Engine) : (e.receive input).Only input.mayCall := by
  cases input with
  | start => exact e.only_startUp
  | event event => exact e.only_apply event

/-! ## work that is asked for -/

/-- Work that waits after a request for some was waiting already, or passes what that passes. -/
theorem passes_of_mem_submit {test : Work → Bool} {v w : Work} {q : WorkQueue} (hv : test v = true)
    (h : w ∈ (q.submit v).2.items) : w ∈ q.items ∨ test w = true := by
  obtain h | rfl := WorkQueue.mem_of_mem_submit h
  · exact .inl h
  · exact .inr hv

theorem isFollowing_of_mem_enter {s : Session} {w : Work}
    (h : w ∈ (SessionState.connected.enter s).work.items) :
    w ∈ s.work.items ∨ w.isFollowing = true := by
  have hfirst : w ∈ ((s.submit .indicateConnected).submit .sendProvisioning).work.items →
      w ∈ s.work.items ∨ w.isFollowing = true := fun h =>
    (passes_of_mem_submit rfl h).elim (passes_of_mem_submit rfl) .inr
  cases hbegin : s.registration.canBegin with
  | false => exact hfirst (by simpa [SessionState.enter, Session.submit, hbegin] using h)
  | true =>
      have h : w ∈ (((s.submit .indicateConnected).submit .sendProvisioning).submit
          .beginRegistration).work.items := by
        simpa [SessionState.enter, Session.submit, hbegin] using h
      exact (passes_of_mem_submit rfl h).elim hfirst .inr

theorem isFollowing_of_mem_leave {s : Session} {w : Work}
    (h : w ∈ (SessionState.connected.leave s).work.items) :
    w ∈ s.work.items ∨ w.isFollowing = true :=
  (passes_of_mem_submit (v := .releasePollBoost) rfl h).elim
    (passes_of_mem_submit (v := .indicateDisconnected) rfl) .inr

theorem Follows.asked (h : Follows e e') {w : Work} (hw : w ∈ e'.session.work.items) :
    w ∈ e.session.work.items ∨ w.isFollowing = true := by
  obtain ⟨-, hs⟩ | ⟨-, -, hs⟩ | ⟨-, -, hs⟩ := h.session
  · rw [hs] at hw
    exact .inl hw
  · rw [hs] at hw
    exact isFollowing_of_mem_enter (s := e.facing) hw
  · rw [hs] at hw
    exact isFollowing_of_mem_leave (s := e.facing) hw

theorem Follows.asked_of_joinStep {e₁ : Engine} (h : Follows e₁ e') (hstep : JoinStep e e₁)
    {w : Work} (hw : w ∈ e'.session.work.items) :
    w ∈ e.session.work.items ∨ w.isOfJoining = true := by
  obtain hw | hw := h.asked hw
  · cases hstep with
    | quiet join => exact .inl hw
    | signal join v hv =>
        have hv : v.isOfJoining = true := by rw [Work.isOfJoining, hv, Bool.or_true]
        exact passes_of_mem_submit hv hw
  · exact .inr (by rw [Work.isOfJoining, hw, Bool.true_or])

/-- Applying an event adds to the waiting work only what the event may ask for. -/
theorem asked_of_apply {event : Event} (h : Path (e.apply event) log e') {w : Work}
    (hw : w ∈ e'.session.work.items) :
    w ∈ e.session.work.items ∨ (Input.event event).mayAsk w = true := by
  cases event with
  | roleChanged role => exact (path_onRole h).2.asked hw
  | joinerChanged state =>
      obtain ⟨-, e₁, hstep, hfollow⟩ := path_onJoiner h
      exact hfollow.asked_of_joinStep hstep hw
  | joinRequested =>
      obtain ⟨-, rfl | ⟨e₁, hstep, hfollow⟩⟩ := path_requestJoin h
      · exact .inl hw
      · exact hfollow.asked_of_joinStep hstep hw
  | reply kind payload =>
      cases kind with
      | provisioning =>
          obtain ⟨-, ⟨-, address, -, rfl⟩ | ⟨-, rfl⟩⟩ := path_onProvisioningReply h
          · exact passes_of_mem_submit rfl hw
          · exact .inl hw
      | status | trigger =>
          obtain ⟨-, rfl⟩ := path_done_iff.1 h
          exact .inl hw
  | replyTimedOut kind =>
      obtain ⟨-, rfl | ⟨-, rfl⟩⟩ := path_onReplyTimeout h <;> exact .inl hw
  | registrationCompleted outcome =>
      obtain ⟨-, rfl⟩ := path_onRegistration h
      exact .inl hw
  | commandReceived request =>
      obtain ⟨-, -, rfl⟩ | ⟨-, s, first, outcome, reply, hdispatched, -, rfl⟩ := path_onCommand h
      · exact .inl hw
      · rw [hdispatched.session] at hw
        cases hfollow : outcome.followUp with
        | none =>
            rw [hfollow] at hw
            exact .inl hw
        | some v =>
            rw [hfollow] at hw
            exact passes_of_mem_submit (hdispatched.followUp v hfollow) hw
  | timerFired timer =>
      obtain ⟨-, ⟨-, rfl⟩ | ⟨-, rfl⟩⟩ := path_onTimer h
      · exact passes_of_mem_submit rfl hw
      · exact .inl hw
  | setTesting on =>
      obtain ⟨-, rfl | ⟨-, rfl⟩⟩ := path_setTesting h <;> exact .inl hw
  | factoryResetRequested | reportRequested | trigger event =>
      obtain ⟨-, rfl⟩ := path_done_iff.1 h
      exact passes_of_mem_submit rfl hw

theorem asked_of_startUp (hs : e.state ≠ .connected) (h : Path e.startUp log e') {w : Work}
    (hw : w ∈ e'.session.work.items) :
    w ∈ e.session.work.items ∨ Input.start.mayAsk w = true := by
  obtain ⟨-, role, rest, -, ⟨-, hfollow⟩ | ⟨-, rfl | ⟨e₁, hstep, hfollow⟩⟩⟩ := path_startUp hs h
  · exact (hfollow.asked hw).imp_right fun hw => Bool.or_eq_true_iff.2 (.inl hw)
  · exact .inl hw
  · exact hfollow.asked_of_joinStep hstep hw

end Engine

/-! ## turns -/

variable {t : Turn}

/-- A call of a turn is one that its input may make, or one of a piece of work that may make it. -/
theorem Turn.Happens.call_cases (ht : t.Happens) {x : Exchange} (hx : x ∈ t.log) :
    x ∈ t.opening ∧ t.input.mayCall x.call = true ∨
      ∃ task ∈ t.tasks, x ∈ task.log ∧ task.work.mayCall x.call = true := by
  obtain hx | hx := List.mem_append.1 hx
  · exact .inl ⟨hx, ht.receives.only (Engine.only_receive _ _) x hx⟩
  · obtain ⟨task, htask, hx⟩ := List.mem_flatMap.1 hx
    exact .inr ⟨task, htask, hx, ht.drains.mayCall task htask x hx⟩

/-- The work of a turn is work that its input may ask for, or the question for the coordinator's
address. -/
theorem Turn.Happens.work_cases (ht : t.Happens) (hidle : t.before.session.work.items = [])
    (hstart : t.input = .start → t.before.state ≠ .connected) {task : Task} (htask : task ∈ t.tasks) :
    t.input.mayAsk task.work = true ∨ task.work = .sendProvisioning := by
  obtain hwork | hwork := ht.drains.work_mem task htask
  · have hreceives := ht.receives
    left
    cases hinput : t.input with
    | start =>
        rw [hinput] at hreceives
        obtain hw | hw := Engine.asked_of_startUp (hstart hinput) hreceives hwork
        · rw [hidle] at hw
          cases hw
        · exact hw
    | event event =>
        rw [hinput] at hreceives
        obtain hw | hw := Engine.asked_of_apply hreceives hwork
        · rw [hidle] at hw
          cases hw
        · exact hw
  · exact .inr hwork

end MeshLight
