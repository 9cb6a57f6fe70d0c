import MeshLight.Proofs.Command.Answer
import MeshLight.Proofs.Sending

/-!
# MeshLight.Proofs.Session.Registering

The registration of the node's service, episode by episode. It is begun once, by the first work of
an episode, and after that only answers of the registrar move it on, at most once. What a run shows
of this are its milestones: the notices of progress, the starts of the update client, and the
commands that were handled. A turn that begins an episode has one (`AtRest.begins`); any other
turn has few, and which ones depends on how far the registration is (`Registers`).
-/

namespace MeshLight

open Prog

/-! ## milestones -/

/-- Whether a call starts the update client, or notes the progress of the registration or that a
command was handled. -/
def Call.isMilestone : Call → Bool
  | .board .startManagement => true
  | .emit (.registrationChanged _) | .emit (.commandHandled _ _) => true
  | _ => false

/-- The milestones of a log, in their order. -/
def milestones (log : List Exchange) : List Call := collect (Option.guard Call.isMilestone) log

section

variable {log : List Exchange}

@[simp] theorem milestones_append (first rest : List Exchange) :
    milestones (first ++ rest) = milestones first ++ milestones rest := collect_append first rest

theorem milestones_eq_filter :
    milestones log = (log.map Exchange.call).filter Call.isMilestone := by
  rw [milestones, collect_eq_filterMap_calls, List.filterMap_eq_filter]

theorem milestones_eq_nil_iff : milestones log = [] ↔ ∀ x ∈ log, x.call.isMilestone = false := by
  rw [milestones_eq_filter, List.filter_eq_nil_iff]
  simp

/-- A milestone counts as often as it occurs among all calls. -/
theorem count_milestones {c : Call} (hc : c.isMilestone = true) :
    (milestones log).count c = (log.map Exchange.call).count c := by
  rw [milestones_eq_filter, List.count_filter hc]

end

/-- What a turn that begins no episode comes to: the progress of the registration before it, its
milestones, and the progress after it, given whether there is no connection after it. -/
inductive Registers (ended : Prop) : RegistrationState → List Call → RegistrationState → Prop where
  | nothing (s : RegistrationState) : Registers ended s [] s
  | forgotten (s : RegistrationState) (hended : ended) : Registers ended s [] .notStarted
  | succeeded : Registers ended .inProgress
      [.board .startManagement, .emit (.registrationChanged .registered)] .registered
  | failed : Registers ended .inProgress [.emit (.registrationChanged .failed)] .failed
  | handled (s : RegistrationState) (name : String) (code : Int)
      (hother : (name, code) ≠ (Command.upgrade.name, 0)) :
      Registers ended s [.emit (.commandHandled name code)] s
  | upgraded (s : RegistrationState) :
      Registers ended s [.emit (.commandHandled Command.upgrade.name 0), .board .startManagement] s

/-- A success lasts as long as the connection. -/
theorem Registers.registered {ended : Prop} {calls : List Call} {s : RegistrationState}
    (h : Registers ended .registered calls s) (hlasts : ¬ended) : s = .registered := by
  cases h with
  | forgotten _ hended => exact absurd hended hlasts
  | _ => rfl

/-! ## answers of the registrar -/

/-- The registrar's answer counts only while the registration is in progress. -/
theorem Registration.apply_cases (outcome : RegistrationOutcome) (r : Registration) :
    r.apply outcome = (.unchanged, r) ∨
      r.state = .inProgress ∧ (r.apply outcome = (.firstSuccess, ⟨.registered, true⟩) ∨
        r.apply outcome = (.failed, r.fail)) := by
  by_cases hstate : r.state = .inProgress
  · cases outcome with
    | registered =>
        cases hlatch : r.succeeded with
        | false => exact .inr ⟨hstate, .inl (by simp [apply, hstate, hlatch])⟩
        | true => exact .inl (by simp [apply, hlatch])
    | removed => exact .inl rfl
    | failed fault => exact .inr ⟨hstate, .inr (by simp [apply, hstate])⟩
  · exact .inl (apply_of_state_ne hstate)

namespace Engine

variable {e e' : Engine} {log : List Exchange}

theorem registers_onRegistration {outcome : RegistrationOutcome} (ended : Prop)
    (h : Path (e.onRegistration outcome) log e') :
    Registers ended e.session.registration.state (milestones log)
      e'.session.registration.state := by
  obtain ⟨rfl, hlog⟩ := path_onRegistration_cases h
  obtain ha | ⟨hstate, ha | ha⟩ := Registration.apply_cases outcome e.session.registration
  · rw [ha] at hlog ⊢
    rw [hlog]
    exact .nothing _
  · rw [ha] at hlog ⊢
    obtain ⟨reports, hreports, rfl⟩ := hlog
    have hquiet : milestones reports = [] :=
      (collect_of_timers hreports).trans (List.filterMap_eq_nil_iff.2 fun _ _ => rfl)
    rw [hstate, List.cons_append, ← List.singleton_append, milestones_append, milestones_append,
      hquiet]
    exact .succeeded
  · rw [ha] at hlog ⊢
    rw [hstate, hlog]
    exact .failed

end Engine

/-! ## commands -/

/-- The command that an action belongs to. -/
def Action.command : Action → Command
  | .setPower _ _ _ => .onOff
  | .setColor _ _ => .changeColor
  | .setPin _ _ => .setPin
  | .lightStatus => .lightStatus
  | .pinStatus => .pinStatus
  | .setReportInterval _ => .setReportInterval
  | .setLinkMode _ => .setLinkMode
  | .upgrade => .upgrade
  | .factoryReset => .factoryReset
  | .reboot => .reboot

theorem exists_of_bind_eq_ok {x : Except ε α} {f : α → Except ε β} {b : β}
    (h : x >>= f = .ok b) : ∃ a, x = .ok a ∧ f a = .ok b := by
  cases x with
  | error fault => cases h
  | ok a => exact ⟨a, rfl, h⟩

/-- The fields of a command are checked for an action of that command. -/
theorem Action.command_of_ofEnvelope {envelope : Envelope} {command : Command} {action : Action}
    (h : Action.ofEnvelope envelope command = .ok action) : action.command = command := by
  cases command with
  | onOff =>
      obtain ⟨group, -, h⟩ := exists_of_bind_eq_ok h
      obtain ⟨on, -, h⟩ := exists_of_bind_eq_ok h
      obtain ⟨delaySecs, -, h⟩ := exists_of_bind_eq_ok h
      cases h
      rfl
  | changeColor =>
      obtain ⟨group, -, h⟩ := exists_of_bind_eq_ok h
      obtain ⟨red, -, h⟩ := exists_of_bind_eq_ok h
      obtain ⟨green, -, h⟩ := exists_of_bind_eq_ok h
      obtain ⟨blue, -, h⟩ := exists_of_bind_eq_ok h
      cases h
      rfl
  | setPin =>
      obtain ⟨name, -, h⟩ := exists_of_bind_eq_ok h
      obtain ⟨high, -, h⟩ := exists_of_bind_eq_ok h
      cases h
      rfl
  | setReportInterval | setLinkMode =>
      obtain ⟨value, -, h⟩ := exists_of_bind_eq_ok h
      cases h
      rfl
  | lightStatus | pinStatus | upgrade | factoryReset | reboot =>
      cases h
      rfl

theorem command_of_readCommand {body : Bytes} {command : Command} {action : Action}
    (h : readCommand body = .ok (command, action)) : action.command = command := by
  unfold readCommand at h
  split at h
  · cases h
  · split at h
    · cases h
    · split at h
      · cases h
      · next hfields =>
          cases h
          exact Action.command_of_ofEnvelope hfields

/-- Names tell commands apart. -/
theorem Command.name_injective {c d : Command} (h : c.name = d.name) : c = d := by
  have hname := ofName?_name c
  rw [h, ofName?_name] at hname
  exact (Option.some.inj hname).symm

/-- What follows the answer to an action is a milestone only for an upgrade. -/
theorem Action.milestones_closing (config : Config) (action : Action) :
    (action.closing config).filter Call.isMilestone =
      if action.command = .upgrade then [.board .startManagement] else [] := by
  cases action <;> rfl

theorem isMilestone_of_mayCall {c : Call} (h : Action.mayCall c = true) :
    c.isMilestone = false := by
  have hcalls := Action.calls_of_mayCall h
  obtain ⟨-, hnotice, -⟩ := Action.unanswered_of_mayCall h
  unfold Call.isMilestone
  split
  · cases hcalls
  · cases hcalls
  · cases hnotice
  · rfl

/-- Dealing with a put leads to the notice of it, and for an accepted upgrade to the start of the
update client. -/
theorem Answers.registers {config : Config} {request : InboundRequest}
    {log first rest : List Exchange} {outcome : Outcome}
    (h : Answers config request log first outcome rest) (ended : Prop) (s : RegistrationState) :
    Registers ended s (milestones log) s := by
  obtain ⟨⟨reply, rfl⟩, -, hfirst, hrest, haccepted, hrejected⟩ := h
  have hbefore : milestones first = [] :=
    milestones_eq_nil_iff.2 fun x hx => isMilestone_of_mayCall (hfirst x hx)
  have hlog : milestones (first ++ ⟨.mesh (.respond request.token (utf8 outcome.body)), reply⟩ ::
      ⟨.emit (.commandHandled outcome.commandName outcome.code), ()⟩ :: rest) =
        .emit (.commandHandled outcome.commandName outcome.code) ::
          (closingCalls config request.payload).filter Call.isMilestone := by
    rw [milestones_append, hbefore, milestones_eq_filter, List.map_cons, List.map_cons, hrest]
    rfl
  rw [hlog]
  by_cases hcode : outcome.code = 0
  · obtain ⟨command, action, hread, hname⟩ := haccepted hcode
    rw [closingCalls, hread, hname, hcode]
    dsimp only
    rw [Action.milestones_closing, command_of_readCommand hread]
    by_cases hupgrade : command = .upgrade
    · rw [if_pos hupgrade, hupgrade]
      exact .upgraded s
    · rw [if_neg hupgrade]
      exact .handled s _ _ fun heq => hupgrade (Command.name_injective (Prod.ext_iff.1 heq).1)
  · rw [hrejected hcode]
    exact .handled s _ _ fun heq => hcode (Prod.ext_iff.1 heq).2

/-! ## work -/

/-- Work that leads to no milestone. -/
def Work.isQuiet : Work → Bool
  | .beginRegistration | .startManagement => false
  | _ => true

namespace Engine

variable {e e' : Engine} {log : List Exchange}

theorem isMilestone_of_work {w : Work} {c : Call} (hw : w.isQuiet = true)
    (h : w.mayCall c = true) : c.isMilestone = false := by
  unfold Call.isMilestone
  split
  · cases w <;> first | exact Bool.noConfusion h | exact Bool.noConfusion hw
  · cases w <;> first | exact Bool.noConfusion h | exact Bool.noConfusion hw
  · cases w <;> exact Bool.noConfusion h
  · rfl

/-- Only the beginning of the registration changes how far that is. -/
theorem registration_of_execute {w : Work} (h : Path (e.execute w) log e')
    (hw : w.isQuiet = true) : e'.session.registration = e.session.registration := by
  cases alters_of_execute h with
  | registers => cases hw
  | nothing | asks | boosts | releases | wipes => rfl

/-- Other work leads to no milestone. -/
theorem milestones_drains {tasks : List Task} (h : Drains e tasks e')
    (hquiet : ∀ w ∈ e.session.work.items, w.isQuiet = true) :
    milestones (tasks.flatMap Task.log) = [] ∧
      e'.session.registration = e.session.registration := by
  have htasks : ∀ task ∈ tasks, task.work.isQuiet = true := by
    intro task htask
    obtain hmem | hask := h.work_mem task htask
    · exact hquiet _ hmem
    · rw [hask]
      rfl
  refine ⟨milestones_eq_nil_iff.2 fun x hx => ?_, ?_⟩
  · obtain ⟨task, htask, hx⟩ := List.mem_flatMap.1 hx
    exact isMilestone_of_work (htasks task htask) (h.mayCall task htask x hx)
  · clear hquiet
    induction h with
    | rest => rfl
    | @work e _ _ task hnext hdone hrest ih =>
        obtain ⟨rest, -, hbefore⟩ := nextWork?_eq_some_iff.1 hnext
        rw [ih fun later hlater => htasks later (List.mem_cons_of_mem _ hlater),
          registration_of_execute hdone (htasks task List.mem_cons_self), hbefore]

/-- The registration is begun, or fails at once, and that is noted. -/
theorem milestones_beginRegistration (h : Path e.beginRegistration log e')
    (hbegin : e.session.registration.canBegin = true) :
    (∃ s, (s = .inProgress ∨ s = .failed) ∧
      milestones log = [.emit (.registrationChanged s)] ∧ e'.session.registration.state = s) ∧
      e'.session.work = e.session.work := by
  obtain ⟨hnot, -⟩ | ⟨-, first, r, registration, hadvertise, hr, rfl, rfl⟩ :=
    path_beginRegistration h
  · rw [hbegin] at hnot
    cases hnot
  · obtain ⟨id, hcalls⟩ := path_advertise hadvertise
    have hfirst : milestones first = [] := by
      rw [milestones_eq_filter, List.filter_eq_nil_iff]
      intro c hc
      have hmem := hcalls.subset hc
      simp only [advertiseCalls, List.mem_cons, List.not_mem_nil, or_false] at hmem
      obtain rfl | rfl | rfl | rfl | rfl := hmem <;> simp [Call.isMilestone]
    refine ⟨⟨registration.state, ?_, ?_, rfl⟩, rfl⟩
    · obtain ⟨-, rfl⟩ | ⟨-, rfl⟩ := hr
      · exact .inl rfl
      · exact .inr rfl
    · rw [milestones_append, hfirst]
      rfl

/-! ## events -/

/-- Following the facts asks for no milestone unless the connection is new. -/
theorem Follows.quiet (h : Follows e e') (hno : e.state = .connected ∨ e'.state ≠ .connected) :
    (∀ w ∈ e'.session.work.items, w ∈ e.session.work.items ∨ w.isQuiet = true) ∧
      (e'.session.registration = e.session.registration ∨
        e'.state ≠ .connected ∧ e'.session.registration = .initial) := by
  obtain ⟨-, hs⟩ | ⟨hs, ha, -⟩ | ⟨-, ha, hs⟩ := h.session
  · rw [hs]
    exact ⟨fun w hw => .inl hw, .inl rfl⟩
  · rw [← h.attached, ← h.mirrors.connected_iff] at ha
    exact absurd ha (hno.resolve_left hs)
  · have hleft : e'.state ≠ .connected := by
      rw [Ne, h.mirrors.connected_iff, h.attached, ha]
      exact Bool.false_ne_true
    rw [hs]
    refine ⟨fun w hw => ?_, .inr ⟨hleft, rfl⟩⟩
    obtain hw | rfl := WorkQueue.mem_of_mem_submit hw
    · obtain hw | rfl := WorkQueue.mem_of_mem_submit hw
      · exact .inl hw
      · exact .inr rfl
    · exact .inr rfl

/-- A step of joining, after which the facts are followed, asks for a signal at most. -/
theorem Follows.quiet_of_join {e₁ : Engine} {join : Join} (h : Follows e₁ e') (hm : e.Mirrors)
    (he : e₁ = { e with join := join } ∨
      ∃ w, w.isQuiet = true ∧ e₁ = submit w { e with join := join }) :
    (∀ w ∈ e'.session.work.items, w ∈ e.session.work.items ∨ w.isQuiet = true) ∧
      e'.session.registration = e.session.registration := by
  obtain rfl | ⟨v, hv, rfl⟩ := he
  · rw [h.stays (hm.of_sameFacts ⟨rfl, rfl, rfl⟩)]
    exact ⟨fun w hw => .inl hw, rfl⟩
  · rw [h.stays (hm.of_sameFacts ⟨rfl, rfl, rfl⟩)]
    exact ⟨fun w hw => passes_of_mem_submit hv hw, rfl⟩

theorem quiet_of_requestJoin (h : Path e.requestJoin log e') (hm : e.Mirrors) :
    (∀ w ∈ e'.session.work.items, w ∈ e.session.work.items ∨ w.isQuiet = true) ∧
      e'.session.registration = e.session.registration := by
  obtain ⟨-, -, rfl⟩ | ⟨-, now, rest, -, ⟨-, -, rfl⟩ |
    ⟨join, answer, last, -, -, ⟨-, h⟩ | ⟨-, h⟩⟩⟩ := path_requestJoin_cases h
  · exact ⟨fun w hw => .inl hw, rfl⟩
  · exact ⟨fun w hw => .inl hw, rfl⟩
  · exact (path_sync h).2.quiet_of_join hm (.inr ⟨.indicateJoining, rfl, rfl⟩)
  · exact (path_sync h).2.quiet_of_join hm (.inl rfl)

theorem quiet_of_onJoiner {state : JoinerState} (h : Path (e.onJoiner state) log e')
    (hm : e.Mirrors) :
    (∀ w ∈ e'.session.work.items, w ∈ e.session.work.items ∨ w.isQuiet = true) ∧
      e'.session.registration = e.session.registration := by
  cases state with
  | idle =>
      simp only [onJoiner, path_bind_iff] at h
      obtain ⟨e₁, first, rest, rfl, hidle, hsync⟩ := h
      have hfollow := (path_sync hsync).2
      obtain ⟨now, _, -, hended⟩ := path_onJoinerIdle_cases hidle
      split at hended
      · obtain ⟨answer, -, ⟨-, rfl⟩ | ⟨-, rfl⟩⟩ := hended
        · exact hfollow.quiet_of_join hm (.inl rfl)
        · exact hfollow.quiet_of_join hm (.inr ⟨.indicateIdle, rfl, rfl⟩)
      · obtain ⟨-, rfl⟩ := hended
        exact hfollow.quiet_of_join hm (.inr ⟨.indicateIdle, rfl, rfl⟩)
      · obtain ⟨-, rfl⟩ := hended
        exact hfollow.quiet_of_join hm (.inl rfl)
  | joined => exact (path_sync h).2.quiet_of_join hm (.inl rfl)
  | discover | connect | connected | entrust =>
      exact (path_sync h).2.quiet_of_join hm (.inl (show e = { e with join := e.join } from rfl))

end Engine

/-- Whether an input may lead to milestones without a new connection. -/
def Input.hasMilestones : Input → Bool
  | .event (.registrationCompleted _) | .event (.commandReceived _) => true
  | _ => false

theorem isMilestone_of_input {input : Input} {c : Call} (hinput : input.hasMilestones = false)
    (h : input.mayCall c = true) : c.isMilestone = false := by
  unfold Input.mayCall at h
  split at h <;> first | rfl | exact Bool.noConfusion h | exact Bool.noConfusion hinput

namespace Engine

variable {e e' : Engine} {log : List Exchange}

/-- Other events than changes of the role and those that lead to milestones by themselves. -/
theorem quiet_of_apply {event : Event} (h : Path (e.apply event) log e') (hm : e.Mirrors)
    (hrole : ∀ role, event ≠ .roleChanged role)
    (hevent : (Input.event event).hasMilestones = false) :
    (∀ w ∈ e'.session.work.items, w ∈ e.session.work.items ∨ w.isQuiet = true) ∧
      e'.session.registration = e.session.registration := by
  cases event with
  | roleChanged role => exact absurd rfl (hrole role)
  | registrationCompleted | commandReceived => cases hevent
  | joinerChanged state => exact quiet_of_onJoiner h hm
  | joinRequested => exact quiet_of_requestJoin h hm
  | reply kind payload =>
      cases kind with
      | provisioning =>
          obtain ⟨-, ⟨-, address, -, rfl⟩ | ⟨-, rfl⟩⟩ := path_onProvisioningReply h
          · exact ⟨fun w hw => passes_of_mem_submit rfl hw, rfl⟩
          · exact ⟨fun w hw => .inl hw, rfl⟩
      | status | trigger =>
          obtain ⟨-, rfl⟩ := path_done_iff.1 h
          exact ⟨fun w hw => .inl hw, rfl⟩
  | replyTimedOut kind =>
      obtain ⟨-, rfl | ⟨-, rfl⟩⟩ := path_onReplyTimeout h <;> exact ⟨fun w hw => .inl hw, rfl⟩
  | timerFired timer =>
      obtain ⟨-, ⟨-, rfl⟩ | ⟨-, rfl⟩⟩ := path_onTimer h
      · exact ⟨fun w hw => passes_of_mem_submit rfl hw, rfl⟩
      · exact ⟨fun w hw => .inl hw, rfl⟩
  | setTesting on =>
      obtain ⟨-, rfl | ⟨-, rfl⟩⟩ := path_setTesting h <;> exact ⟨fun w hw => .inl hw, rfl⟩
  | factoryResetRequested | reportRequested | trigger event =>
      obtain ⟨-, rfl⟩ := path_done_iff.1 h
      exact ⟨fun w hw => passes_of_mem_submit rfl hw, rfl⟩

end Engine

/-! ## turns -/

variable {turns : List Turn} {t : Turn}

/-- A turn that leads to milestones only by the work that it asks for. -/
theorem Turn.Happens.milestones_log (ht : t.Happens) (hinput : t.input.hasMilestones = false) :
    milestones t.log = milestones (t.tasks.flatMap Task.log) := by
  have hopening : milestones t.opening = [] := milestones_eq_nil_iff.2 fun x hx =>
    isMilestone_of_input hinput (ht.receives.only (Engine.only_receive _ _) x hx)
  rw [Turn.log, milestones_append, hopening, List.nil_append]

/-- A turn in which the registration is kept or forgotten, and that asks for no milestone. -/
theorem AtRest.registers_of_quiet (h : AtRest turns t.before) (ht : t.Happens)
    (hinput : t.input.hasMilestones = false)
    (hquiet : ∀ w ∈ t.applied.session.work.items,
      w ∈ t.before.session.work.items ∨ w.isQuiet = true)
    (hregistration : t.applied.session.registration = t.before.session.registration ∨
      t.applied.state ≠ .connected ∧ t.applied.session.registration = .initial) :
    Registers (t.after.state ≠ .connected) t.before.session.registration.state (milestones t.log)
      t.after.session.registration.state := by
  obtain ⟨hnone, hkept⟩ := Engine.milestones_drains ht.drains fun w hw =>
    (hquiet w hw).resolve_left (by rw [h.idle]; exact List.not_mem_nil)
  rw [ht.milestones_log hinput, hnone, hkept]
  obtain hregistration | ⟨hended, hregistration⟩ := hregistration
  · rw [hregistration]
    exact .nothing _
  · rw [hregistration]
    exact .forgotten _ (by rwa [ht.drains.sameFacts.1.state])

/-- Most events leave the registration as it is. -/
theorem AtRest.registration_eq {event : Event} (h : AtRest turns t.before) (ht : t.Happens)
    (hinput : t.input = .event event) (hrole : ∀ role, event ≠ .roleChanged role)
    (hevent : (Input.event event).hasMilestones = false) :
    t.after.session.registration = t.before.session.registration := by
  have hreceives := ht.receives
  rw [hinput] at hreceives
  obtain ⟨hwork, hregistration⟩ := Engine.quiet_of_apply hreceives h.mirrors hrole hevent
  obtain ⟨-, hkept⟩ := Engine.milestones_drains ht.drains fun w hw =>
    (hwork w hw).resolve_left (by rw [h.idle]; exact List.not_mem_nil)
  rw [hkept, hregistration]

/-- What a turn means for the registration if it begins no episode. -/
theorem AtRest.registers (h : AtRest turns t.before) (ht : t.Happens)
    (hstart : t.input = .start → t.before.state ≠ .connected) (hno : ¬t.connects) :
    Registers (t.after.state ≠ .connected) t.before.session.registration.state (milestones t.log)
      t.after.session.registration.state := by
  have hreceives := ht.receives
  have hstays : t.before.state = .connected ∨ t.applied.state ≠ .connected := by
    by_cases hs : t.before.state = .connected
    · exact .inl hs
    · rw [← ht.drains.sameFacts.1.state]
      exact .inr fun hafter => hno ⟨hs, hafter⟩
  cases hinput : t.input with
  | start =>
      have hother : t.input.hasMilestones = false := by rw [hinput]; rfl
      rw [hinput] at hreceives
      obtain ⟨role, rest, -, ⟨-, hrole⟩ | ⟨-, -, hjoin⟩ | ⟨-, -, -, happlied⟩⟩ :=
        Engine.path_startUp_cases (hstart hinput) hreceives
      · obtain ⟨hwork, hregistration⟩ := (Engine.path_onRole hrole).2.quiet hstays
        exact h.registers_of_quiet ht hother hwork hregistration
      · obtain ⟨hwork, hregistration⟩ := Engine.quiet_of_requestJoin hjoin h.mirrors
        exact h.registers_of_quiet ht hother hwork (.inl hregistration)
      · refine h.registers_of_quiet ht hother (fun w hw => .inl ?_) (.inl ?_)
        · rwa [happlied] at hw
        · rw [happlied]
  | event event =>
      rw [hinput] at hreceives
      by_cases hrole : ∃ role, event = .roleChanged role
      · obtain ⟨role, rfl⟩ := hrole
        obtain ⟨hwork, hregistration⟩ := (Engine.path_onRole hreceives).2.quiet hstays
        exact h.registers_of_quiet ht (by rw [hinput]; rfl) hwork hregistration
      · cases hother : (Input.event event).hasMilestones with
        | false =>
            obtain ⟨hwork, hregistration⟩ := Engine.quiet_of_apply hreceives h.mirrors
              (fun role hr => hrole ⟨role, hr⟩) hother
            exact h.registers_of_quiet ht (by rw [hinput]; exact hother) hwork (.inl hregistration)
        | true =>
            cases event with
            | commandReceived request =>
                obtain ⟨-, hlog, hafter⟩ | ⟨-, ⟨first, outcome, rest, hanswers⟩, hkept⟩ :=
                  h.answers ht hinput
                · rw [hlog, hafter]
                  exact .nothing _
                · rw [hkept]
                  exact hanswers.registers _ _
            | registrationCompleted outcome =>
                have hidle : t.applied.session.work.items = [] := by
                  rw [(Engine.path_onRegistration hreceives).2]
                  exact h.idle
                obtain ⟨htasks, hafter⟩ := ht.drains.of_idle hidle
                rw [Turn.log, htasks, hafter, List.flatMap_nil, List.append_nil]
                exact Engine.registers_onRegistration _ hreceives
            | _ => cases hother

/-- The work of a turn that begins an episode: the light is switched on, the coordinator's address is
asked for, and the registration is begun. -/
theorem AtRest.connecting_work (h : AtRest turns t.before) (ht : t.Happens)
    (hstart : t.input = .start → t.before.state ≠ .connected) (hconnects : t.connects) :
    ∃ e₁ e₂ e₃ asking beginning,
      t.tasks.flatMap Task.log = ⟨.board (.setIndicator .on), ()⟩ :: (asking ++ beginning) ∧
      Path e₁.sendProvisioning asking e₂ ∧ Path e₃.beginRegistration beginning t.after ∧
      Engine.SameFacts t.applied e₁ ∧ Engine.SameFacts t.applied e₃ ∧
      t.applied.session.testing = false ∧ e₃.session.registration.canBegin = true := by
  have hsession := (h.connects ht hstart hconnects).1
  have hitems : t.applied.session.work.items =
      [.indicateConnected, .sendProvisioning, .beginRegistration] := by
    rw [hsession]
    rfl
  have hnew : t.applied.session.testing = false ∧
      t.applied.session.registration.canBegin = true := by
    rw [hsession]
    exact ⟨rfl, rfl⟩
  obtain ⟨first, e₁, rest, htasks, hindicate, hdrains⟩ := ht.drains.of_items_eq_cons hitems
  obtain ⟨rfl, rfl⟩ := Engine.path_indicate hindicate
  obtain ⟨asking, e₂, rest, rfl, hask, hdrains⟩ := hdrains.of_items_eq_cons rfl
  have hsame := (Engine.requests_sendProvisioning hask).2
  have hcan : e₂.session.registration.canBegin = true := by
    rw [hsame]
    exact hnew.2
  have hfacts := (Engine.path_execute (w := .sendProvisioning) hask).1
  obtain ⟨beginning, e₃, rest, rfl, hbegin, hdrains⟩ :=
    hdrains.of_items_eq_cons (by rw [hsame])
  obtain ⟨rfl, rfl⟩ := hdrains.of_idle
    (by rw [(Engine.milestones_beginRegistration hbegin hcan).2])
  refine ⟨_, e₂, _, asking, beginning, ?_, hask, hbegin, ⟨rfl, rfl, rfl⟩, ?_, hnew.1, hcan⟩
  · rw [htasks]
    simp
  · exact ⟨hfacts.config, hfacts.machine, by rw [hfacts.session]⟩

/-- A turn that begins an episode begins the registration, or fails to, and notes that. -/
theorem AtRest.begins (h : AtRest turns t.before) (ht : t.Happens)
    (hstart : t.input = .start → t.before.state ≠ .connected) (hconnects : t.connects) :
    ∃ s, (s = .inProgress ∨ s = .failed) ∧
      milestones t.log = [.emit (.registrationChanged s)] ∧
      t.after.session.registration.state = s := by
  have hinput : t.input.hasMilestones = false := by
    obtain hinput | ⟨role, hinput⟩ := h.input_of_connects ht hconnects <;> rw [hinput] <;> rfl
  obtain ⟨e₁, e₂, e₃, asking, beginning, hlog, hask, hbegin, -, -, -, hcan⟩ :=
    h.connecting_work ht hstart hconnects
  obtain ⟨⟨s, hs, hnoted, hstate⟩, -⟩ := Engine.milestones_beginRegistration hbegin hcan
  have hquiet : milestones asking = [] := milestones_eq_nil_iff.2 fun x hx =>
    Engine.isMilestone_of_work rfl (hask.only (Engine.only_sendProvisioning _) x hx)
  refine ⟨s, hs, ?_, hstate⟩
  rw [ht.milestones_log hinput, hlog, ← List.singleton_append, milestones_append, milestones_append,
    hquiet, hnoted]
  rfl

/-! ## runs -/

/-- The progress of the registration that a call notes. -/
def Call.announced? : Call → Option RegistrationState
  | .emit (.registrationChanged s) => some s
  | _ => none

theorem Call.announced?_eq_some_iff {c : Call} {s : RegistrationState} :
    c.announced? = some s ↔ c = .emit (.registrationChanged s) := by
  unfold announced?
  split
  · simp
  · next hother => exact ⟨nofun, fun h => absurd h (hother s)⟩

theorem mem_announced? {calls : List Call} {s : RegistrationState} :
    s ∈ calls.filterMap Call.announced? ↔ .emit (.registrationChanged s) ∈ calls := by
  simp [Call.announced?_eq_some_iff]

theorem count_announced? {calls : List Call} {s : RegistrationState} :
    (calls.filterMap Call.announced?).count s = calls.count (.emit (.registrationChanged s)) := by
  rw [List.count_filterMap, List.count]
  congr 1
  funext c
  rw [Bool.eq_iff_iff, beq_iff_eq, beq_iff_eq, Call.announced?_eq_some_iff]

theorem collect_announced? (log : List Exchange) :
    collect Call.announced? log = (milestones log).filterMap Call.announced? := by
  rw [collect_eq_filterMap_calls, milestones_eq_filter, List.filterMap_filter]
  congr 1
  funext c
  cases c with
  | board c => cases c <;> rfl
  | emit notice => cases notice <;> rfl
  | mesh c | timer c => rfl

variable {config : Config} {e : Engine}

/-- The progress that was noted since an episode began: the registration was begun, and then it
succeeded or failed, each once, or it failed at once. As long as it is in progress, nothing else was
noted. -/
structure Announces (log : List Exchange) (s : RegistrationState) : Prop where
  noted : collect Call.announced? log ∈
    [[.failed], [.inProgress], [.inProgress, .registered], [.inProgress, .failed]]
  pending : s = .inProgress → collect Call.announced? log = [.inProgress]

theorem Announces.step {first rest : List Exchange} {s s' : RegistrationState}
    {ended : Prop} (h : Announces first s) (hstep : Registers ended s (milestones rest) s') :
    Announces (first ++ rest) s' := by
  have happend : collect Call.announced? (first ++ rest) =
      collect Call.announced? first ++ (milestones rest).filterMap Call.announced? := by
    rw [collect_append, collect_announced? rest]
  generalize milestones rest = calls at hstep happend
  obtain ⟨hnoted, hpending⟩ := h
  cases hstep with
  | nothing => exact ⟨by simpa [happend] using hnoted, by simpa [happend] using hpending⟩
  | forgotten => exact ⟨by simpa [happend] using hnoted, nofun⟩
  | succeeded =>
      rw [hpending rfl] at happend
      exact ⟨by rw [happend]; decide, nofun⟩
  | failed =>
      rw [hpending rfl] at happend
      exact ⟨by rw [happend]; decide, nofun⟩
  | handled | upgraded =>
      have hsame : collect Call.announced? (first ++ rest) = collect Call.announced? first := by
        simp [happend, Call.announced?]
      exact ⟨by rw [hsame]; exact hnoted, by rw [hsame]; exact hpending⟩

theorem Run.announces_begin {past : List Turn} {c : Turn} (run : Run config (past ++ [c]) e)
    (hconnects : c.connects) : Announces c.log e.session.registration.state := by
  obtain ⟨ht, hstart, turns, hrest⟩ := run.atRest.2 c (by simp)
  obtain ⟨-, rfl, -⟩ := run.last
  obtain ⟨s, hs, hnoted, hstate⟩ := hrest.begins ht hstart hconnects
  have hone : collect Call.announced? c.log = [s] := by
    rw [collect_announced?, hnoted]
    rfl
  rw [hstate]
  refine ⟨?_, fun hpending => by rw [hone, hpending]⟩
  rw [hone]
  obtain rfl | rfl := hs <;> decide

/-- What is noted from one connection to the next. -/
theorem Run.announces {past during : List Turn} {c : Turn} (run : Run config turns e)
    (hturns : past ++ c :: during = turns) (hconnects : c.connects)
    (hno : ∀ t ∈ during, ¬t.connects) :
    Announces ((c :: during).flatMap Turn.log) e.session.registration.state := by
  induction run generalizing during with
  | start u hnew hinput ht =>
      rw [← List.nil_append [u]] at hturns
      obtain ⟨rfl, rfl, rfl⟩ | ⟨rest, -, hrest⟩ := append_cons_eq_concat_iff.1 hturns
      · rw [List.flatMap_singleton]
        have hrun : Run config ([] ++ [c]) c.after := .start c hnew hinput ht
        exact hrun.announces_begin hconnects
      · simp at hrest
  | handle u event run hinput ht ih =>
      have hrun := Run.handle u event run hinput ht
      obtain ⟨rfl, rfl, rfl⟩ | ⟨rest, rfl, hrest⟩ := append_cons_eq_concat_iff.1 hturns
      · rw [List.flatMap_singleton]
        exact hrun.announces_begin hconnects
      · have hearlier := ih hrest fun t hmem => hno t (List.mem_append_left _ hmem)
        obtain ⟨-, hstart, past', hbefore⟩ := hrun.atRest.2 u (by simp)
        rw [← List.cons_append, List.flatMap_append, List.flatMap_singleton]
        exact hearlier.step (hbefore.registers ht hstart (hno u (by simp)))

theorem Registers.count_startManagement {ended : Prop} {s s' : RegistrationState}
    {calls : List Call} (h : Registers ended s calls s') :
    calls.count (.board .startManagement) =
      calls.count (.emit (.registrationChanged .registered)) +
        calls.count (.emit (.commandHandled Command.upgrade.name 0)) := by
  cases h with
  | handled _ name code hother =>
      have hne : Call.emit (.commandHandled name code) ≠
          .emit (.commandHandled Command.upgrade.name 0) := by
        intro heq
        injection heq with hnotice
        injection hnotice with hname hcode
        exact hother (by rw [hname, hcode])
      rw [List.count_singleton, List.count_singleton, List.count_singleton]
      simp [hne]
  | _ => rfl

/-- A turn starts the update client as often as it notes a success or an accepted upgrade. -/
theorem Run.count_startManagement (run : Run config turns e) :
    ((turns.flatMap Turn.log).map Exchange.call).count (.board .startManagement) =
      ((turns.flatMap Turn.log).map Exchange.call).count
        (.emit (.registrationChanged .registered)) +
      ((turns.flatMap Turn.log).map Exchange.call).count
        (.emit (.commandHandled Command.upgrade.name 0)) := by
  have hturns := run.atRest.2
  clear run
  induction turns with
  | nil => rfl
  | cons t turns ih =>
      have hturn : (milestones t.log).count (.board .startManagement) =
          (milestones t.log).count (.emit (.registrationChanged .registered)) +
          (milestones t.log).count (.emit (.commandHandled Command.upgrade.name 0)) := by
        obtain ⟨ht, hstart, past, hrest⟩ := hturns t List.mem_cons_self
        by_cases hconnects : t.connects
        · obtain ⟨s, rfl | rfl, hnoted, -⟩ := hrest.begins ht hstart hconnects
          · rw [hnoted]
            rfl
          · rw [hnoted]
            rfl
        · have hregisters := hrest.registers ht hstart hconnects
          exact hregisters.count_startManagement
      rw [count_milestones (c := .board .startManagement) rfl,
        count_milestones (c := .emit (.registrationChanged .registered)) rfl,
        count_milestones (c := .emit (.commandHandled _ 0)) rfl] at hturn
      have hlater := ih fun u hu => hturns u (List.mem_cons_of_mem _ hu)
      simp only [List.flatMap_cons, List.map_append, List.count_append]
      omega

/-- Success is noted after the beginning and nothing else. -/
theorem eq_inProgress_of_registered {before later : List RegistrationState}
    (h : before ++ .registered :: later ∈ ([[.failed], [.inProgress], [.inProgress, .registered],
      [.inProgress, .failed]] : List (List RegistrationState))) : before = [.inProgress] := by
  match before with
  | [] => simp at h
  | [s] =>
      have hs : s = .inProgress ∧ later = [] := by simpa using h
      rw [hs.1]
  | _ :: _ :: _ => simp at h

/-- A registration succeeds at most once in an episode. From one connection to the next at most one
success is noted, after the notice that the registration is in progress and not after one that it
failed; and as many times as a success or an accepted upgrade is noted, the update client is
started. -/
theorem Run.registers_once (run : Run config turns e) :
    (∀ past c during after, turns = past ++ c :: (during ++ after) → c.connects →
      (∀ t ∈ during, ¬t.connects) →
      (((c :: during).flatMap Turn.log).map Exchange.call).count
        (.emit (.registrationChanged .registered)) ≤ 1 ∧
      ∀ first rest, ((c :: during).flatMap Turn.log).map Exchange.call =
          first ++ .emit (.registrationChanged .registered) :: rest →
        .emit (.registrationChanged .inProgress) ∈ first ∧
          .emit (.registrationChanged .failed) ∉ first) ∧
    ((turns.flatMap Turn.log).map Exchange.call).count (.board .startManagement) =
      ((turns.flatMap Turn.log).map Exchange.call).count
        (.emit (.registrationChanged .registered)) +
      ((turns.flatMap Turn.log).map Exchange.call).count
        (.emit (.commandHandled Command.upgrade.name 0)) := by
  refine ⟨fun past c during after hturns hconnects hno => ?_, run.count_startManagement⟩
  rw [hturns, ← List.cons_append, ← List.append_assoc] at run
  obtain ⟨e', hrun⟩ := run.of_append (by simp)
  have hnoted := (hrun.announces rfl hconnects hno).noted
  rw [collect_eq_filterMap_calls] at hnoted
  generalize ((c :: during).flatMap Turn.log).map Exchange.call = calls at hnoted
  refine ⟨?_, fun first rest hcalls => ?_⟩
  · rw [← count_announced?]
    simp only [List.mem_cons, List.not_mem_nil, or_false] at hnoted
    obtain h | h | h | h := hnoted <;> rw [h] <;> decide
  · have hfirst : first.filterMap Call.announced? = [.inProgress] := by
      have hregistered : Call.announced? (.emit (.registrationChanged .registered)) =
        some .registered := rfl
      rw [hcalls, List.filterMap_append, List.filterMap_cons_some hregistered] at hnoted
      exact eq_inProgress_of_registered hnoted
    refine ⟨mem_announced?.1 (by rw [hfirst]; exact List.mem_singleton_self _), fun hfailed => ?_⟩
    have hmem := mem_announced?.2 hfailed
    rw [hfirst] at hmem
    simp at hmem

/-- A simulated node that is connected, and then registered: one success, one start of the update
client. -/
theorem Run.registers_once_simulated :
    ∃ past c t e, Run .default (past ++ c :: [t]) e ∧ c.input = .event (.roleChanged .child) ∧
      c.connects ∧ t.input = .event (.registrationCompleted .registered) ∧ ¬t.connects ∧
      (([c, t].flatMap Turn.log).map Exchange.call).count
        (.emit (.registrationChanged .registered)) ≤ 1 ∧
      .emit (.registrationChanged .registered) ∈ ([c, t].flatMap Turn.log).map Exchange.call ∧
      .board .startManagement ∈ ([c, t].flatMap Turn.log).map Exchange.call := by
  obtain ⟨past, run, -, -⟩ := exists_run_of_answer Engine.new_default [] Host.answer
    (.initial .disabled)
  obtain ⟨c, hconnected, hrole, hbefore, -⟩ := run.exists_handle (.roleChanged .child) Host.answer
    (.initial .child)
  obtain ⟨-, hafter, -⟩ := hconnected.last
  have hconnects : c.connects := by
    unfold Turn.connects
    rw [hbefore, ← hafter]
    decide
  obtain ⟨t, hrun, hregistered, hbefore, hlog⟩ := hconnected.exists_handle
    (.registrationCompleted .registered) Host.answer (.initial .child)
  have hno : ¬t.connects := fun h => h.1 (by rw [hbefore]; decide)
  rw [List.append_assoc] at hrun
  have honce := (hrun.registers_once.1 past c [t] [] (by simp) hconnects (by simpa using hno)).1
  refine ⟨past, c, t, _, hrun, hrole, hconnects, hregistered, hno, honce, ?_, ?_⟩
  · rw [List.flatMap_cons, List.map_append, List.flatMap_singleton, hlog]
    exact List.mem_append_right _ (by decide)
  · rw [List.flatMap_cons, List.map_append, List.flatMap_singleton, hlog]
    exact List.mem_append_right _ (by decide)

end MeshLight
