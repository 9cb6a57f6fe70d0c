import MeshLight.Proofs.Engine.Calls

/-!
# MeshLight.Proofs.Command.Answer

How commands are answered. A put is answered once, after its action was carried out. Whatever could
keep the answer from going out, such as a reset or a restart, is work that the action leaves for
later (`Action.followUp?`), and that is done right after the answer: an engine has no other work
when a request comes.
-/

namespace MeshLight

open Prog

/-- Whether a call waits, starts the update client, or takes the node down or off the network. -/
def Call.isDisruptive : Call → Bool
  | .board (.delay _) | .board .reboot | .board .startManagement => true
  | .mesh (.removeAll _) | .mesh .factoryReset => true
  | _ => false

/-! ## actions -/

namespace Action

variable {config : Config} {s : Session} {log : List Exchange}

/-- The work that an action leaves to be done once it was answered. -/
def followUp? (config : Config) : Action → Option Work
  | .upgrade => some .startManagement
  | .factoryReset => some (.factoryReset config.resetGraceMs)
  | .reboot => some (.reboot config.rebootGraceMs)
  | _ => none

/-- The calls that come after the answer to an action. -/
def closing (config : Config) : Action → List Call
  | .upgrade => [.board .startManagement]
  | .factoryReset =>
    [.board (.delay config.resetGraceMs), .mesh (.removeAll config.deregisterTimeoutMs),
      .mesh .factoryReset]
  | .reboot => [.board (.delay config.rebootGraceMs), .board .reboot]
  | _ => []

theorem closing_of_followUp?_eq_none {action : Action} (h : action.followUp? config = none) :
    action.closing config = [] := by
  cases action with
  | upgrade | factoryReset | reboot => cases h
  | _ => rfl

/-- Carrying out an action answers nothing, and puts off whatever would get in the way of that. -/
theorem unanswered_of_mayCall {c : Call} (h : mayCall c = true) :
    c.response? = none ∧ c.handled? = none ∧ c.isDisruptive = false := by
  have hcalls := calls_of_mayCall h
  obtain ⟨hboth, hnotice⟩ := Bool.and_eq_true_iff.1 h
  obtain ⟨-, hmessage⟩ := Bool.and_eq_true_iff.1 hboth
  refine ⟨Call.response?_of_isMessage ?_, Option.isNone_iff_eq_none.1 hnotice, ?_⟩
  · rwa [Bool.not_eq_true'] at hmessage
  · cases c with
    | board c => cases c <;> first | rfl | exact Bool.noConfusion hcalls
    | mesh c => cases c <;> first | rfl | exact Bool.noConfusion hcalls
    | emit | timer => rfl

/-- An action that is carried out leaves just the work that it says. One that leaves work is never
rejected. -/
theorem followUp_of_path {action : Action} {r : Except CommandFault Effect}
    (h : Path (action.perform config s).run log r) :
    (∃ effect, r = .ok effect ∧ effect.followUp = action.followUp? config) ∨
      (∃ fault, r = .error fault) ∧ action.followUp? config = none := by
  cases action with
  | setPower group on delaySecs =>
      obtain ⟨answer, -, rfl⟩ := path_perform_setPower h
      cases answer with
      | ok u => exact .inl ⟨_, rfl, rfl⟩
      | error fault => exact .inr ⟨⟨_, rfl⟩, rfl⟩
  | setColor group color =>
      obtain ⟨answer, -, rfl⟩ := path_perform_setColor h
      cases answer with
      | ok u => exact .inl ⟨_, rfl, rfl⟩
      | error fault => exact .inr ⟨⟨_, rfl⟩, rfl⟩
  | setPin name high =>
      obtain ⟨answer, -, rfl⟩ := path_perform_setPin h
      cases answer with
      | ok u => exact .inl ⟨_, rfl, rfl⟩
      | error fault => exact .inr ⟨⟨_, rfl⟩, rfl⟩
  | setLinkMode mode =>
      obtain ⟨answer, -, rfl⟩ := path_perform_setLinkMode h
      cases answer with
      | ok u => exact .inl ⟨_, rfl, rfl⟩
      | error fault => exact .inr ⟨⟨_, rfl⟩, rfl⟩
  | lightStatus =>
      obtain ⟨answer, -, rfl⟩ := path_perform_lightStatus h
      cases answer with
      | ok entries => exact .inl ⟨_, rfl, rfl⟩
      | error fault => exact .inr ⟨⟨_, rfl⟩, rfl⟩
  | pinStatus =>
      obtain ⟨pins, -, rfl⟩ := path_perform_pinStatus h
      exact .inl ⟨_, rfl, rfl⟩
  | setReportInterval interval =>
      obtain ⟨-, rfl⟩ := path_perform_setReportInterval h
      exact .inl ⟨_, rfl, rfl⟩
  | upgrade | factoryReset | reboot =>
      obtain ⟨-, rfl⟩ := path_done_iff.1 h
      exact .inl ⟨_, rfl, rfl⟩

end Action

/-! ## dispatch -/

/-- The calls that come after the answer to a body. -/
def closingCalls (config : Config) (body : Bytes) : List Call :=
  match readCommand body with
  | .ok (_, action) => action.closing config
  | .error _ => []

/-- What is left to be done once a body was answered. An accepted command is noted by its name and
leaves the work of its action; a rejected one leaves none. -/
theorem followUp_of_dispatch {config : Config} {body : Bytes} {s s' : Session} {outcome : Outcome}
    {log : List Exchange} (h : Path (dispatch config body s) log (s', outcome)) :
    (outcome.code = 0 ∧ ∃ command action, readCommand body = .ok (command, action) ∧
        outcome.commandName = command.name ∧ outcome.followUp = action.followUp? config) ∨
      outcome.code ≠ 0 ∧ outcome.followUp = none ∧ closingCalls config body = [] := by
  obtain ⟨command, fault, hread, -, -, rfl⟩ | ⟨command, action, r, hread, hp, hr⟩ := path_dispatch h
  · exact .inr ⟨CommandFault.code_ne_zero _, rfl, by rw [closingCalls, hread]⟩
  · obtain ⟨effect, rfl, hwork⟩ | ⟨⟨fault, rfl⟩, hnone⟩ := Action.followUp_of_path hp
    · obtain ⟨_, ⟨⟩, -, rfl⟩ | ⟨_, ⟨⟩, -⟩ := hr
      exact .inl ⟨rfl, command, action, hread, rfl, hwork⟩
    · obtain ⟨_, ⟨⟩, -⟩ | ⟨_, ⟨⟩, -, rfl⟩ := hr
      refine .inr ⟨CommandFault.code_ne_zero _, rfl, ?_⟩
      rw [closingCalls, hread]
      exact Action.closing_of_followUp?_eq_none hnone

namespace Engine

variable {e e' : Engine} {log : List Exchange}

/-! ## doing what is left -/

/-- Doing the work that an action left makes the calls that are to come after its answer. -/
theorem closing_of_execute {action : Action} {w : Work} (h : Path (e.execute w) log e')
    (hw : action.followUp? e.config = some w) :
    log.map Exchange.call = action.closing e.config ∧ e'.session = e.session := by
  cases action with
  | upgrade =>
      cases hw
      simp only [execute, board, bind_call, bind_done, pure_eq_done, path_call_iff,
        path_done_iff] at h
      obtain ⟨_, _, rfl, rfl, rfl⟩ := h
      exact ⟨rfl, rfl⟩
  | reboot =>
      cases hw
      simp only [execute, board, bind_call, bind_done, pure_eq_done, path_call_iff,
        path_done_iff] at h
      obtain ⟨_, _, rfl, _, _, rfl, rfl, rfl⟩ := h
      exact ⟨rfl, rfl⟩
  | factoryReset =>
      cases hw
      obtain ⟨rfl, answer, rfl⟩ := path_factoryReset h
      exact ⟨rfl, rfl⟩
  | _ => cases hw

/-- An engine without other work does just what the action left to be done. -/
theorem closing_of_drains {action : Action} {tasks : List Task} (hidle : e.session.work.items = [])
    (h : Drains (submit? (action.followUp? e.config) e) tasks e') :
    (tasks.flatMap Task.log).map Exchange.call = action.closing e.config ∧
      e'.session.registration = e.session.registration := by
  cases hwork : action.followUp? e.config with
  | none =>
      rw [hwork] at h
      obtain ⟨rfl, rfl⟩ := h.of_idle hidle
      rw [Action.closing_of_followUp?_eq_none hwork]
      exact ⟨rfl, rfl⟩
  | some w =>
      rw [hwork] at h
      obtain ⟨first, after, rest, rfl, hdone, hrest⟩ :=
        h.of_items_eq_cons (items_submit_of_idle w hidle)
      obtain ⟨hcalls, hsession⟩ := closing_of_execute hdone hwork
      have hnone : after.session.work.items = [] := by rw [hsession]
      obtain ⟨rfl, rfl⟩ := hrest.of_idle hnone
      rw [List.flatMap_cons, List.flatMap_nil, List.append_nil]
      exact ⟨hcalls, by rw [hsession]; rfl⟩

end Engine

/-! ## turns -/

variable {t : Turn} {request : InboundRequest}

/-- A put that was dealt with. It is carried out, answered and noted, and then what its action left
is done. -/
structure Answers (config : Config) (request : InboundRequest) (log first : List Exchange)
    (outcome : Outcome) (rest : List Exchange) : Prop where
  log : ∃ reply, log = first ++ ⟨.mesh (.respond request.token (utf8 outcome.body)), reply⟩ ::
    ⟨.emit (.commandHandled outcome.commandName outcome.code), ()⟩ :: rest
  code : Json.Members.get? "err_code" outcome.response = some (.int outcome.code)
  first : ∀ x ∈ first, Action.mayCall x.call = true
  rest : rest.map Exchange.call = closingCalls config request.payload
  accepted : outcome.code = 0 → ∃ command action,
    readCommand request.payload = .ok (command, action) ∧ outcome.commandName = command.name
  rejected : outcome.code ≠ 0 → closingCalls config request.payload = []

/-- Only a put is dealt with; the registration is not affected. -/
theorem AtRest.answers {turns : List Turn} (h : AtRest turns t.before) (ht : t.Happens)
    (hinput : t.input = .event (.commandReceived request)) :
    (request.method ≠ .put ∧ t.log = [] ∧ t.after = t.before) ∨
      request.method = .put ∧
        (∃ first outcome rest, Answers t.before.config request t.log first outcome rest) ∧
        t.after.session.registration = t.before.session.registration := by
  have hreceives := ht.receives
  rw [hinput] at hreceives
  have hdrains := ht.drains
  unfold Turn.log
  obtain ⟨hmethod, hlog, happlied⟩ | ⟨hmethod, s, first, outcome, reply, hdispatch, hlog,
    happlied⟩ := Engine.path_onCommand_dispatch hreceives
  · rw [happlied] at hdrains
    obtain ⟨htasks, hafter⟩ := hdrains.of_idle h.idle
    exact .inl ⟨hmethod, by rw [hlog, htasks]; rfl, hafter⟩
  · have hdone := dispatched_of_path hdispatch
    have hfirst := hdispatch.only (only_dispatch _ _ _)
    have hsession := hdone.session
    have hidle : s.work.items = [] := by
      rw [hsession]
      exact h.idle
    have hlog : t.opening ++ t.tasks.flatMap Task.log = first ++
        ⟨.mesh (.respond request.token (utf8 outcome.body)), reply⟩ ::
          ⟨.emit (.commandHandled outcome.commandName outcome.code), ()⟩ ::
            t.tasks.flatMap Task.log := by
      rw [hlog, List.append_assoc]
      rfl
    rw [happlied] at hdrains
    refine .inr ⟨hmethod, ?_⟩
    obtain ⟨hcode, command, action, hread, hname, hwork⟩ | ⟨hcode, hnone, hclosing⟩ :=
      followUp_of_dispatch hdispatch
    · rw [hwork] at hdrains
      obtain ⟨hcalls, hregistration⟩ :=
        Engine.closing_of_drains (e := { t.before with session := s }) hidle hdrains
      refine ⟨⟨first, outcome, t.tasks.flatMap Task.log, ⟨reply, hlog⟩, hdone.answered, hfirst, ?_,
        fun _ => ⟨command, action, hread, hname⟩, fun hne => absurd hcode hne⟩, ?_⟩
      · rw [closingCalls, hread]
        exact hcalls
      · rw [hregistration, hsession]
    · rw [hnone] at hdrains
      obtain ⟨htasks, hafter⟩ := hdrains.of_idle hidle
      refine ⟨⟨first, outcome, t.tasks.flatMap Task.log, ⟨reply, hlog⟩, hdone.answered, hfirst, ?_,
        fun hzero => absurd hzero hcode, fun _ => hclosing⟩, ?_⟩
      · rw [htasks, hclosing]
        rfl
      · rw [hafter, hsession]
        rfl

/-- Nothing answers a request a second time. -/
theorem unanswered_of_closing (config : Config) (body : Bytes) :
    ∀ c ∈ closingCalls config body, c.response? = none ∧ c.handled? = none := by
  unfold closingCalls
  split
  · next action _ =>
      cases action <;> simp [Action.closing, Call.response?, Call.handled?]
  · simp

/-! ## runs -/

/-- A put is answered once, and before anything that gets in the way of the answer. Whatever is
answered to the calls, and also if the answer cannot be sent: the answer goes to the request that
came and is an object that holds the code which is noted, once, for the command; no call before it
waits, resets, restarts or starts the update client, and the calls after it are the ones that the
body asks for. Any other request leads to no call and to no change. -/
theorem Run.answers_once {config : Config} {turns : List Turn} {e : Engine}
    (run : Run config turns e) (hmem : t ∈ turns)
    (hinput : t.input = .event (.commandReceived request)) :
    (request.method = .put → ∃ first members name code reply rest,
      t.log = first ++ ⟨.mesh (.respond request.token (utf8 (Json.Value.object members).text)),
        reply⟩ :: ⟨.emit (.commandHandled name code), ()⟩ :: rest ∧
      Json.Members.get? "err_code" members = some (.int code) ∧
      collect Call.response? t.log =
        [(request.token, utf8 (Json.Value.object members).text)] ∧
      collect Call.handled? t.log = [(name, code)] ∧
      (∀ x ∈ first, x.call.isDisruptive = false) ∧
      rest.map Exchange.call = closingCalls config request.payload) ∧
    (request.method ≠ .put → t.log = [] ∧ t.after = t.before) := by
  obtain ⟨ht, -, past, hrest⟩ := run.atRest.2 t hmem
  have hconfig := run.config_eq.2 t hmem
  obtain ⟨hmethod, hnothing⟩ | ⟨hmethod, ⟨first, outcome, rest, hanswers⟩, -⟩ :=
    hrest.answers ht hinput
  · exact ⟨fun hput => absurd hput hmethod, fun _ => hnothing⟩
  · obtain ⟨⟨reply, hlog⟩, hcode, hfirst, hclosing, -, -⟩ := hanswers
    rw [hconfig] at hclosing
    have hquiet : ∀ x ∈ rest, x.call.response? = none ∧ x.call.handled? = none := by
      intro x hx
      refine unanswered_of_closing config request.payload x.call ?_
      rw [← hclosing]
      exact List.mem_map_of_mem hx
    have hbefore := fun x hx => Action.unanswered_of_mayCall (hfirst x hx)
    refine ⟨fun _ => ⟨first, outcome.response, outcome.commandName, outcome.code, reply, rest,
      hlog, hcode, ?_, ?_, fun x hx => (hbefore x hx).2.2, hclosing⟩,
      fun hother => absurd hmethod hother⟩
    · rw [hlog, collect_append, collect_cons, collect_cons,
        collect_eq_nil_iff.2 fun x hx => (hbefore x hx).1,
        collect_eq_nil_iff.2 fun x hx => (hquiet x hx).1]
      rfl
    · rw [hlog, collect_append, collect_cons, collect_cons,
        collect_eq_nil_iff.2 fun x hx => (hbefore x hx).2.1,
        collect_eq_nil_iff.2 fun x hx => (hquiet x hx).2]
      rfl

/-- A command to forget the network. -/
def resetRequest : InboundRequest := ⟨9, .put, utf8 "\x7b\"cmd\":\"factoryreset\"\x7d"⟩

/-- A simulated node that is told to forget the network. -/
theorem Run.answers_once_simulated :
    ∃ turns e t, Run .default turns e ∧ t ∈ turns ∧
      t.input = .event (.commandReceived resetRequest) ∧
      ∃ first body name code reply rest,
        t.log = first ++ ⟨.mesh (.respond 9 body), reply⟩ ::
          ⟨.emit (.commandHandled name code), ()⟩ :: rest ∧
        rest.map Exchange.call = [.board (.delay Config.default.resetGraceMs),
          .mesh (.removeAll Config.default.deregisterTimeoutMs), .mesh .factoryReset] := by
  obtain ⟨past, run, -, -⟩ := exists_run_of_answer Engine.new_default [.roleChanged .child]
    Host.answer (.initial .disabled)
  obtain ⟨t, run', hinput, -, -⟩ := run.exists_handle (.commandReceived resetRequest) Host.answer
    (.initial .child)
  have hmem : t ∈ past ++ [t] := List.mem_append_right _ (List.mem_singleton_self t)
  obtain ⟨hput, -⟩ := run'.answers_once hmem hinput
  obtain ⟨first, members, name, code, reply, rest, hlog, -, -, -, -, hclosing⟩ := hput rfl
  have hcalls : closingCalls .default resetRequest.payload =
      [.board (.delay Config.default.resetGraceMs),
        .mesh (.removeAll Config.default.deregisterTimeoutMs), .mesh .factoryReset] := by
    decide +kernel
  exact ⟨_, _, t, run', hmem, hinput, first, _, name, code, reply, rest, hlog,
    hclosing.trans hcalls⟩

end MeshLight
