import MeshLight.Command.Dispatch
import MeshLight.Proofs.Exchange

/-!
# MeshLight.Proofs.Command.Dispatch

What carrying out a command comes to, along any path. A command whose fields do not pass makes no
call at all; an action makes the call that may refuse it before anything else, so when it is
rejected nothing but questions and refused calls has been made (`performed_of_path`). The same then
holds of reading and carrying out any body (`dispatched_of_path`).
-/

namespace MeshLight

open Prog

/-! ## work for later -/

/-- Work that a command may leave to be done once it was answered. -/
def Work.isMaintenance : Work → Bool
  | .startManagement | .factoryReset _ | .reboot _ => true
  | _ => false

namespace Action

variable {config : Config} {s : Session} {log : List Exchange}

/-! ## single effects -/

/-- An actuator's refusal becomes the fault of the command. -/
theorem path_actuate {p : Prog (Except ActuatorFault α)} {r : Except CommandFault α}
    (h : Path (actuate p).run log r) :
    ∃ answer, Path p log answer ∧ r = answer.mapError CommandFault.ofActuator := by
  unfold actuate at h
  simp only [path_run_bind_iff, path_run_lift_iff] at h
  obtain ⟨answer, first, rest, rfl, ⟨_, ⟨⟩, hp⟩, h⟩ | ⟨_, -, _, ⟨⟩, _⟩ := h
  refine ⟨answer, ?_, ?_⟩
  all_goals
    cases answer <;> obtain ⟨rfl, rfl⟩ := path_done_iff.1 h
  · rwa [List.append_nil]
  · rwa [List.append_nil]
  · rfl
  · rfl

/-- The entries of light groups are asked for, one group after the other. -/
theorem path_lightEntries {groups : List LightGroup} {r : Except CommandFault (List Json.Value)}
    (h : Path (lightEntries groups).run log r) :
    ∀ x ∈ log, ∃ group, x.call = .board (.groupStatus group) := by
  induction groups generalizing log r with
  | nil =>
      obtain ⟨rfl, -⟩ := path_done_iff.1 h
      simp
  | cons group rest ih =>
      have hask {first : List Exchange} {r : Except CommandFault GroupStatus}
          (h : Path (actuate (Prog.board (.groupStatus group))).run first r) :
          ∀ x ∈ first, ∃ group, x.call = .board (.groupStatus group) := by
        obtain ⟨answer, hp, -⟩ := path_actuate h
        rw [path_board_iff.1 hp]
        simp
      rw [lightEntries, path_run_bind_iff] at h
      obtain ⟨status, first, later, rfl, hfirst, h⟩ | ⟨fault, -, h⟩ := h
      · rw [path_run_bind_iff] at h
        obtain ⟨entries, second, last, rfl, hsecond, h⟩ | ⟨fault, -, h⟩ := h
        · obtain ⟨rfl, -⟩ := path_done_iff.1 h
          intro x hx
          rw [List.append_nil, List.mem_append] at hx
          exact hx.elim (hask hfirst x) (ih hsecond x)
        · intro x hx
          exact (List.mem_append.1 hx).elim (hask hfirst x) (ih h x)
      · exact hask h

/-- The timer of a delayed switch-off is touched only once the group was switched. -/
theorem path_power {group : LightGroup} {on : Bool} {delaySecs : Nat}
    {r : Except CommandFault Unit} (h : Path (power group on delaySecs).run log r) :
    ∃ answer rest, log = ⟨.board (.setGroupPower group on), answer⟩ :: rest ∧
      ((∃ fault, answer = .error fault ∧ r = .error (.ofActuator fault)) ∧ rest = [] ∨
        answer = .ok () ∧ r = .ok () ∧ rest = [if 0 < delaySecs
          then ⟨.timer (.startOnce (.lightOff group) (delayMs delaySecs)), ()⟩
          else ⟨.timer (.stop (.lightOff group)), ()⟩]) := by
  rw [power, path_run_bind_iff] at h
  obtain ⟨_, first, rest, rfl, hfirst, h⟩ | ⟨fault, rfl, hfirst⟩ := h
  all_goals
    obtain ⟨answer, hp, hr⟩ := path_actuate hfirst
    obtain rfl := path_board_iff.1 hp
  · cases answer with
    | error fault => cases hr
    | ok u =>
        refine ⟨.ok u, rest, rfl, .inr ⟨rfl, ?_⟩⟩
        split at h
        · next hd =>
            obtain ⟨u, rfl, ht⟩ := path_run_lift_iff.1 h
            obtain rfl := path_timer_iff.1 ht
            exact ⟨rfl, by rw [if_pos hd]⟩
        · next hd =>
            obtain ⟨u, rfl, ht⟩ := path_run_lift_iff.1 h
            obtain rfl := path_timer_iff.1 ht
            exact ⟨rfl, by rw [if_neg hd]⟩
  · cases answer with
    | error fault =>
        injection hr with hr
        exact ⟨.error fault, [], rfl, .inl ⟨⟨fault, rfl, by rw [hr]⟩, rfl⟩⟩
    | ok u => cases hr

/-- The report timer is started again only if it runs. -/
theorem path_restartReports {interval : ReportInterval} {u : Unit}
    (h : Path (restartReports config interval) log u) :
    log = [⟨.timer (.isRunning .report), false⟩] ∨
      log = [⟨.timer (.isRunning .report), true⟩, ⟨.timer (.stop .report), ()⟩,
        ⟨.timer (.startPeriodic .report config.reportInitialDelayMs.toNat interval.period),
          ()⟩] := by
  simp only [restartReports, Prog.timer, bind_call, bind_done, path_call_iff] at h
  obtain ⟨running, rest, rfl, h⟩ := h
  cases running with
  | false =>
      obtain ⟨rfl, -⟩ := path_done_iff.1 h
      exact .inl rfl
  | true =>
      simp only [path_call_iff, path_done_iff, if_true] at h
      obtain ⟨_, _, rfl, _, _, rfl, rfl, -⟩ := h
      exact .inr rfl

/-! ## actions -/

variable {r : Except CommandFault Effect}

theorem path_perform_setPower {group : LightGroup} {on : Bool} {delaySecs : Nat}
    (h : Path (perform config s (.setPower group on delaySecs)).run log r) :
    ∃ answer, Path (power group on delaySecs).run log answer ∧
      r = answer.map fun _ => ⟨s, [], none⟩ :=
  path_run_map_iff.1 h

theorem path_perform_setColor {group : LightGroup} {color : Rgb}
    (h : Path (perform config s (.setColor group color)).run log r) :
    ∃ answer, log = [⟨.board (.setGroupColor group color), answer⟩] ∧
      r = (answer.mapError CommandFault.ofActuator).map fun _ => ⟨s, [], none⟩ := by
  rw [perform, path_run_map_iff] at h
  obtain ⟨_, hcall, rfl⟩ := h
  obtain ⟨answer, hp, rfl⟩ := path_actuate hcall
  exact ⟨answer, path_board_iff.1 hp, rfl⟩

theorem path_perform_setPin {name : String} {high : Bool}
    (h : Path (perform config s (.setPin name high)).run log r) :
    ∃ answer, log = [⟨.board (.setPin name high), answer⟩] ∧
      r = (answer.mapError CommandFault.ofActuator).map fun _ => ⟨s, [], none⟩ := by
  rw [perform, path_run_map_iff] at h
  obtain ⟨_, hcall, rfl⟩ := h
  obtain ⟨answer, hp, rfl⟩ := path_actuate hcall
  exact ⟨answer, path_board_iff.1 hp, rfl⟩

theorem path_perform_lightStatus (h : Path (perform config s .lightStatus).run log r) :
    ∃ answer, Path (lightEntries LightGroup.halves).run log answer ∧
      r = answer.map fun entries => ⟨s, [("led_strip_status", .array entries)], none⟩ :=
  path_run_map_iff.1 h

theorem path_perform_pinStatus (h : Path (perform config s .pinStatus).run log r) :
    ∃ pins, log = [⟨.board .pins, pins⟩] ∧
      r = .ok ⟨s, [("gpio_status", .array (pins.map pinEntry))], none⟩ := by
  rw [perform, path_run_map_iff] at h
  obtain ⟨_, hp, rfl⟩ := h
  obtain ⟨pins, rfl, hask⟩ := path_run_lift_iff.1 hp
  exact ⟨pins, path_board_iff.1 hask, rfl⟩

theorem path_perform_setReportInterval {interval : ReportInterval}
    (h : Path (perform config s (.setReportInterval interval)).run log r) :
    Path (restartReports config interval) log () ∧
      r = .ok ⟨{ s with interval := interval }, [], none⟩ := by
  rw [perform, path_run_map_iff] at h
  obtain ⟨_, hlift, rfl⟩ := h
  obtain ⟨u, rfl, hp⟩ := path_run_lift_iff.1 hlift
  exact ⟨hp, rfl⟩

theorem path_perform_setLinkMode {mode : LinkMode}
    (h : Path (perform config s (.setLinkMode mode)).run log r) :
    ∃ answer, log = [⟨.mesh (.setLinkMode mode), answer⟩] ∧
      r = (answer.mapError CommandFault.ofNetwork).map fun _ => ⟨s, [], none⟩ := by
  rw [perform, path_run_bind_iff] at h
  simp only [path_run_lift_iff, Prog.mesh, path_call_iff, path_done_iff] at h
  obtain ⟨answer, _, rest, rfl, ⟨_, ⟨⟩, _, _, rfl, rfl, rfl⟩, h⟩ | ⟨_, -, _, ⟨⟩, _⟩ := h
  refine ⟨answer, ?_, ?_⟩
  all_goals
    cases answer <;> obtain ⟨rfl, rfl⟩ := path_done_iff.1 h <;> rfl

/-- What carrying out an action comes to. It puts no message on the mesh, and if it is rejected it
has made only questions and refused calls. Of the session it changes the interval at most. -/
structure Performed (s : Session) (log : List Exchange) (r : Except CommandFault Effect) :
    Prop where
  silent : ∀ x ∈ log, x.call.isMessage = false
  idle : ∀ fault, r = .error fault → ∀ x ∈ log, x.isIdle = true
  session : ∀ effect, r = .ok effect →
    effect.session = { s with interval := effect.session.interval }
  followUp : ∀ effect, r = .ok effect → ∀ w ∈ effect.followUp, w.isMaintenance = true

theorem performed_of_ok {effect : Effect} (hr : r = .ok effect)
    (hsilent : ∀ x ∈ log, x.call.isMessage = false)
    (hsession : effect.session = { s with interval := effect.session.interval })
    (hwork : ∀ w ∈ effect.followUp, w.isMaintenance = true) : Performed s log r where
  silent := hsilent
  idle fault hf := by rw [hr] at hf; cases hf
  session effect' he := by rw [hr] at he; cases he; exact hsession
  followUp effect' he := by rw [hr] at he; cases he; exact hwork

theorem performed_of_error {fault : CommandFault} (hr : r = .error fault)
    (hsilent : ∀ x ∈ log, x.call.isMessage = false) (hidle : ∀ x ∈ log, x.isIdle = true) :
    Performed s log r where
  silent := hsilent
  idle _ _ := hidle
  session effect he := by rw [hr] at he; cases he
  followUp effect he := by rw [hr] at he; cases he

/-- Actions that begin with one call, which the board or the stack may refuse. -/
theorem performed_of_refusable {x : Exchange} {answer : Except ε Unit} {toFault : ε → CommandFault}
    (hsilent : x.call.isMessage = false) (hidle : ∀ fault, answer = .error fault → x.isIdle = true)
    (hr : r = (answer.mapError toFault).map fun _ => ⟨s, [], none⟩) : Performed s [x] r := by
  cases answer with
  | ok u => exact performed_of_ok hr (by simpa using hsilent) rfl (by simp)
  | error fault =>
      exact performed_of_error hr (by simpa using hsilent) (by simpa using hidle fault rfl)

theorem performed_of_path {action : Action} (h : Path (perform config s action).run log r) :
    Performed s log r := by
  cases action with
  | setPower group on delaySecs =>
      obtain ⟨answer, hp, hr⟩ := path_perform_setPower h
      obtain ⟨reply, rest, rfl, ⟨⟨fault, rfl, rfl⟩, rfl⟩ | ⟨rfl, rfl, rfl⟩⟩ := path_power hp
      · exact performed_of_error hr (by simp [Call.isMessage])
          (by simp [Exchange.isIdle, Exchange.isRefused])
      · refine performed_of_ok hr ?_ rfl (by simp)
        split <;> simp [Call.isMessage]
  | setColor group color =>
      obtain ⟨answer, rfl, hr⟩ := path_perform_setColor h
      exact performed_of_refusable rfl (fun fault hf => by rw [hf]; rfl) hr
  | setPin name high =>
      obtain ⟨answer, rfl, hr⟩ := path_perform_setPin h
      exact performed_of_refusable rfl (fun fault hf => by rw [hf]; rfl) hr
  | setLinkMode mode =>
      obtain ⟨answer, rfl, hr⟩ := path_perform_setLinkMode h
      exact performed_of_refusable rfl (fun fault hf => by rw [hf]; rfl) hr
  | lightStatus =>
      obtain ⟨answer, hp, rfl⟩ := path_perform_lightStatus h
      have hasked := path_lightEntries hp
      have hsilent : ∀ x ∈ log, x.call.isMessage = false := by
        intro x hx
        obtain ⟨group, hcall⟩ := hasked x hx
        rw [hcall]
        rfl
      cases answer with
      | ok entries => exact performed_of_ok rfl hsilent rfl (by simp)
      | error fault =>
          refine performed_of_error rfl hsilent fun x hx => ?_
          obtain ⟨group, hcall⟩ := hasked x hx
          simp [Exchange.isIdle, Call.isQuestion, hcall]
  | pinStatus =>
      obtain ⟨pins, rfl, hr⟩ := path_perform_pinStatus h
      exact performed_of_ok hr (by simp [Call.isMessage]) rfl (by simp)
  | setReportInterval interval =>
      obtain ⟨hp, hr⟩ := path_perform_setReportInterval h
      refine performed_of_ok hr ?_ rfl (by simp)
      obtain rfl | rfl := path_restartReports hp <;> simp [Call.isMessage]
  | upgrade | factoryReset | reboot =>
      obtain ⟨rfl, hr⟩ := path_done_iff.1 h
      exact performed_of_ok hr (by simp) rfl (by simp [Work.isMaintenance])

end Action

/-! ## dispatch -/

/-- Whether a body is a JSON object that names a command. -/
def NamesCommand (body : Bytes) : Prop :=
  ∃ members name command, Envelope.bodyValue? body = some (.object members) ∧
    Json.Members.get? "cmd" members = some (.string name) ∧ Command.ofName? name = some command

/-- An envelope carries the name under `cmd`. -/
theorem Envelope.get?_cmd_of_parse {body : Bytes} {envelope : Envelope}
    (h : parse body = .ok envelope) :
    ∃ members, bodyValue? body = some (.object members) ∧
      Json.Members.get? "cmd" members = some (.string envelope.cmd) := by
  unfold parse at h
  split at h
  · next members hbody =>
      cases hcmd : cmdOf members with
      | error fault => rw [hcmd] at h; cases h
      | ok cmd =>
          cases hobj : objOf members with
          | error fault => rw [hcmd, hobj] at h; cases h
          | ok obj =>
              rw [hcmd, hobj] at h
              cases h
              refine ⟨members, hbody, ?_⟩
              unfold cmdOf at hcmd
              split at hcmd
              · next cmd' hget =>
                  cases hcmd
                  exact hget
              · cases hcmd
  · cases h

/-- Only a body that names a command is read as one. -/
theorem namesCommand_of_readCommand {body : Bytes} {command : Command} {action : Action}
    (h : readCommand body = .ok (command, action)) : NamesCommand body := by
  unfold readCommand at h
  split at h
  · cases h
  · next envelope hparse =>
      obtain ⟨members, hbody, hget⟩ := Envelope.get?_cmd_of_parse hparse
      cases hname : Command.ofName? envelope.cmd with
      | none => simp [hname] at h
      | some command' => exact ⟨members, envelope.cmd, command', hbody, hget, hname⟩

/-- A rejected command has a code other than zero. -/
theorem CommandFault.code_ne_zero (fault : CommandFault) : fault.code ≠ 0 := by
  cases fault <;> simp [code]

/-- What became of a command. A body that names none is answered at once. A rejected command leaves
the session as it was and nothing to be done; an accepted one changes the interval at most. The
answer carries the code. -/
structure Dispatched (body : Bytes) (s s' : Session) (log : List Exchange) (outcome : Outcome) :
    Prop where
  silent : ∀ x ∈ log, x.call.isMessage = false
  answered : Json.Members.get? "err_code" outcome.response = some (.int outcome.code)
  unnamed : ¬NamesCommand body → outcome.code ≠ 0 ∧ log = []
  rejected : outcome.code ≠ 0 →
    s' = s ∧ outcome.followUp = none ∧ ∀ x ∈ log, x.isIdle = true
  session : s' = { s with interval := s'.interval }
  followUp : ∀ w ∈ outcome.followUp, w.isMaintenance = true

/-- A rejection is answered with the code of its fault. -/
theorem dispatched_rejected {body : Bytes} {s : Session} {log : List Exchange}
    {command : Option Command} {fault : CommandFault}
    (hsilent : ∀ x ∈ log, x.call.isMessage = false)
    (hidle : ∀ x ∈ log, x.isIdle = true) (hnamed : ¬NamesCommand body → log = []) :
    Dispatched body s s log (.rejected command fault) where
  silent := hsilent
  answered := by
    unfold Outcome.rejected
    rw [Json.Members.get?_put, if_pos rfl]
  unnamed h := ⟨fault.code_ne_zero, hnamed h⟩
  rejected _ := ⟨rfl, rfl, hidle⟩
  session := rfl
  followUp := by simp [Outcome.rejected]

/-- A body is rejected at once, or it is read as a command whose action is carried out, and that
decides what is answered. -/
theorem path_dispatch {config : Config} {body : Bytes} {s s' : Session} {outcome : Outcome}
    {log : List Exchange} (h : Path (dispatch config body s) log (s', outcome)) :
    (∃ command fault, readCommand body = .error (command, fault) ∧ log = [] ∧ s' = s ∧
        outcome = .rejected command fault) ∨
      ∃ command action r, readCommand body = .ok (command, action) ∧
        Path (action.perform config s).run log r ∧
        ((∃ effect, r = .ok effect ∧ s' = effect.session ∧
            outcome = .accepted command effect.response effect.followUp) ∨
          ∃ fault, r = .error fault ∧ s' = s ∧ outcome = .rejected (some command) fault) := by
  unfold dispatch at h
  cases hread : readCommand body with
  | error refusal =>
      rw [hread] at h
      obtain ⟨rfl, h⟩ := path_done_iff.1 h
      cases h
      exact .inl ⟨_, _, rfl, rfl, rfl, rfl⟩
  | ok named =>
      obtain ⟨command, action⟩ := named
      simp only [hread, path_bind_iff] at h
      obtain ⟨r, log, rest, rfl, hp, h⟩ := h
      refine .inr ⟨command, action, r, rfl, ?_⟩
      cases r with
      | ok effect =>
          obtain ⟨rfl, h⟩ := path_done_iff.1 h
          cases h
          rw [List.append_nil]
          exact ⟨hp, .inl ⟨effect, rfl, rfl, rfl⟩⟩
      | error fault =>
          obtain ⟨rfl, h⟩ := path_done_iff.1 h
          cases h
          rw [List.append_nil]
          exact ⟨hp, .inr ⟨fault, rfl, rfl, rfl⟩⟩

/-- The action of a body that is read as a command is carried out. -/
theorem path_dispatch_of_ok {config : Config} {body : Bytes} {s s' : Session} {outcome : Outcome}
    {log : List Exchange} {command : Command} {action : Action}
    (h : Path (dispatch config body s) log (s', outcome))
    (hread : readCommand body = .ok (command, action)) :
    ∃ r, Path (action.perform config s).run log r ∧
      ((∃ effect, r = .ok effect ∧ s' = effect.session ∧
          outcome = .accepted command effect.response effect.followUp) ∨
        ∃ fault, r = .error fault ∧ s' = s ∧ outcome = .rejected (some command) fault) := by
  obtain ⟨_, _, hread', -⟩ | ⟨_, _, r, hread', hp, hr⟩ := path_dispatch h
  · rw [hread] at hread'
    cases hread'
  · rw [hread] at hread'
    cases hread'
    exact ⟨r, hp, hr⟩

theorem dispatched_of_path {config : Config} {body : Bytes} {s s' : Session} {outcome : Outcome}
    {log : List Exchange} (h : Path (dispatch config body s) log (s', outcome)) :
    Dispatched body s s' log outcome := by
  obtain ⟨command, fault, -, rfl, rfl, rfl⟩ | ⟨command, action, r, hread, hp, hr⟩ := path_dispatch h
  · exact dispatched_rejected (by simp) (by simp) fun _ => rfl
  · have hnamed := namesCommand_of_readCommand hread
    have hdone := Action.performed_of_path hp
    obtain ⟨effect, rfl, rfl, rfl⟩ | ⟨fault, rfl, rfl, rfl⟩ := hr
    · exact {
        silent := hdone.silent
        answered := by
          unfold Outcome.accepted
          rw [Json.Members.get?_put, if_pos rfl]
        unnamed := fun h => absurd hnamed h
        rejected := fun h => absurd rfl h
        session := hdone.session effect rfl
        followUp := hdone.followUp effect rfl }
    · exact dispatched_rejected hdone.silent (hdone.idle fault rfl) fun h => absurd hnamed h

end MeshLight
