import MeshLight.Engine
import MeshLight.Prog.Path

/-!
# MeshLight.Proofs.Engine.Work

What doing a piece of work comes to, along any path: which calls it makes, in which order, and what
it changes about the engine. There is one lemma for each program of the engine; those for programs
that run others name the paths of the others. The last lemma says what no work changes.
-/

namespace MeshLight

open Prog

/-- Whether a message goes to all nodes. -/
def Destination.isMulticast : Destination → Bool
  | .multicast _ => true
  | .unicast _ => false

/-- Work that only speaks to the board. -/
def Work.isSignal : Work → Bool
  | .indicateConnected | .indicateDisconnected | .indicateJoining | .indicateIdle
  | .startManagement | .reboot _ => true
  | _ => false

/-! ## poll period -/

namespace PollBoost

/-- Restoring sets the saved period, if there is one, and holds no boost afterwards. -/
theorem path_restore {b b' : PollBoost} {log : List Exchange} (h : Path b.restore log b') :
    b' = .none ∧ (log = [] ∧ b = .none ∨
      ∃ saved answer, b.saved = some saved ∧
        log = [⟨.mesh (.setPollPeriod saved), answer⟩]) := by
  obtain ⟨saved⟩ := b
  cases saved with
  | none =>
      simp only [restore, pure_eq_done, path_done_iff] at h
      exact ⟨h.2, .inl ⟨h.1, rfl⟩⟩
  | some saved =>
      simp only [restore, mesh, bind_call, bind_done, pure_eq_done, path_call_iff,
        path_done_iff] at h
      obtain ⟨answer, rest, rfl, rfl, rfl⟩ := h
      exact ⟨rfl, .inr ⟨saved, answer, rfl, rfl⟩⟩

/-- Engaging asks for the link mode, and for nothing more if the receiver is always on or a boost
is held. Otherwise the boost is held exactly if the shorter period was accepted. -/
theorem path_engage {b b' : PollBoost} {ms : UInt32} {log : List Exchange}
    (h : Path (b.engage ms) log b') :
    ∃ mode : LinkMode,
      (b' = b ∧ (mode.receiverOnWhenIdle || b.isHeld) = true ∧ log = [⟨.mesh .linkMode, mode⟩]) ∨
      ∃ current answer, (mode.receiverOnWhenIdle || b.isHeld) = false ∧
        log = [⟨.mesh .linkMode, mode⟩, ⟨.mesh .pollPeriod, current⟩,
          ⟨.mesh (.setPollPeriod ms), answer⟩] ∧
        (answer = .ok () ∧ b' = ⟨some current⟩ ∨ (∃ fault, answer = .error fault) ∧ b' = b) := by
  simp only [engage, mesh, bind_call, bind_done, pure_eq_done, path_call_iff] at h
  obtain ⟨mode, rest, rfl, h⟩ := h
  refine ⟨mode, ?_⟩
  split at h
  · next hb =>
      rw [path_done_iff] at h
      exact .inl ⟨h.2, hb, by rw [h.1]⟩
  · next hb =>
      simp only [path_call_iff] at h
      obtain ⟨current, rest, rfl, answer, rest, rfl, h⟩ := h
      refine .inr ⟨current, answer, Bool.eq_false_iff.2 hb, ?_⟩
      cases answer with
      | ok u =>
          rw [path_done_iff] at h
          exact ⟨by rw [h.1], .inl ⟨rfl, h.2⟩⟩
      | error fault =>
          rw [path_done_iff] at h
          exact ⟨by rw [h.1], .inr ⟨⟨fault, rfl⟩, h.2⟩⟩

end PollBoost

namespace Engine

variable {e e' : Engine} {log : List Exchange}

theorem path_restorePoll (h : Path e.restorePoll log e') :
    e' = { e with boost := .none } ∧ Path e.boost.restore log .none := by
  simp only [restorePoll, path_bind_iff, pure_eq_done, path_done_iff] at h
  obtain ⟨b, first, rest, rfl, hb, rfl, rfl⟩ := h
  obtain ⟨rfl, -⟩ := PollBoost.path_restore hb
  rw [List.append_nil]
  exact ⟨rfl, hb⟩

/-! ## asking for the coordinator -/

/-- The question is asked exactly if the node is connected and not in testing mode. If it could not
be sent, no boost is held. -/
theorem path_sendProvisioning (h : Path e.sendProvisioning log e') :
    (¬(e.state = .connected ∧ e.session.testing = false) ∧ log = [] ∧ e' = e) ∨
      (e.state = .connected ∧ e.session.testing = false) ∧
        ∃ first boost answer rest,
          log = first ++ ⟨.mesh (.send Provisioning.request), answer⟩ :: rest ∧
          Path (e.boost.engage e.config.boostedPollPeriodMs) first boost ∧
          (answer = .ok () ∧ rest = [] ∧ e' = { e with boost := boost } ∨
            (∃ fault, answer = .error fault) ∧ Path boost.restore rest .none ∧
              e' = { e with boost := .none }) := by
  unfold sendProvisioning at h
  split at h
  · next hc =>
      rw [pure_eq_done, path_done_iff] at h
      refine .inl ⟨?_, h⟩
      intro hboth
      obtain ⟨hs, ht⟩ := hboth
      simp [isConnected, hs, ht] at hc
  · next hc =>
      have hs : e.state = .connected ∧ e.session.testing = false := by
        simpa [isConnected] using hc
      rw [path_bind_iff] at h
      obtain ⟨boost, first, rest, rfl, hb, h⟩ := h
      simp only [mesh, bind_call, bind_done, path_call_iff] at h
      obtain ⟨answer, rest, rfl, h⟩ := h
      refine .inr ⟨hs, first, boost, answer, rest, rfl, hb, ?_⟩
      cases answer with
      | ok u =>
          rw [pure_eq_done, path_done_iff] at h
          exact .inl ⟨rfl, h⟩
      | error fault =>
          obtain ⟨rfl, hr⟩ := path_restorePoll h
          exact .inr ⟨⟨fault, rfl⟩, hr, rfl⟩

/-! ## registration -/

/-- The calls that hand the node's service to the registration client, in their order. -/
def advertiseCalls (id : Identity) (e : Engine) : List Call := [
  .mesh .identity,
  .mesh (.setHostName id.extended.text),
  .mesh (.setHostAddress id.advertised),
  .mesh (.addService (.ofNode id e.config.instanceLabel.text e.config.servicePort
    e.config.softwareVersion.text)),
  .mesh .enableAutostart]

theorem calls_of_path_mesh {c : MeshCall} {a : c.Answer} (h : Path (mesh c) log a) :
    log.map Exchange.call = [.mesh c] := by
  rw [path_mesh_iff.1 h]
  rfl

/-- A program that begins with a call to the stack, which may be refused, keeps to a sequence of
calls if the rest of it does. -/
theorem prefix_of_path_bind {c : MeshCall} {p : Prog (Except ε α)} {f : α → ExceptT ε Prog β}
    {calls : List Call} {r : Except ε β}
    (hp : ∀ {first answer}, Path p first answer → first.map Exchange.call = [.mesh c])
    (hrest : ∀ {a rest}, Path (f a).run rest r → rest.map Exchange.call <+: calls)
    (h : Path (ExceptT.mk p >>= f).run log r) : log.map Exchange.call <+: .mesh c :: calls := by
  obtain ⟨a, first, rest, rfl, hfirst, hr⟩ | ⟨fault, -, hfirst⟩ := path_run_bind_iff.1 h
  · rw [List.map_append, hp hfirst]
    exact (List.prefix_cons_inj _).2 (hrest hr)
  · rw [hp hfirst]
    exact ⟨calls, rfl⟩

/-- Host and service are handed over in a fixed order, up to the first refusal. -/
theorem path_advertise {r : Except RegistrationFault Unit} (h : Path e.advertise.run log r) :
    ∃ id, log.map Exchange.call <+: e.advertiseCalls id := by
  rw [advertise, path_run_bind_iff] at h
  obtain ⟨id, first, rest, rfl, hid, h⟩ | ⟨fault, rfl, hid⟩ := h
  · refine ⟨id, ?_⟩
    obtain ⟨_, -, hask⟩ := path_run_lift_iff.1 hid
    rw [List.map_append, calls_of_path_mesh hask]
    refine (List.prefix_cons_inj _).2 ?_
    refine prefix_of_path_bind (c := .setHostName _) calls_of_path_mesh (fun h => ?_) h
    refine prefix_of_path_bind (c := .setHostAddress _) calls_of_path_mesh (fun h => ?_) h
    refine prefix_of_path_bind (c := .addService _) calls_of_path_mesh (fun h => ?_) h
    exact ⟨[], by rw [List.append_nil, calls_of_path_mesh (c := .enableAutostart) h]⟩
  · obtain ⟨_, hok, -⟩ := path_run_lift_iff.1 hid
    cases hok

/-- The registration is begun, or has failed, if the machinery of an earlier one is not in place. -/
theorem path_beginRegistration (h : Path e.beginRegistration log e') :
    (e.session.registration.canBegin = false ∧ log = [] ∧ e' = e) ∨
      e.session.registration.canBegin = true ∧ ∃ first r registration,
        Path e.advertise.run first r ∧
        (r = .ok () ∧ registration = e.session.registration.begin ∨
          (∃ fault, r = .error fault) ∧ registration = e.session.registration.fail) ∧
        log = first ++ [⟨.emit (.registrationChanged registration.state), ()⟩] ∧
        e' = { e with session := { e.session with registration := registration } } := by
  unfold beginRegistration at h
  split at h
  · next hc =>
      rw [pure_eq_done, path_done_iff] at h
      exact .inl ⟨by simpa using hc, h⟩
  · next hc =>
      rw [path_bind_iff] at h
      obtain ⟨r, first, rest, rfl, hr, h⟩ := h
      refine .inr ⟨by simpa using hc, first, r, ?_⟩
      cases r with
      | ok u =>
          simp only [setRegistration, emit, bind_call, bind_done, pure_eq_done, path_call_iff,
            path_done_iff] at h
          obtain ⟨_, rest, rfl, rfl, rfl⟩ := h
          exact ⟨_, hr, .inl ⟨rfl, rfl⟩, rfl, rfl⟩
      | error fault =>
          simp only [setRegistration, emit, bind_call, bind_done, pure_eq_done, path_call_iff,
            path_done_iff] at h
          obtain ⟨_, rest, rfl, rfl, rfl⟩ := h
          exact ⟨_, hr, .inr ⟨⟨fault, rfl⟩, rfl⟩, rfl, rfl⟩

/-! ## reports and notifications -/

/-- The request that carries a report. -/
def reportRequest (peer : Address) (id : Identity) (readings : Readings) (e : Engine) : Request :=
  let report := StatusReport.ofNode id readings e.session.interval e.config.softwareVersion.text
    e.config.firmwareType.text
  ⟨.put, .unicast peer, "status", utf8 report.text, some .status⟩

/-- A report is sent once, and shown and noted if it could be sent. -/
theorem path_sendReport {peer : Address} (h : Path (e.sendReport peer) log e') :
    e' = e ∧ ∃ sampled id readings answer rest,
      log = ⟨.board .sample, sampled⟩ :: ⟨.mesh .identity, id⟩ :: ⟨.board .readings, readings⟩ ::
        ⟨.mesh (.send (e.reportRequest peer id readings)), answer⟩ :: rest ∧
      ((∃ fault, answer = .error fault) ∧ rest = [] ∨
        answer = .ok () ∧ rest = [⟨.board (.setIndicator (.pulse e.config.triggerPulseMs)), ()⟩,
          ⟨.emit (.statusReported peer), ()⟩]) := by
  simp only [sendReport, mesh, board, emit, bind_call, bind_done, path_call_iff] at h
  obtain ⟨sampled, _, rfl, id, _, rfl, readings, _, rfl, answer, rest, rfl, h⟩ := h
  cases answer with
  | error fault =>
      rw [pure_eq_done, path_done_iff] at h
      exact ⟨h.2, sampled, id, readings, _, rest, rfl, .inl ⟨⟨fault, rfl⟩, h.1⟩⟩
  | ok u =>
      simp only [pulse, board, bind_call, bind_done, pure_eq_done, path_call_iff,
        path_done_iff] at h
      obtain ⟨_, _, rfl, _, _, rfl, rfl, rfl⟩ := h
      exact ⟨rfl, sampled, id, readings, _, _, rfl, .inr ⟨rfl, rfl⟩⟩

/-- A report is left out in testing mode and while there is no connection. It needs the
coordinator's address, which is asked for if it is not known. -/
theorem path_reportStatus (h : Path e.reportStatus log e') :
    (¬(e.state = .connected ∧ e.session.testing = false) ∧ log = [] ∧ e' = e) ∨
      (e.state = .connected ∧ e.session.testing = false) ∧
        ((e.session.peer = none ∧ log = [] ∧ e' = e.submit .sendProvisioning) ∨
          ∃ peer, e.session.peer = some peer ∧ Path (e.sendReport peer) log e') := by
  unfold reportStatus at h
  split at h
  · next hc =>
      rw [pure_eq_done, path_done_iff] at h
      refine .inl ⟨?_, h⟩
      intro hboth
      obtain ⟨hs, ht⟩ := hboth
      simp [isConnected, hs, ht] at hc
  · next hc =>
      have hs : e.state = .connected ∧ e.session.testing = false := by
        simpa [isConnected, and_comm] using hc
      refine .inr ⟨hs, ?_⟩
      cases hp : e.session.peer with
      | none =>
          rw [hp, pure_eq_done, path_done_iff] at h
          exact .inl ⟨rfl, h⟩
      | some peer =>
          rw [hp] at h
          exact .inr ⟨peer, rfl, h⟩

/-- The request that carries a notification. Only the peer is asked to reply. -/
def triggerRequest (route : Route) (event : TriggerEvent) (id : Identity) : Request :=
  ⟨.put, route.destination, route.resource, utf8 (event.notification id.eui64.text),
    if route.destination.isMulticast then none else some .trigger⟩

/-- A notification is sent once, and noted if it could be sent. The presence light shows that if
the route says so. -/
theorem path_sendAlong {route : Route} {event : TriggerEvent}
    (h : Path (e.sendAlong route event) log e') :
    e' = e ∧ ∃ id answer rest,
      log = ⟨.mesh .identity, id⟩ :: ⟨.mesh (.send (triggerRequest route event id)), answer⟩ ::
        rest ∧
      ((∃ fault, answer = .error fault) ∧ rest = [] ∨
        answer = .ok () ∧ ∃ shown,
          shown = (if route.pulse then
            [⟨.board (.setIndicator (.pulse e.config.triggerPulseMs)), ()⟩] else []) ∧
          rest = shown ++
            [⟨.emit (.triggerSent event.kind route.destination.isMulticast), ()⟩]) := by
  simp only [sendAlong, mesh, emit, bind_call, bind_done, path_call_iff] at h
  obtain ⟨id, _, rfl, answer, rest, rfl, h⟩ := h
  cases answer with
  | error fault =>
      rw [pure_eq_done, path_done_iff] at h
      exact ⟨h.2, id, _, rest, rfl, .inl ⟨⟨fault, rfl⟩, h.1⟩⟩
  | ok u =>
      cases hp : route.pulse with
      | true =>
          simp only [hp, pulse, board, bind_call, bind_done, pure_eq_done, path_call_iff,
            path_done_iff, if_true] at h
          obtain ⟨_, _, rfl, _, _, rfl, rfl, rfl⟩ := h
          exact ⟨rfl, id, _, _, rfl, .inr ⟨rfl, _, rfl, rfl⟩⟩
      | false =>
          simp only [hp, pure_eq_done, path_call_iff, path_done_iff, if_false,
            Bool.false_eq_true] at h
          obtain ⟨_, _, rfl, rfl, rfl⟩ := h
          exact ⟨rfl, id, _, _, rfl, .inr ⟨rfl, _, rfl, rfl⟩⟩

/-- A notification is left out while there is no connection. Outside testing mode it needs the
coordinator's address, which is asked for if it is not known. -/
theorem path_emitTrigger {event : TriggerEvent} (h : Path (e.emitTrigger event) log e') :
    (e.state ≠ .connected ∧ log = [] ∧ e' = e) ∨
      e.state = .connected ∧
        ((e.session.testing = false ∧ e.session.peer = none ∧ log = [] ∧
            e' = e.submit .sendProvisioning) ∨
          ∃ route, Route.choose e.session.testing e.session.peer = .ok route ∧
            Path (e.sendAlong route event) log e') := by
  unfold emitTrigger at h
  split at h
  · next hc =>
      rw [pure_eq_done, path_done_iff] at h
      exact .inl ⟨by simpa [isConnected] using hc, h⟩
  · next hc =>
      have hs : e.state = .connected := by simpa [isConnected] using hc
      refine .inr ⟨hs, ?_⟩
      cases hr : Route.choose e.session.testing e.session.peer with
      | ok route =>
          rw [hr] at h
          exact .inr ⟨route, rfl, h⟩
      | error fault =>
          rw [hr, pure_eq_done, path_done_iff] at h
          have hnone : e.session.testing = false ∧ e.session.peer = none := by
            unfold Route.choose at hr
            cases ht : e.session.testing <;> cases hp : e.session.peer <;> simp [ht, hp] at hr ⊢
          exact .inl ⟨hnone.1, hnone.2, h⟩

/-! ## membership -/

/-- A reset waits, takes the node off the registrar and wipes its membership, in this order and
whatever the registrar says. -/
theorem path_factoryReset {graceMs : UInt32} (h : Path (e.factoryReset graceMs) log e') :
    e' = { e with join := e.join.reset } ∧ ∃ answer,
      log = [⟨.board (.delay graceMs), ()⟩,
        ⟨.mesh (.removeAll e.config.deregisterTimeoutMs), answer⟩, ⟨.mesh .factoryReset, ()⟩] := by
  simp only [factoryReset, board, mesh, bind_call, bind_done, pure_eq_done, path_call_iff,
    path_done_iff] at h
  obtain ⟨_, _, rfl, answer, _, rfl, _, _, rfl, rfl, rfl⟩ := h
  exact ⟨rfl, answer, rfl⟩

theorem path_indicate {mode : IndicatorMode} (h : Path (e.indicate mode) log e') :
    e' = e ∧ log = [⟨.board (.setIndicator mode), ()⟩] := by
  simp only [indicate, board, bind_call, bind_done, pure_eq_done, path_call_iff, path_done_iff] at h
  obtain ⟨_, _, rfl, rfl, rfl⟩ := h
  exact ⟨rfl, rfl⟩

/-! ## signals -/

/-- A signal leaves the engine as it is. -/
theorem path_execute_of_isSignal {w : Work} (hw : w.isSignal = true)
    (h : Path (e.execute w) log e') : e' = e ∧ ∀ x ∈ log, ∃ c, x.call = .board c := by
  cases w with
  | startManagement =>
      simp only [execute, board, bind_call, bind_done, pure_eq_done, path_call_iff,
        path_done_iff] at h
      obtain ⟨_, _, rfl, rfl, rfl⟩ := h
      simp
  | reboot graceMs =>
      simp only [execute, board, bind_call, bind_done, pure_eq_done, path_call_iff,
        path_done_iff] at h
      obtain ⟨_, _, rfl, _, _, rfl, rfl, rfl⟩ := h
      simp
  | indicateConnected | indicateDisconnected | indicateJoining | indicateIdle =>
      obtain ⟨rfl, rfl⟩ := path_indicate h
      simp
  | _ => cases hw

/-! ## what work changes -/

/-- Two engines that differ at most in what work changes: the progress of joining and of the
registration, the boost, and the waiting work. -/
structure SameFacts (e e' : Engine) : Prop where
  config : e'.config = e.config
  machine : e'.machine = e.machine
  session : e'.session = { e.session with
    registration := e'.session.registration, work := e'.session.work }

namespace SameFacts

variable {e₁ e₂ e₃ : Engine}

theorem refl (e : Engine) : SameFacts e e := ⟨rfl, rfl, rfl⟩

theorem trans (h : SameFacts e₁ e₂) (h' : SameFacts e₂ e₃) : SameFacts e₁ e₃ where
  config := h'.config.trans h.config
  machine := h'.machine.trans h.machine
  session := by rw [h'.session, h.session]

theorem state (h : SameFacts e₁ e₂) : e₂.state = e₁.state := congrArg Machine.state h.machine

theorem attached (h : SameFacts e₁ e₂) : e₂.session.attached = e₁.session.attached := by
  rw [h.session]

theorem peer (h : SameFacts e₁ e₂) : e₂.session.peer = e₁.session.peer := by
  rw [h.session]

theorem testing (h : SameFacts e₁ e₂) : e₂.session.testing = e₁.session.testing := by
  rw [h.session]

end SameFacts

theorem sameFacts_submit (w : Work) (e : Engine) : SameFacts e (e.submit w) := ⟨rfl, rfl, rfl⟩

theorem items_submit_of_idle (w : Work) (hidle : e.session.work.items = []) :
    (e.submit w).session.work.items = [w] := by
  simp [submit, Session.submit, WorkQueue.submit, hidle, WorkQueue.capacity]

/-- What a piece of work may say and do to the engine. Only a report or a notification asks for more
work, the question for the coordinator's address, and then it says nothing. -/
inductive Alters (e : Engine) : Work → List Exchange → Engine → Prop where
  | nothing (w : Work) (log : List Exchange) : Alters e w log e
  | asks (w : Work) (hload : workload w = 2) : Alters e w [] (e.submit .sendProvisioning)
  | boosts (log : List Exchange) (boost : PollBoost) :
      Alters e .sendProvisioning log { e with boost := boost }
  | releases (log : List Exchange) : Alters e .releasePollBoost log { e with boost := .none }
  | registers (log : List Exchange) (r : Registration)
      (hr : r.state = .inProgress ∨ r.state = .failed) :
      Alters e .beginRegistration log { e with session := { e.session with registration := r } }
  | wipes (log : List Exchange) (graceMs : UInt32) :
      Alters e (.factoryReset graceMs) log { e with join := e.join.reset }

theorem alters_of_execute {w : Work} (h : Path (e.execute w) log e') : Alters e w log e' := by
  cases w with
  | sendProvisioning =>
      obtain ⟨-, -, rfl⟩ | ⟨-, _, _, _, _, -, -, he⟩ := path_sendProvisioning h
      · exact .nothing _ _
      · obtain ⟨-, -, rfl⟩ | ⟨-, -, rfl⟩ := he <;> exact .boosts _ _
  | releasePollBoost =>
      obtain ⟨rfl, -⟩ := path_restorePoll h
      exact .releases _
  | beginRegistration =>
      obtain ⟨-, -, rfl⟩ | ⟨-, _, _, _, -, hr, -, rfl⟩ := path_beginRegistration h
      · exact .nothing _ _
      · obtain ⟨-, rfl⟩ | ⟨-, rfl⟩ := hr
        · exact .registers _ _ (.inl rfl)
        · exact .registers _ _ (.inr rfl)
  | reportStatus =>
      obtain ⟨-, -, rfl⟩ | ⟨-, ⟨-, rfl, rfl⟩ | ⟨_, -, hsend⟩⟩ := path_reportStatus h
      · exact .nothing _ _
      · exact .asks _ rfl
      · obtain ⟨rfl, -⟩ := path_sendReport hsend
        exact .nothing _ _
  | emitTrigger event =>
      obtain ⟨-, -, rfl⟩ | ⟨-, ⟨-, -, rfl, rfl⟩ | ⟨_, -, hsend⟩⟩ := path_emitTrigger h
      · exact .nothing _ _
      · exact .asks _ rfl
      · obtain ⟨rfl, -⟩ := path_sendAlong hsend
        exact .nothing _ _
  | factoryReset graceMs =>
      obtain ⟨rfl, -⟩ := path_factoryReset h
      exact .wipes _ _
  | _ =>
      obtain ⟨rfl, -⟩ := path_execute_of_isSignal rfl h
      exact .nothing _ _

/-- Work does not change where the node stands. It asks for nothing but the question for the
coordinator's address, and for that only if a report or a notification needs it. -/
theorem path_execute {w : Work} (h : Path (e.execute w) log e') :
    SameFacts e e' ∧ (e'.session.work = e.session.work ∨
      workload w = 2 ∧ log = [] ∧ e' = e.submit .sendProvisioning) := by
  cases alters_of_execute h with
  | nothing => exact ⟨.refl _, .inl rfl⟩
  | asks _ hload => exact ⟨sameFacts_submit _ e, .inr ⟨hload, rfl, rfl⟩⟩
  | boosts | releases | registers | wipes => exact ⟨⟨rfl, rfl, rfl⟩, .inl rfl⟩

end Engine

end MeshLight
