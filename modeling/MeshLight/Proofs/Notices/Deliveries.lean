import MeshLight.Proofs.Notices.Replay
import MeshLight.Proofs.Sending

/-!
# MeshLight.Proofs.Notices.Deliveries

Reports and notifications that the transport accepted. Each is one block of a log: the request, a
pulse of the presence light if it went to a single node, and the notice that it was sent
(`Delivery.deeds`). Nothing else pulses the light or gives such a notice, so a log, read for these
three kinds of calls, is its deliveries one after the other (`Delivers`). With the replay of the
other notices this is what a run says about itself (`Run.notices_are_faithful`).
-/

namespace MeshLight

open Prog

/-! ## deliveries -/

/-- What is done to deliver a report or a notification. -/
inductive Deed where
  | sent (request : Request)
  | pulsed (ms : UInt32)
  | noted (n : Notice)
  deriving DecidableEq

/-- Whether a request carries a report or a notification. -/
def Request.isDelivery (r : Request) : Bool :=
  r.resource == "status" || r.resource == "trigger" || r.resource == "testing_light"

/-- What a call does to deliver a report or a notification. A request counts if it was accepted. -/
def Exchange.deed? : Exchange → Option Deed
  | ⟨.mesh (.send request), .ok _⟩ => if request.isDelivery then some (.sent request) else none
  | ⟨.board (.setIndicator (.pulse ms)), _⟩ => some (.pulsed ms)
  | ⟨.emit (.statusReported peer), _⟩ => some (.noted (.statusReported peer))
  | ⟨.emit (.triggerSent kind broadcast), _⟩ => some (.noted (.triggerSent kind broadcast))
  | _ => none

/-- What is done in a log to deliver reports and notifications. -/
def deeds (log : List Exchange) : List Deed := log.filterMap Exchange.deed?

/-- A report or a notification that was sent. A notification goes to the peer, or to all nodes. -/
inductive Delivery where
  | report (peer : Address) (payload : Bytes)
  | notification (peer : Option Address) (event : TriggerEvent) (eui64 : String)

namespace Delivery

def request : Delivery → Request
  | report peer payload => ⟨.put, .unicast peer, "status", payload, some .status⟩
  | notification (some peer) event eui64 =>
    ⟨.put, .unicast peer, "trigger", utf8 (event.notification eui64), some .trigger⟩
  | notification none event eui64 =>
    ⟨.put, .multicast allNodes, "testing_light", utf8 (event.notification eui64), none⟩

def notice : Delivery → Notice
  | report peer _ => .statusReported peer
  | notification peer event _ => .triggerSent event.kind peer.isNone

/-- The request, a pulse if it goes to a single node, and the notice. -/
def deeds (pulseMs : UInt32) (d : Delivery) : List Deed :=
  .sent d.request ::
    (if d.request.destination.isMulticast then [] else [.pulsed pulseMs]) ++ [.noted d.notice]

end Delivery

/-- What is done in a log to deliver reports and notifications comes to whole deliveries. -/
def Delivers (pulseMs : UInt32) (log : List Exchange) : Prop :=
  ∃ deliveries : List Delivery, deeds log = deliveries.flatMap (Delivery.deeds pulseMs)

section

variable {pulseMs : UInt32} {first rest log : List Exchange}

theorem Delivers.append (h : Delivers pulseMs first) (h' : Delivers pulseMs rest) :
    Delivers pulseMs (first ++ rest) := by
  obtain ⟨ds, hfirst⟩ := h
  obtain ⟨ds', hrest⟩ := h'
  refine ⟨ds ++ ds', ?_⟩
  unfold deeds at hfirst hrest ⊢
  rw [List.filterMap_append, hfirst, hrest, List.flatMap_append]

theorem delivers_of_none (h : ∀ x ∈ log, x.deed? = none) : Delivers pulseMs log :=
  ⟨[], List.filterMap_eq_nil_iff.2 h⟩

theorem delivers_nil : Delivers pulseMs [] := ⟨[], rfl⟩

theorem delivers_flatMap {xs : List α} {f : α → List Exchange}
    (h : ∀ x ∈ xs, Delivers pulseMs (f x)) : Delivers pulseMs (xs.flatMap f) := by
  induction xs with
  | nil => exact delivers_nil
  | cons x xs ih =>
      rw [List.flatMap_cons]
      exact (h x (List.mem_cons_self ..)).append (ih fun y hy => h y (List.mem_cons_of_mem x hy))

theorem Delivery.isDelivery_request (d : Delivery) : d.request.isDelivery = true := by
  rcases d with ⟨peer, payload⟩ | ⟨_ | peer, event, eui64⟩ <;> rfl

/-- An accepted request with what follows it is a delivery. -/
theorem delivers_of_accepted (d : Delivery) (hfirst : ∀ x ∈ first, x.deed? = none)
    (hrest : deeds rest = (if d.request.destination.isMulticast then [] else [.pulsed pulseMs]) ++
      [.noted d.notice]) : Delivers pulseMs (first ++ ⟨.mesh (.send d.request), .ok ()⟩ :: rest) := by
  have hsent : Exchange.deed? ⟨.mesh (.send d.request), .ok ()⟩ = some (.sent d.request) :=
    if_pos d.isDelivery_request
  refine ⟨[d], ?_⟩
  unfold deeds at hrest ⊢
  rw [List.filterMap_append, List.filterMap_eq_nil_iff.2 hfirst, List.nil_append,
    List.filterMap_cons_some hsent, hrest, List.flatMap_singleton]
  rfl

end

/-- Whether a call may be part of a delivery. -/
def Call.mayDeliver : Call → Bool
  | .mesh (.send _) | .board (.setIndicator _) => true
  | .emit (.statusReported _) | .emit (.triggerSent _ _) => true
  | _ => false

theorem deed?_of_mayDeliver {x : Exchange} (h : x.call.mayDeliver = false) : x.deed? = none := by
  unfold Exchange.deed?
  split <;> first | rfl | cases h

namespace Engine

variable {e e' : Engine} {log : List Exchange}

/-! ## work -/

theorem delivers_sendReport {peer : Address} (h : Path (e.sendReport peer) log e') :
    Delivers e.config.triggerPulseMs log := by
  obtain ⟨-, sampled, id, readings, answer, rest, rfl, ⟨⟨fault, rfl⟩, rfl⟩ | ⟨rfl, rfl⟩⟩ :=
    path_sendReport h
  · exact ⟨[], rfl⟩
  · have hfirst : ∀ x ∈ [⟨.board .sample, sampled⟩, ⟨.mesh .identity, id⟩,
        ⟨.board .readings, readings⟩], Exchange.deed? x = none := by
      simp [Exchange.deed?]
    exact delivers_of_accepted (.report peer (e.reportRequest peer id readings).payload) hfirst rfl

theorem delivers_sendAlong {route : Route} {event : TriggerEvent}
    (hroute : Route.choose e.session.testing e.session.peer = .ok route)
    (h : Path (e.sendAlong route event) log e') : Delivers e.config.triggerPulseMs log := by
  obtain ⟨-, id, answer, rest, rfl, ⟨⟨fault, rfl⟩, rfl⟩ | ⟨rfl, shown, hshown, rfl⟩⟩ :=
    path_sendAlong h
  · exact ⟨[], rfl⟩
  · have hfirst : ∀ x ∈ [⟨.mesh .identity, id⟩], Exchange.deed? x = none := by
      simp [Exchange.deed?]
    unfold Route.choose at hroute
    split at hroute
    · cases hroute
      rw [hshown]
      exact delivers_of_accepted (.notification none event id.eui64.text) hfirst rfl
    · split at hroute
      · next peer _ =>
          cases hroute
          rw [hshown]
          exact delivers_of_accepted (.notification (some peer) event id.eui64.text) hfirst rfl
      · cases hroute

/-- The question for the coordinator's address is no delivery. -/
theorem delivers_sendProvisioning (h : Path e.sendProvisioning log e') :
    Delivers e.config.triggerPulseMs log := by
  refine delivers_of_none fun x hx => ?_
  have hmay := h.only e.only_sendProvisioning x hx
  obtain ⟨c, answer⟩ := x
  cases c with
  | mesh c =>
      cases c with
      | send request =>
          have hmem : request ∈ requests log :=
            List.mem_filterMap.2 ⟨⟨.mesh (.send request), answer⟩, hx, rfl⟩
          obtain ⟨-, hlog⟩ | ⟨-, hlog⟩ := (requests_sendProvisioning h).1
          · rw [hlog] at hmem
            cases hmem
          · rw [hlog, List.mem_singleton] at hmem
            rw [hmem]
            cases answer <;> rfl
      | _ => rfl
  | board | timer | emit => cases hmay

theorem delivers_execute {w : Work} (h : Path (e.execute w) log e') :
    Delivers e.config.triggerPulseMs log := by
  cases w with
  | reportStatus =>
      obtain ⟨-, rfl, -⟩ | ⟨-, ⟨-, rfl, -⟩ | ⟨peer, -, hsend⟩⟩ := path_reportStatus h
      · exact delivers_nil
      · exact delivers_nil
      · exact delivers_sendReport hsend
  | emitTrigger event =>
      obtain ⟨-, rfl, -⟩ | ⟨-, ⟨-, -, rfl, -⟩ | ⟨route, hroute, hsend⟩⟩ := path_emitTrigger h
      · exact delivers_nil
      · exact delivers_nil
      · exact delivers_sendAlong hroute hsend
  | sendProvisioning => exact delivers_sendProvisioning h
  | indicateConnected | indicateDisconnected | indicateJoining | indicateIdle =>
      obtain ⟨-, rfl⟩ := path_indicate h
      exact delivers_of_none fun x hx => by
        rw [List.mem_singleton.1 hx]
        rfl
  | releasePollBoost | beginRegistration | startManagement | factoryReset | reboot =>
      refine delivers_of_none fun x hx => deed?_of_mayDeliver ?_
      have hmay := h.only (only_execute _ e) x hx
      unfold Call.mayDeliver
      split <;> first | rfl | simp_all [Work.mayCall]

theorem Drains.delivers {tasks : List Task} (h : Drains e tasks e') :
    Delivers e.config.triggerPulseMs (tasks.flatMap Task.log) := by
  refine delivers_flatMap fun task htask => ?_
  rw [← (h.sameFacts.2 task htask).config]
  exact delivers_execute (h.executes task htask)

end Engine

/-! ## runs -/

theorem mayDeliver_of_input {input : Input} {c : Call} (h : input.mayCall c = true) :
    c.mayDeliver = false := by
  unfold Input.mayCall at h
  split at h <;> first | rfl | exact Bool.noConfusion h

variable {config : Config} {turns : List Turn} {t : Turn} {e : Engine}

theorem Turn.Happens.delivers (ht : t.Happens)
    (hstart : t.input = .start → t.before.state ≠ .connected) :
    Delivers t.before.config.triggerPulseMs t.log := by
  have hopening : Delivers t.before.config.triggerPulseMs t.opening :=
    delivers_of_none fun x hx => deed?_of_mayDeliver <|
      mayDeliver_of_input (ht.receives.only (Engine.only_receive _ _) x hx)
  have hwork := ht.drains.delivers
  rw [← ht.drains.sameFacts.1.config, ht.config hstart] at hwork
  exact hopening.append hwork

theorem Run.delivers (run : Run config turns e) :
    Delivers config.triggerPulseMs (turns.flatMap Turn.log) := by
  refine delivers_flatMap fun t hmem => ?_
  obtain ⟨ht, hstart, -⟩ := run.atRest.2 t hmem
  rw [← run.config_eq.2 t hmem]
  exact ht.delivers hstart

/-- The notices are a faithful record. However the calls are answered: the replay of all notices
from the picture of a new node is the picture of the engine; every notice of a change begins in the
state that the replay of those before it has come to; and the accepted reports and notifications,
the pulses of the presence light, and the notices of what was sent come in whole deliveries, one
after the other. -/
theorem Run.notices_are_faithful (run : Run config turns e) :
    Picture.initial.replay (notices (turns.flatMap Turn.log)) = e.picture ∧
    (∀ first before after rest,
      notices (turns.flatMap Turn.log) = first ++ .sessionChanged before after :: rest →
        before = (Picture.initial.replay first).state) ∧
    ∃ deliveries : List Delivery, deeds (turns.flatMap Turn.log) =
      deliveries.flatMap (Delivery.deeds config.triggerPulseMs) := by
  obtain ⟨hreplay, hfits⟩ := Picture.retell?_eq_some_iff.1 run.retold
  exact ⟨hreplay, hfits, run.delivers⟩

/-- A simulated node that gets on the network, learns the coordinator's address and leaves. -/
theorem Run.notices_are_faithful_simulated :
    ∃ turns e, Run .default turns e ∧ turns.map Turn.input = [.start, .event (.roleChanged .child),
        .event (.reply .provisioning (List.replicate 16 7)), .event (.roleChanged .detached)] ∧
      e.state = .disconnected ∧
      Picture.initial.replay (notices (turns.flatMap Turn.log)) = .initial := by
  obtain ⟨turns, run, hinputs, -⟩ := exists_run_of_answer Engine.new_default
    [.roleChanged .child, .reply .provisioning (List.replicate 16 7), .roleChanged .detached]
    Host.answer (.initial .disabled)
  obtain ⟨hreplay, -, -⟩ := run.notices_are_faithful
  refine ⟨turns, _, run, hinputs, by decide, ?_⟩
  rw [hreplay]
  decide

end MeshLight
