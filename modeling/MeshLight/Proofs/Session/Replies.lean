import Mathlib.Data.List.Forall2
import MeshLight.Proofs.Sending

/-!
# MeshLight.Proofs.Session.Replies

Replies to the question for the coordinator's address. A reply always ends the boost. Beyond that it
counts only if it is exactly one address and the node is connected: then the address is learned and
noted and, outside testing mode, one report goes to it (`Engine.Heeds`). So of a sequence of replies
the last well-formed one decides where the peer is, and each well-formed one leads to one report
(`Engine.replies_heeded`).
-/

namespace MeshLight

open Prog

/-! ## releasing the boost -/

namespace PollBoost

/-- The calls that release a boost: the saved period is set again, if there is one. -/
def releaseCalls (b : PollBoost) : List Call :=
  b.saved.toList.map fun ms => .mesh (.setPollPeriod ms)

theorem calls_restore {b b' : PollBoost} {log : List Exchange} (h : Path b.restore log b') :
    log.map Exchange.call = b.releaseCalls := by
  obtain ⟨-, ⟨rfl, rfl⟩ | ⟨saved, answer, hsaved, rfl⟩⟩ := path_restore h
  · rfl
  · rw [releaseCalls, hsaved]
    rfl

end PollBoost

/-! ## one reply -/

namespace Engine

variable {e e' : Engine} {log : List Exchange} {payload : Bytes}

/-- The engine after it has learned an address. -/
def learn (address : Address) (e : Engine) : Engine :=
  { e with boost := .none, session := { e.session with peer := some address } }

/-- The calls of one report: the sensors are read, and one request is sent to the peer. If it could
be sent, that is shown and noted. -/
inductive Reports (e : Engine) (peer : Address) : List Exchange → Prop where
  | sent (sampled : BoardCall.sample.Answer) (id : Identity) (readings : Readings) :
      Reports e peer [⟨.board .sample, sampled⟩, ⟨.mesh .identity, id⟩,
        ⟨.board .readings, readings⟩,
        ⟨.mesh (.send (e.reportRequest peer id readings)), .ok ()⟩,
        ⟨.board (.setIndicator (.pulse e.config.triggerPulseMs)), ()⟩,
        ⟨.emit (.statusReported peer), ()⟩]
  | refused (sampled : BoardCall.sample.Answer) (id : Identity) (readings : Readings)
      (fault : TransportFault) :
      Reports e peer [⟨.board .sample, sampled⟩, ⟨.mesh .identity, id⟩,
        ⟨.board .readings, readings⟩,
        ⟨.mesh (.send (e.reportRequest peer id readings)), .error fault⟩]

theorem reports_of_path {peer : Address} (h : Path (e.sendReport peer) log e') :
    e' = e ∧ e.Reports peer log := by
  obtain ⟨he, sampled, id, readings, answer, rest, rfl, ⟨⟨fault, rfl⟩, rfl⟩ | ⟨rfl, rfl⟩⟩ :=
    path_sendReport h
  · exact ⟨he, .refused sampled id readings fault⟩
  · exact ⟨he, .sent sampled id readings⟩

theorem Reports.requests_eq {peer : Address} (h : e.Reports peer log) :
    ∃ id readings, requests log = [e.reportRequest peer id readings] := by
  cases h with
  | sent sampled id readings => exact ⟨id, readings, rfl⟩
  | refused sampled id readings fault => exact ⟨id, readings, rfl⟩

/-- What a reply comes to: the calls of dealing with it, and the engine after them. -/
inductive Heeds (e : Engine) (payload : Bytes) : List Exchange → Engine → Prop where
  /-- A reply that is late or not an address only ends the boost. -/
  | dropped {release : List Exchange} (hrelease : release.map Exchange.call = e.boost.releaseCalls)
      (hno : ¬(e.state = .connected ∧ payload.length = 16)) :
      Heeds e payload release { e with boost := .none }
  /-- Any other reply is learned, noted, and followed by a report, unless there are none in testing
  mode. -/
  | learned {release reported : List Exchange} (address : Address)
      (hrelease : release.map Exchange.call = e.boost.releaseCalls) (hs : e.state = .connected)
      (hpayload : address.bytes = payload)
      (hreported : if e.session.testing then reported = []
        else (e.learn address).Reports address reported) :
      Heeds e payload (release ++ ⟨.emit (.peerDiscovered address), ()⟩ :: reported)
        (e.learn address)

/-- The report that a learned address asks for. -/
theorem reported_of_drains {tasks : List Task} (address : Address)
    (h : Drains (submit .reportStatus (e.learn address)) tasks e')
    (hidle : e.session.work.items = []) (hs : e.state = .connected) :
    e' = e.learn address ∧ if e.session.testing then tasks.flatMap Task.log = []
      else (e.learn address).Reports address (tasks.flatMap Task.log) := by
  obtain ⟨first, e₁, rest, rfl, hreport, hrest⟩ :=
    h.of_items_eq_cons (items_submit_of_idle .reportStatus hidle)
  have hpop : { submit .reportStatus (e.learn address) with
      session := { (submit .reportStatus (e.learn address)).session with work := ⟨[]⟩ } } =
        e.learn address := by
    rw [← hidle]
    rfl
  rw [hpop] at hreport
  obtain ⟨hnot, rfl, rfl⟩ | ⟨⟨-, htesting⟩, ⟨hpeer, -, -⟩ | ⟨peer, hpeer, hsend⟩⟩ :=
    path_reportStatus hreport
  · obtain ⟨rfl, rfl⟩ := hrest.of_idle hidle
    have htesting : e.session.testing = true := by
      rw [← Bool.not_eq_false]
      exact fun ht => hnot ⟨hs, ht⟩
    rw [if_pos htesting]
    exact ⟨rfl, rfl⟩
  · cases hpeer
  · obtain rfl := Option.some.inj hpeer
    obtain ⟨rfl, hreports⟩ := reports_of_path hsend
    obtain ⟨rfl, rfl⟩ := hrest.of_idle hidle
    have htesting : e.session.testing = false := htesting
    rw [if_neg (by rw [htesting]; exact Bool.false_ne_true), List.flatMap_singleton]
    exact ⟨rfl, hreports⟩

/-- A reply is heeded, whatever the surroundings answer. -/
theorem heeds_of_path (hidle : e.session.work.items = [])
    (h : Path (e.handle (.reply .provisioning payload)) log e') : Heeds e payload log e' := by
  obtain ⟨e₁, first, rest, rfl, happly, hrest⟩ := path_bind_iff.1 h
  obtain ⟨tasks, hdrains, rfl⟩ := path_runPending_iff.1 hrest
  obtain ⟨release, hrestore, ⟨hs, address, haddress, rfl, rfl⟩ | ⟨hno, rfl, rfl⟩⟩ :=
    path_onProvisioningReply_cases happly
  · obtain ⟨rfl, hreported⟩ := reported_of_drains (e := e) address hdrains hidle hs
    have hpayload : address.bytes = payload := by
      unfold Octets.ofBytes? at haddress
      split at haddress <;> cases haddress
      rfl
    rw [List.append_assoc]
    exact .learned address (PollBoost.calls_restore hrestore) hs hpayload hreported
  · obtain ⟨rfl, rfl⟩ := hdrains.of_idle hidle
    rw [List.flatMap_nil, List.append_nil]
    refine .dropped (PollBoost.calls_restore hrestore) fun hboth => hno ⟨hboth.1, ?_⟩
    simp [Octets.ofBytes?, hboth.2]

end Engine

/-! ## sequences of replies -/

namespace Engine

variable {e e' : Engine} {log : List Exchange} {payload : Bytes} {payloads : List Bytes}

/-- A request that reports to the address that a reply gave. -/
def ReportsTo (e : Engine) (payload : Bytes) (request : Request) : Prop :=
  ∃ address id readings, address.bytes = payload ∧ request = e.reportRequest address id readings

theorem requests_of_releaseCalls {release : List Exchange} {b : PollBoost}
    (h : release.map Exchange.call = b.releaseCalls) : requests release = [] := by
  refine requests_eq_nil_iff.2 fun x hx => ?_
  have hcall : x.call ∈ b.releaseCalls := h ▸ List.mem_map_of_mem hx
  obtain ⟨ms, -, hms⟩ := List.mem_map.1 hcall
  rw [← hms]
  rfl

/-- One reply to a connected node outside testing mode: it changes the peer and ends the boost, if
anything, and is followed by one request if it is an address. -/
theorem Heeds.changes (h : Heeds e payload log e') (hs : e.state = .connected)
    (ht : e.session.testing = false) :
    ∃ peer, e' = { e with boost := .none, session := { e.session with peer := peer } } ∧
      if payload.length = 16 then
        peer.map Octets.bytes = some payload ∧ ∃ request, requests log = [request] ∧
          e.ReportsTo payload request
      else peer = e.session.peer ∧ requests log = [] := by
  cases h with
  | dropped hrelease hno =>
      refine ⟨e.session.peer, rfl, ?_⟩
      rw [if_neg fun hlength => hno ⟨hs, hlength⟩]
      exact ⟨rfl, requests_of_releaseCalls hrelease⟩
  | learned address hrelease _ hpayload hreported =>
      rw [ht, if_neg Bool.false_ne_true] at hreported
      obtain ⟨id, readings, hrequests⟩ := hreported.requests_eq
      refine ⟨some address, rfl, ?_⟩
      rw [if_pos (by rw [← hpayload, address.length_eq]), requests_append,
        requests_of_releaseCalls hrelease, requests_cons, hrequests]
      exact ⟨congrArg some hpayload, _, rfl, address, id, readings, hpayload, rfl⟩

/-- The last address decides where the peer is, and each leads to one report. -/
theorem path_replies (hidle : e.session.work.items = []) (hs : e.state = .connected)
    (ht : e.session.testing = false)
    (h : Path (handleAll (payloads.map (.reply .provisioning)) e) log e') :
    e'.session.peer.map Octets.bytes =
        (payloads.filter (·.length = 16)).getLast?.or (e.session.peer.map Octets.bytes) ∧
      List.Forall₂ e.ReportsTo (payloads.filter (·.length = 16)) (requests log) := by
  induction payloads generalizing e log with
  | nil =>
      obtain ⟨rfl, rfl⟩ := path_done_iff.1 h
      exact ⟨rfl, .nil⟩
  | cons payload payloads ih =>
      obtain ⟨e₁, first, rest, rfl, hfirst, hrest⟩ := path_bind_iff.1 h
      obtain ⟨peer, rfl, hchanges⟩ := (heeds_of_path hidle hfirst).changes hs ht
      obtain ⟨hpeer, hreports⟩ := ih (by exact hidle) (by exact hs) (by exact ht) hrest
      rw [requests_append]
      by_cases hlength : payload.length = 16
      · rw [if_pos hlength] at hchanges
        obtain ⟨hknown, request, hrequest, hreport⟩ := hchanges
        rw [List.filter_cons_of_pos (by simpa using hlength), hpeer, hrequest, hknown,
          List.getLast?_cons]
        refine ⟨?_, .cons hreport hreports⟩
        cases (payloads.filter (·.length = 16)).getLast? <;> rfl
      · rw [if_neg hlength] at hchanges
        obtain ⟨rfl, hnone⟩ := hchanges
        rw [List.filter_cons_of_neg (by simpa using hlength), hnone]
        exact ⟨hpeer, hreports⟩

/-- Replies to the question for the coordinator's address have just the effect they are meant to
have. However the surroundings answer, each is heeded between events; and after any sequence of them
a connected node outside testing mode has the peer that the last address among them gave, and has
sent one report for each. -/
theorem replies_heeded (hidle : e.session.work.items = []) :
    (∀ (payload : Bytes) log e', Path (e.handle (.reply .provisioning payload)) log e' →
      Heeds e payload log e') ∧
    (e.state = .connected → e.session.testing = false → ∀ (payloads : List Bytes) log e',
      Path (handleAll (payloads.map (.reply .provisioning)) e) log e' →
        e'.session.peer.map Octets.bytes =
          (payloads.filter (·.length = 16)).getLast?.or (e.session.peer.map Octets.bytes) ∧
        List.Forall₂ e.ReportsTo (payloads.filter (·.length = 16)) (requests log) ∧
        (requests log).length = payloads.countP (·.length = 16)) := by
  refine ⟨fun payload log e' h => heeds_of_path hidle h, fun hs ht payloads log e' h => ?_⟩
  obtain ⟨hpeer, hreports⟩ := path_replies hidle hs ht h
  exact ⟨hpeer, hreports, by rw [List.countP_eq_length_filter, hreports.length_eq]⟩

/-- A simulated node that is connected, and told an address, nonsense, and another address: the
second address is the peer's, and two reports were sent. -/
theorem replies_heeded_simulated :
    ∃ e, e.session.work.items = [] ∧ e.state = .connected ∧ e.session.testing = false ∧
      ∃ log e', Path (handleAll ([.replicate 16 1, [7], .replicate 16 2].map
          (.reply .provisioning)) e) log e' ∧
        e'.session.peer.map Octets.bytes = some (.replicate 16 2) ∧ (requests log).length = 2 := by
  refine ⟨((Engine.default.start >>= Engine.handleAll [.roleChanged .child]).run Host.answer
    (.initial .disabled)).1, by decide, by decide, by decide, ?_⟩
  generalize he : ((Engine.default.start >>= Engine.handleAll [.roleChanged .child]).run
    Host.answer (.initial .disabled)).1 = e
  have hidle : e.session.work.items = [] := by rw [← he]; decide
  have hs : e.state = .connected := by rw [← he]; decide
  have ht : e.session.testing = false := by rw [← he]; decide
  have hpath := path_run Host.answer (handleAll ([.replicate 16 1, [7], .replicate 16 2].map
    (.reply .provisioning)) e) (.initial .child)
  obtain ⟨hpeer, -, hlength⟩ := (replies_heeded hidle).2 hs ht _ _ _ hpath
  exact ⟨_, _, hpath, hpeer, hlength⟩

end Engine

end MeshLight
