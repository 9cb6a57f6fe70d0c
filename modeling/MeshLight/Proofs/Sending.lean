import MeshLight.Proofs.Session.Episode

/-!
# MeshLight.Proofs.Sending

Every request that the engine sends is one that the session allows at that moment (`Justified`), and
what is sent to the coordinator goes to the address that its latest reply in this episode gave
(`latestReply`). Requests are sent only by work, never while an event is applied; each event asks
for work that comes to one request at most, since a report or a notification that asks for the
coordinator's address sends nothing itself (`Engine.requestLoad`).
-/

namespace MeshLight

open Prog

/-! ## what may be sent -/

/-- The requests that a session allows: to ask for the coordinator's address, to report to the
coordinator or to notify it, and in testing mode to notify all nodes. -/
inductive Justified (e : Engine) : Request → Prop where
  | provisioning (hs : e.state = .connected) (ht : e.session.testing = false)
      (reply : Option ReplyKind) :
      Justified e ⟨.get, .multicast allNodes, "provisioning", [], reply⟩
  | status (hs : e.state = .connected) (ht : e.session.testing = false) (peer : Address)
      (hpeer : e.session.peer = some peer) (payload : Bytes) (reply : Option ReplyKind) :
      Justified e ⟨.put, .unicast peer, "status", payload, reply⟩
  | trigger (hs : e.state = .connected) (ht : e.session.testing = false) (peer : Address)
      (hpeer : e.session.peer = some peer) (payload : Bytes) (reply : Option ReplyKind) :
      Justified e ⟨.put, .unicast peer, "trigger", payload, reply⟩
  | broadcast (hs : e.state = .connected) (ht : e.session.testing = true) (payload : Bytes)
      (reply : Option ReplyKind) :
      Justified e ⟨.put, .multicast allNodes, "testing_light", payload, reply⟩

/-- What is sent to one node is sent to the peer. -/
theorem Justified.peer {e : Engine} {request : Request} {address : Address}
    (h : Justified e request) (hto : request.destination = .unicast address) :
    e.state = .connected ∧ e.session.peer = some address := by
  cases h with
  | provisioning | broadcast => cases hto
  | status hs ht peer hpeer | trigger hs ht peer hpeer =>
      cases hto
      exact ⟨hs, hpeer⟩

/-! ## the latest reply -/

/-- The bytes of a well-formed reply to the provisioning question. -/
def Event.reply? : Event → Option Bytes
  | .reply .provisioning payload => if payload.length = 16 then some payload else none
  | _ => none

/-- The well-formed reply that a turn deals with. -/
def Turn.reply? (t : Turn) : Option Bytes :=
  match t.input with
  | .start => none
  | .event event => event.reply?

instance (t : Turn) : Decidable t.connects := inferInstanceAs (Decidable (_ ∧ _))

/-- The latest well-formed reply since the episode began. -/
def latestReply (turns : List Turn) : Option Bytes :=
  (turns.reverse.takeWhile fun t => ¬t.connects).findSome? Turn.reply?

theorem latestReply_concat (turns : List Turn) (t : Turn) :
    latestReply (turns ++ [t]) =
      if t.connects then none else t.reply?.or (latestReply turns) := by
  unfold latestReply
  rw [List.reverse_concat, List.takeWhile_cons]
  by_cases h : t.connects
  · simp [h]
  · simp only [h, not_false_eq_true, decide_true, if_true, if_false, List.findSome?_cons]
    cases t.reply? <;> rfl

namespace Engine

variable {e e' : Engine} {log : List Exchange}

/-! ## requests of each piece of work -/

theorem requests_engage {b b' : PollBoost} {ms : UInt32} (h : Path (b.engage ms) log b') :
    requests log = [] := by
  obtain ⟨mode, ⟨-, -, rfl⟩ | ⟨current, answer, -, rfl, -⟩⟩ := PollBoost.path_engage h <;> rfl

/-- The question is sent once, whether or not it could be. -/
theorem requests_sendProvisioning (h : Path e.sendProvisioning log e') :
    (¬(e.state = .connected ∧ e.session.testing = false) ∧ requests log = [] ∨
      (e.state = .connected ∧ e.session.testing = false) ∧
        requests log = [Provisioning.request]) ∧ e'.session = e.session := by
  obtain ⟨hc, rfl, rfl⟩ | ⟨hc, first, boost, answer, rest, rfl, hboost, he⟩ :=
    path_sendProvisioning h
  · exact ⟨.inl ⟨hc, rfl⟩, rfl⟩
  · have hrest : requests rest = [] ∧ e'.session = e.session := by
      obtain ⟨-, rfl, rfl⟩ | ⟨-, hrestore, rfl⟩ := he
      · exact ⟨rfl, rfl⟩
      · exact ⟨requests_restore hrestore, rfl⟩
    refine ⟨.inr ⟨hc, ?_⟩, hrest.2⟩
    rw [requests_append, requests_cons, requests_engage hboost, hrest.1]
    rfl

theorem requests_beginRegistration (h : Path e.beginRegistration log e') :
    requests log = [] ∧ e'.session.work = e.session.work := by
  obtain ⟨-, rfl, rfl⟩ | ⟨-, first, r, registration, hadv, -, rfl, rfl⟩ := path_beginRegistration h
  · exact ⟨rfl, rfl⟩
  · obtain ⟨id, hprefix⟩ := path_advertise hadv
    refine ⟨?_, rfl⟩
    have hfirst : requests first = [] := by
      rw [requests_eq_nil_iff]
      intro x hx
      have hmem : x.call ∈ e.advertiseCalls id :=
        hprefix.subset (List.mem_map_of_mem hx)
      simp only [advertiseCalls, List.mem_cons, List.not_mem_nil, or_false] at hmem
      obtain hc | hc | hc | hc | hc := hmem <;> rw [hc] <;> rfl
    rw [requests_append, hfirst]
    rfl

theorem requests_sendReport {peer : Address} (h : Path (e.sendReport peer) log e') :
    e' = e ∧ ∃ id readings, requests log = [e.reportRequest peer id readings] := by
  obtain ⟨he, sampled, id, readings, answer, rest, rfl, hrest⟩ := path_sendReport h
  refine ⟨he, id, readings, ?_⟩
  obtain ⟨-, rfl⟩ | ⟨-, rfl⟩ := hrest <;> rfl

theorem requests_sendAlong {route : Route} {event : TriggerEvent}
    (h : Path (e.sendAlong route event) log e') :
    e' = e ∧ ∃ id, requests log = [triggerRequest route event id] := by
  obtain ⟨he, id, answer, rest, rfl, hrest⟩ := path_sendAlong h
  refine ⟨he, id, ?_⟩
  obtain ⟨-, rfl⟩ | ⟨-, shown, hshown, rfl⟩ := hrest
  · rfl
  · have hnone : requests shown = [] := by
      rw [hshown]
      split <;> rfl
    rw [requests_cons, requests_cons, requests_append, hnone]
    rfl

/-- The route of a notification is one that the session allows. -/
theorem justified_triggerRequest {route : Route} {event : TriggerEvent} {id : Identity}
    (hs : e.state = .connected)
    (hroute : Route.choose e.session.testing e.session.peer = .ok route) :
    Justified e (triggerRequest route event id) := by
  unfold Route.choose at hroute
  cases ht : e.session.testing with
  | true =>
      rw [ht] at hroute
      cases hroute
      exact .broadcast hs ht _ _
  | false =>
      cases hpeer : e.session.peer with
      | none => rw [ht, hpeer] at hroute; cases hroute
      | some peer =>
          rw [ht, hpeer] at hroute
          cases hroute
          exact .trigger hs ht peer hpeer _ _

/-- The most requests that a piece of work comes to, with the work that it asks for. -/
def requestsOf : Work → Nat
  | .sendProvisioning | .reportStatus | .emitTrigger _ => 1
  | _ => 0

theorem requestsOf_le_one (w : Work) : requestsOf w ≤ 1 := by
  unfold requestsOf
  split <;> decide

/-- What a piece of work comes to as far as requests go: it sends none, and at most leaves that to
the question for the coordinator's address, or it sends one that the session allows. -/
theorem requests_execute {w : Work} (h : Path (e.execute w) log e') :
    (requests log = [] ∧ (e'.session.work = e.session.work ∨
        requestsOf w = 1 ∧ e' = e.submit .sendProvisioning)) ∨
      (requestsOf w = 1 ∧ e'.session.work = e.session.work ∧
        ∃ r, requests log = [r] ∧ Justified e r) := by
  cases w with
  | sendProvisioning =>
      obtain ⟨⟨-, hlog⟩ | ⟨hc, hlog⟩, hsession⟩ := requests_sendProvisioning h
      · exact .inl ⟨hlog, .inl (by rw [hsession])⟩
      · exact .inr ⟨rfl, by rw [hsession], _, hlog, .provisioning hc.1 hc.2 _⟩
  | reportStatus =>
      obtain ⟨-, rfl, rfl⟩ | ⟨hc, ⟨-, rfl, he⟩ | ⟨peer, hpeer, hsend⟩⟩ := path_reportStatus h
      · exact .inl ⟨rfl, .inl rfl⟩
      · exact .inl ⟨rfl, .inr ⟨rfl, he⟩⟩
      · obtain ⟨rfl, id, readings, hlog⟩ := requests_sendReport hsend
        exact .inr ⟨rfl, rfl, _, hlog, .status hc.1 hc.2 peer hpeer _ _⟩
  | emitTrigger event =>
      obtain ⟨-, rfl, rfl⟩ | ⟨hs, ⟨-, -, rfl, he⟩ | ⟨route, hroute, hsend⟩⟩ := path_emitTrigger h
      · exact .inl ⟨rfl, .inl rfl⟩
      · exact .inl ⟨rfl, .inr ⟨rfl, he⟩⟩
      · obtain ⟨rfl, id, hlog⟩ := requests_sendAlong hsend
        exact .inr ⟨rfl, rfl, _, hlog, justified_triggerRequest hs hroute⟩
  | releasePollBoost =>
      obtain ⟨rfl, hrestore⟩ := path_restorePoll h
      exact .inl ⟨requests_restore hrestore, .inl rfl⟩
  | beginRegistration =>
      obtain ⟨hlog, hwork⟩ := requests_beginRegistration h
      exact .inl ⟨hlog, .inl hwork⟩
  | factoryReset graceMs =>
      obtain ⟨rfl, answer, rfl⟩ := path_factoryReset h
      exact .inl ⟨rfl, .inl rfl⟩
  | _ =>
      obtain ⟨rfl, hboard⟩ := path_execute_of_isSignal rfl h
      refine .inl ⟨requests_eq_nil_iff.2 fun x hx => ?_, .inl rfl⟩
      obtain ⟨c, hc⟩ := hboard x hx
      rw [hc]
      rfl

/-! ## at most one request -/

/-- The most requests that the waiting work comes to. -/
def requestLoad (e : Engine) : Nat := e.session.work.weigh requestsOf

theorem requestLoad_submit_le (w : Work) (e : Engine) :
    (e.submit w).requestLoad ≤ e.requestLoad + requestsOf w :=
  WorkQueue.weigh_submit_le requestsOf w e.session.work

theorem requestLoad_of_idle (h : e.session.work.items = []) : e.requestLoad = 0 :=
  WorkQueue.weigh_of_items_eq_nil requestsOf h

theorem requestLoad_congr (h : e'.session.work = e.session.work) :
    e'.requestLoad = e.requestLoad := by
  unfold requestLoad
  rw [h]

/-- Requests are sent at the cost of the load. -/
theorem length_requests_execute_le {w : Work} (h : Path (e.execute w) log e') :
    (requests log).length + e'.requestLoad ≤ e.requestLoad + requestsOf w := by
  obtain ⟨hlog, hwork | ⟨hone, rfl⟩⟩ | ⟨hone, hwork, r, hlog, -⟩ := requests_execute h
  · have hload := requestLoad_congr hwork
    rw [hlog, List.length_nil]
    omega
  · have hload := requestLoad_submit_le .sendProvisioning e
    have hone' : requestsOf .sendProvisioning = 1 := rfl
    rw [hlog, List.length_nil]
    omega
  · have hload := requestLoad_congr hwork
    rw [hlog, List.length_singleton]
    omega

theorem length_requests_drains_le {tasks : List Task} (h : Drains e tasks e') :
    (requests (tasks.flatMap Task.log)).length + e'.requestLoad ≤ e.requestLoad := by
  induction h with
  | rest hnone => simp
  | @work e e' _ task hnext hdone hrest ih =>
      have hpop : e.requestLoad = task.before.requestLoad + requestsOf task.work :=
        weigh_of_nextWork?_eq_some requestsOf hnext
      have hstep := length_requests_execute_le hdone
      rw [List.flatMap_cons, requests_append, List.length_append]
      omega

/-- Whatever the work sends, the session allows it. -/
theorem Drains.justified {tasks : List Task} (h : Drains e tasks e') :
    ∀ task ∈ tasks, ∀ request ∈ requests task.log, Justified task.before request := by
  intro task htask request hrequest
  obtain ⟨hlog, -⟩ | ⟨-, -, r, hlog, hjustified⟩ := requests_execute (h.executes task htask)
  · rw [hlog] at hrequest
    cases hrequest
  · rw [hlog, List.mem_singleton] at hrequest
    rw [hrequest]
    exact hjustified

/-! ## asking for the coordinator's address -/

/-- If the question for the coordinator's address waits, it is sent, once. -/
theorem requests_drains_sendProvisioning {tasks : List Task} (h : Drains e tasks e')
    (hitems : e.session.work.items = [.sendProvisioning]) (hs : e.state = .connected)
    (ht : e.session.testing = false) :
    requests (tasks.flatMap Task.log) = [Provisioning.request] := by
  obtain ⟨first, after, rest, rfl, hdone, hrest⟩ := h.of_items_eq_cons hitems
  obtain ⟨⟨hc, -⟩ | ⟨-, hlog⟩, hsession⟩ := requests_sendProvisioning hdone
  · exact absurd ⟨hs, ht⟩ hc
  · have hidle : after.session.work.items = [] := by rw [hsession]
    obtain ⟨rfl, -⟩ := hrest.of_idle hidle
    rw [List.flatMap_cons, requests_append, hlog]
    rfl

/-- Whether work is about the coordinator and needs its address. -/
def needsPeer : Work → Bool
  | .reportStatus | .emitTrigger _ => true
  | _ => false

/-- Work that needs the coordinator's address asks for it if it is not known. -/
theorem path_execute_of_needsPeer {w : Work} (h : Path (e.execute w) log e')
    (hw : needsPeer w = true) (hs : e.state = .connected) (ht : e.session.testing = false)
    (hpeer : e.session.peer = none) : log = [] ∧ e' = e.submit .sendProvisioning := by
  cases w with
  | reportStatus =>
      obtain ⟨hc, -⟩ | ⟨-, ⟨-, hlog, he⟩ | ⟨peer, hp, -⟩⟩ := path_reportStatus h
      · exact absurd ⟨hs, ht⟩ hc
      · exact ⟨hlog, he⟩
      · rw [hpeer] at hp
        cases hp
  | emitTrigger event =>
      obtain ⟨hc, -⟩ | ⟨-, ⟨-, -, hlog, he⟩ | ⟨route, hroute, -⟩⟩ := path_emitTrigger h
      · exact absurd hs hc
      · exact ⟨hlog, he⟩
      · rw [ht, hpeer] at hroute
        cases hroute
  | _ => cases hw

theorem requests_drains_needsPeer {tasks : List Task} {w : Work} (h : Drains e tasks e')
    (hitems : e.session.work.items = [w]) (hw : needsPeer w = true) (hs : e.state = .connected)
    (ht : e.session.testing = false) (hpeer : e.session.peer = none) :
    requests (tasks.flatMap Task.log) = [Provisioning.request] := by
  obtain ⟨first, after, rest, rfl, hdone, hrest⟩ := h.of_items_eq_cons hitems
  obtain ⟨rfl, rfl⟩ := path_execute_of_needsPeer hdone hw hs ht hpeer
  show requests (rest.flatMap Task.log) = _
  exact requests_drains_sendProvisioning hrest rfl hs ht

/-! ## what events ask for -/

/-- A connection asks for one question. -/
theorem weigh_enter_connected_le (s : Session) :
    (SessionState.connected.enter s).work.weigh requestsOf ≤
      s.work.weigh requestsOf + 1 := by
  have hindicate := WorkQueue.weigh_submit_le requestsOf .indicateConnected s.work
  have hask := WorkQueue.weigh_submit_le requestsOf .sendProvisioning
    (s.work.submit .indicateConnected).2
  have hregister := WorkQueue.weigh_submit_le requestsOf .beginRegistration
    ((s.work.submit .indicateConnected).2.submit .sendProvisioning).2
  simp only [requestsOf] at hindicate hask hregister
  simp only [SessionState.enter]
  split
  · simp only [Session.submit]
    omega
  · simp only [Session.submit]
    omega

/-- The end of a connection asks for none. -/
theorem weigh_leave_connected_le (s : Session) :
    (SessionState.connected.leave s).work.weigh requestsOf ≤
      s.work.weigh requestsOf := by
  have hindicate := WorkQueue.weigh_submit_le requestsOf .indicateDisconnected s.work
  have hrelease := WorkQueue.weigh_submit_le requestsOf .releasePollBoost
    (s.work.submit .indicateDisconnected).2
  simp only [requestsOf] at hindicate hrelease
  simp only [SessionState.leave, Session.submit, Session.endEpisode]
  omega

/-- Following the facts asks for one question at most. -/
theorem Follows.requestLoad_le (h : Follows e e') (hidle : e.session.work.items = []) :
    e'.requestLoad ≤ 1 := by
  have hfacing : e.facing.work.weigh requestsOf = 0 := requestLoad_of_idle hidle
  obtain ⟨-, hs⟩ | ⟨-, -, hs⟩ | ⟨-, -, hs⟩ := h.session
  · unfold requestLoad
    rw [hs, hfacing]
    exact Nat.zero_le 1
  · have hsum := weigh_enter_connected_le e.facing
    unfold requestLoad
    rw [hs]
    omega
  · have hsum := weigh_leave_connected_le e.facing
    unfold requestLoad
    rw [hs]
    omega

theorem Continues.requestLoad_le (h : Continues e e') (hidle : e.session.work.items = []) :
    e'.requestLoad ≤ 1 := by
  obtain hwork | ⟨w, hw, hwork⟩ := h.work
  · rw [requestLoad_congr hwork, requestLoad_of_idle hidle]
    exact Nat.zero_le 1
  · have hsubmit := requestLoad_submit_le w e
    rw [requestLoad_of_idle hidle] at hsubmit
    have hload : e'.requestLoad = (e.submit w).requestLoad := requestLoad_congr hwork
    have hone := requestsOf_le_one w
    omega

theorem requestLoad_submit_of_idle (w : Work) (hidle : e.session.work.items = []) :
    (e.submit w).requestLoad ≤ 1 := by
  have hsubmit := requestLoad_submit_le w e
  have hone := requestsOf_le_one w
  rw [requestLoad_of_idle hidle] at hsubmit
  omega

/-- No event sends a request by itself, and none asks for work that comes to more than one. -/
theorem requests_apply {event : Event} (h : Path (e.apply event) log e') (hm : e.Mirrors)
    (hidle : e.session.work.items = []) : requests log = [] ∧ e'.requestLoad ≤ 1 := by
  have hzero : e.requestLoad ≤ 1 := by
    rw [requestLoad_of_idle hidle]
    exact Nat.zero_le 1
  cases event with
  | roleChanged role =>
      obtain ⟨hlog, hfollow⟩ := path_onRole h
      exact ⟨hlog, hfollow.requestLoad_le hidle⟩
  | joinerChanged state =>
      obtain ⟨hlog, e₁, hstep, hfollow⟩ := path_onJoiner h
      exact ⟨hlog, (continues_of_joinStep hm hstep hfollow).requestLoad_le hidle⟩
  | joinRequested =>
      obtain ⟨hlog, rfl | ⟨e₁, hstep, hfollow⟩⟩ := path_requestJoin h
      · exact ⟨hlog, hzero⟩
      · exact ⟨hlog, (continues_of_joinStep hm hstep hfollow).requestLoad_le hidle⟩
  | reply kind payload =>
      cases kind with
      | provisioning =>
          obtain ⟨hlog, ⟨-, address, -, rfl⟩ | ⟨-, rfl⟩⟩ := path_onProvisioningReply h
          · exact ⟨hlog, requestLoad_submit_of_idle _ hidle⟩
          · exact ⟨hlog, hzero⟩
      | status | trigger =>
          obtain ⟨rfl, rfl⟩ := path_done_iff.1 h
          exact ⟨rfl, hzero⟩
  | replyTimedOut kind =>
      obtain ⟨hlog, rfl | ⟨-, rfl⟩⟩ := path_onReplyTimeout h <;> exact ⟨hlog, hzero⟩
  | registrationCompleted outcome =>
      obtain ⟨hlog, rfl⟩ := path_onRegistration h
      exact ⟨hlog, hzero⟩
  | commandReceived request =>
      obtain ⟨-, rfl, rfl⟩ | ⟨-, s, first, outcome, reply, hdispatched, rfl, rfl⟩ :=
        path_onCommand h
      · exact ⟨rfl, hzero⟩
      · refine ⟨?_, ?_⟩
        · rw [requests_append, requests_of_isMessage hdispatched.silent]
          rfl
        · have hidle' : s.work.items = [] := by
            rw [hdispatched.session]
            exact hidle
          cases outcome.followUp with
          | none => rw [submit?, requestLoad_of_idle hidle']; exact Nat.zero_le 1
          | some w => exact requestLoad_submit_of_idle w hidle'
  | timerFired timer =>
      obtain ⟨hlog, ⟨-, rfl⟩ | ⟨-, rfl⟩⟩ := path_onTimer h
      · exact ⟨hlog, requestLoad_submit_of_idle _ hidle⟩
      · exact ⟨hlog, hzero⟩
  | setTesting on =>
      obtain ⟨hlog, rfl | ⟨-, rfl⟩⟩ := path_setTesting h <;> exact ⟨hlog, hzero⟩
  | factoryResetRequested | reportRequested | trigger event =>
      obtain ⟨rfl, rfl⟩ := path_done_iff.1 h
      exact ⟨rfl, requestLoad_submit_of_idle _ hidle⟩

/-- A connected node that applies an event knows the peer of the latest reply. -/
theorem peer_of_apply {event : Event} (h : Path (e.apply event) log e') (hm : e.Mirrors)
    (hs : e.state = .connected) (hrole : ∀ role, event ≠ .roleChanged role) :
    e'.session.peer.map Octets.bytes = event.reply?.or (e.session.peer.map Octets.bytes) := by
  cases event with
  | roleChanged role => exact absurd rfl (hrole role)
  | joinerChanged state =>
      obtain ⟨-, e₁, hstep, hfollow⟩ := path_onJoiner h
      rw [(continues_of_joinStep hm hstep hfollow).session]
      rfl
  | joinRequested =>
      obtain ⟨-, rfl | ⟨e₁, hstep, hfollow⟩⟩ := path_requestJoin h
      · rfl
      · rw [(continues_of_joinStep hm hstep hfollow).session]
        rfl
  | reply kind payload =>
      cases kind with
      | provisioning =>
          obtain ⟨-, ⟨-, address, haddress, rfl⟩ | ⟨hnot, rfl⟩⟩ := path_onProvisioningReply h
          · unfold Octets.ofBytes? at haddress
            split at haddress
            · next hlength =>
                cases haddress
                simp [Event.reply?, hlength, submit, Session.submit]
            · cases haddress
          · have hlength : payload.length ≠ 16 := by
              intro hlength
              exact hnot ⟨hs, by simp [Octets.ofBytes?, hlength]⟩
            simp [Event.reply?, hlength]
      | status | trigger =>
          obtain ⟨-, rfl⟩ := path_done_iff.1 h
          rfl
  | replyTimedOut kind =>
      obtain ⟨-, rfl | ⟨-, rfl⟩⟩ := path_onReplyTimeout h <;> rfl
  | registrationCompleted outcome =>
      obtain ⟨-, rfl⟩ := path_onRegistration h
      rfl
  | commandReceived request =>
      obtain ⟨-, -, rfl⟩ | ⟨-, s, first, outcome, reply, hdispatched, -, rfl⟩ := path_onCommand h
      · rfl
      · rw [hdispatched.session]
        cases outcome.followUp <;> rfl
  | timerFired timer =>
      obtain ⟨-, ⟨-, rfl⟩ | ⟨-, rfl⟩⟩ := path_onTimer h <;> rfl
  | setTesting on =>
      obtain ⟨-, rfl | ⟨-, rfl⟩⟩ := path_setTesting h <;> rfl
  | factoryResetRequested | reportRequested | trigger event =>
      obtain ⟨-, rfl⟩ := path_done_iff.1 h
      rfl

end Engine

/-! ## turns -/

variable {turns : List Turn} {t : Turn}

theorem AtRest.requests_opening (h : AtRest turns t.before) (ht : t.Happens)
    (hstart : t.input = .start → t.before.state ≠ .connected) :
    requests t.opening = [] ∧ t.applied.requestLoad ≤ 1 := by
  have hreceives := ht.receives
  cases hinput : t.input with
  | start =>
      rw [hinput] at hreceives
      obtain ⟨hlog, role, rest, -, hcases⟩ := Engine.path_startUp (hstart hinput) hreceives
      refine ⟨hlog, ?_⟩
      obtain ⟨-, hfollow⟩ | ⟨-, happlied | ⟨e₁, hstep, hfollow⟩⟩ := hcases
      · exact hfollow.requestLoad_le h.idle
      · rw [happlied, Engine.requestLoad_of_idle h.idle]
        exact Nat.zero_le 1
      · exact (Engine.continues_of_joinStep h.mirrors hstep hfollow).requestLoad_le h.idle
  | event event =>
      rw [hinput] at hreceives
      exact Engine.requests_apply hreceives h.mirrors h.idle

/-- While the session is connected, the peer is the one of the latest reply. -/
def Knows (turns : List Turn) (e : Engine) : Prop :=
  e.state = .connected → e.session.peer.map Octets.bytes = latestReply turns

theorem AtRest.knows_applied (h : AtRest turns t.before) (hknows : Knows turns t.before)
    (ht : t.Happens) (hstart : t.input = .start → t.before.state ≠ .connected) :
    Knows (turns ++ [t]) t.applied := by
  intro hs
  rw [latestReply_concat]
  by_cases hbefore : t.before.state = .connected
  · rw [if_neg fun hconnects => hconnects.1 hbefore, ← hknows hbefore]
    have hreceives := ht.receives
    unfold Turn.reply?
    cases hinput : t.input with
    | start => exact absurd hbefore (hstart hinput)
    | event event =>
        rw [hinput] at hreceives
        by_cases hrole : ∃ role, event = .roleChanged role
        · obtain ⟨role, rfl⟩ := hrole
          have hfollow := (Engine.path_onRole hreceives).2
          obtain ⟨-, hsession⟩ | ⟨hne, -⟩ | ⟨-, ha, -⟩ := hfollow.session
          · rw [hsession]
            rfl
          · exact absurd hbefore hne
          · rw [hfollow.mirrors.connected_iff, hfollow.attached, ha] at hs
            cases hs
        · exact Engine.peer_of_apply hreceives h.mirrors hbefore fun role hr => hrole ⟨role, hr⟩
  · have hconnects : t.connects := ⟨hbefore, by rw [ht.drains.sameFacts.1.state, hs]⟩
    rw [if_pos hconnects, (h.connects ht hstart hconnects).1]
    rfl

theorem Knows.of_sameFacts {e e' : Engine} (h : Knows turns e) (hsame : Engine.SameFacts e e') :
    Knows turns e' := by
  intro hs
  rw [hsame.state] at hs
  rw [hsame.peer]
  exact h hs

theorem Run.knows {config : Config} {e : Engine} (run : Run config turns e) : Knows turns e := by
  induction run with
  | start t hnew hinput ht =>
      have hs := Engine.state_new hnew
      have happlied := (atRest_new hnew).knows_applied (fun h => absurd h hs) ht fun _ => hs
      exact happlied.of_sameFacts ht.drains.sameFacts.1
  | handle t event run hinput ht ih =>
      have happlied := run.atRest.1.knows_applied ih ht
        fun hstart => absurd hstart (Turn.ne_start_of_event hinput)
      exact happlied.of_sameFacts ht.drains.sameFacts.1

/-! ## every request -/

/-- Whether an event is about the coordinator and needs its address. -/
def Event.needsPeer : Event → Bool
  | .reportRequested | .timerFired .report | .trigger _ => true
  | _ => false

/-- An event that needs the coordinator's address asks for work that does. -/
theorem Engine.work_of_needsPeer {event : Event} {e e' : Engine} {log : List Exchange}
    (h : Path (e.apply event) log e') (hneeds : event.needsPeer = true) :
    ∃ w, Engine.needsPeer w = true ∧ e' = e.submit w := by
  cases event with
  | timerFired timer =>
      obtain ⟨-, ⟨-, rfl⟩ | ⟨⟨group, rfl⟩, -⟩⟩ := path_onTimer h
      · exact ⟨_, rfl, rfl⟩
      · cases hneeds
  | reportRequested | trigger event =>
      obtain ⟨-, rfl⟩ := path_done_iff.1 h
      exact ⟨_, rfl, rfl⟩
  | _ => cases hneeds

/-- An event that needs the coordinator's address leads to one request if that is not known: the
question for it. -/
theorem AtRest.requests_of_needsPeer {event : Event} (h : AtRest turns t.before) (ht : t.Happens)
    (hinput : t.input = .event event) (hneeds : event.needsPeer = true)
    (hs : t.before.state = .connected) (htesting : t.before.session.testing = false)
    (hpeer : t.before.session.peer = none) : requests t.log = [Provisioning.request] := by
  have hreceives := ht.receives
  rw [hinput] at hreceives
  obtain ⟨hopening, -⟩ := Engine.requests_apply hreceives h.mirrors h.idle
  obtain ⟨w, hw, happlied⟩ := Engine.work_of_needsPeer hreceives hneeds
  have hitems : t.applied.session.work.items = [w] := by
    rw [happlied]
    exact Engine.items_submit_of_idle w h.idle
  have hsame : Engine.SameFacts t.before t.applied := by
    rw [happlied]
    exact Engine.sameFacts_submit w t.before
  unfold Turn.log
  rw [requests_append, hopening, List.nil_append]
  refine Engine.requests_drains_needsPeer ht.drains hitems hw ?_ ?_ ?_
  · rw [hsame.state, hs]
  · rw [hsame.testing, htesting]
  · rw [hsame.peer, hpeer]

/-- Every request is one that the session allows when it is sent, and a request to a single node
goes to the address that the latest well-formed reply of this episode gave. A turn sends one request
at most; a report or a notification outside testing mode that lacks the coordinator's address sends
one, the question for it. -/
theorem Run.requests_justified {config : Config} {past : List Turn} {e : Engine}
    (run : Run config (past ++ [t]) e) :
    requests t.opening = [] ∧
    (∀ task ∈ t.tasks, ∀ request ∈ requests task.log, Justified task.before request ∧
      ∀ address, request.destination = .unicast address →
        latestReply (past ++ [t]) = some address.bytes) ∧
    (requests t.log).length ≤ 1 ∧
    ∀ event, t.input = .event event → event.needsPeer = true → t.before.state = .connected →
      t.before.session.testing = false → t.before.session.peer = none →
      requests t.log = [Provisioning.request] := by
  obtain ⟨ht, rfl, hfirst⟩ := run.last
  have hbefore : AtRest past t.before ∧ Knows past t.before ∧
      (t.input = .start → t.before.state ≠ .connected) := by
    obtain ⟨rfl, hnew, hinput⟩ | ⟨hrun, event, hinput⟩ := hfirst
    · have hs := Engine.state_new hnew
      exact ⟨atRest_new hnew, fun h => absurd h hs, fun _ => hs⟩
    · exact ⟨hrun.atRest.1, hrun.knows, fun hstart => by rw [hinput] at hstart; cases hstart⟩
  obtain ⟨hrest, hknows, hstart⟩ := hbefore
  obtain ⟨hopening, hload⟩ := hrest.requests_opening ht hstart
  refine ⟨hopening, ?_, ?_, ?_⟩
  · intro task htask request hrequest
    have hjustified := ht.drains.justified task htask request hrequest
    refine ⟨hjustified, fun address hto => ?_⟩
    have hknown := (hrest.knows_applied hknows ht hstart).of_sameFacts
      (ht.drains.sameFacts.2 task htask)
    obtain ⟨hs, hpeer⟩ := hjustified.peer hto
    rw [← hknown hs, hpeer]
    rfl
  · have hdrained := Engine.length_requests_drains_le ht.drains
    unfold Turn.log
    rw [requests_append, hopening, List.nil_append]
    omega
  · intro event hinput hneeds hs htesting hpeer
    exact hrest.requests_of_needsPeer ht hinput hneeds hs htesting hpeer

/-- A simulated node that is to report before it knows the coordinator. -/
theorem Run.requests_justified_simulated :
    ∃ past t e, Run .default (past ++ [t]) e ∧ t.input = .event .reportRequested ∧
      t.before.state = .connected ∧ requests t.opening = [] ∧
      requests t.log = [Provisioning.request] := by
  obtain ⟨past, run, -, -⟩ := exists_run_of_answer Engine.new_default [.roleChanged .child]
    Host.answer (.initial .disabled)
  obtain ⟨t, run', hinput, hbefore, -⟩ := run.exists_handle .reportRequested Host.answer
    (.initial .child)
  have hknown : t.before.state = .connected ∧ t.before.session.testing = false ∧
      t.before.session.peer = none := by
    rw [hbefore]
    decide
  obtain ⟨hs, htesting, hpeer⟩ := hknown
  obtain ⟨hopening, -, -, hasks⟩ := run'.requests_justified
  exact ⟨past, t, _, run', hinput, hs, hopening, hasks _ hinput rfl hs htesting hpeer⟩

end MeshLight
