import MeshLight.Node
import MeshLight.Proofs.Engine.Event

/-!
# MeshLight.Proofs.Session.Episode

An episode is the time that the session spends connected. Between turns the session is connected
exactly if the role learned last is an attached one, and outside episodes nothing is left of what
was learned in one: no peer, no progress of the registration, no testing mode and no boost. So each
episode begins as the first one of a new engine does.

During a turn less holds: when the connection is lost, the boost is released only by work that then
waits, and until that is done the boost may still be held (`Engine.Away`).
-/

namespace MeshLight

open Prog

/-! ## roles -/

/-- The role that a question was answered with. -/
def Exchange.role? : Exchange → Option Role
  | ⟨.mesh .role, role⟩ => some role
  | _ => none

/-- The role that is learned in a turn: by an event that tells it, or by asking at the start. -/
def Turn.role? (t : Turn) : Option Role :=
  match t.input with
  | .start => t.opening.findSome? Exchange.role?
  | .event (.roleChanged role) => some role
  | .event _ => none

/-- The role learned last. -/
def lastRole (turns : List Turn) : Option Role := turns.reverse.findSome? Turn.role?

theorem lastRole_concat (turns : List Turn) (t : Turn) :
    lastRole (turns ++ [t]) = t.role?.or (lastRole turns) := by
  unfold lastRole
  rw [List.reverse_concat, List.findSome?_cons]
  cases t.role? <;> rfl

/-! ## work that waits -/

namespace WorkQueue

theorem mem_of_mem_submit {v w : Work} {q : WorkQueue} (h : v ∈ (q.submit w).2.items) :
    v ∈ q.items ∨ v = w := by
  unfold submit at h
  split at h
  · exact .inl h
  · split at h
    · simpa using h
    · exact .inl h

theorem mem_submit_of_mem {v : Work} (w : Work) {q : WorkQueue} (h : v ∈ q.items) :
    v ∈ (q.submit w).2.items := by
  unfold submit
  split
  · exact h
  · split
    · exact List.mem_append_left _ h
    · exact h

end WorkQueue

namespace Engine

variable {e e' : Engine} {log : List Exchange}

/-! ## away from the network -/

/-- What is known while the session is not connected. A boost that is still held is about to be
released, and no registration is about to begin. -/
structure Away (e : Engine) : Prop where
  peer : e.session.peer = none
  registration : e.session.registration = .initial
  testing : e.session.testing = false
  boost : e.boost = .none ∨ .releasePollBoost ∈ e.session.work.items
  work : .beginRegistration ∉ e.session.work.items

theorem Away.submit {w : Work} (h : e.Away) (hw : w ≠ .beginRegistration) :
    (e.submit w).Away where
  peer := h.peer
  registration := h.registration
  testing := h.testing
  boost := h.boost.imp_right (WorkQueue.mem_submit_of_mem w)
  work hmem := by
    obtain hmem | hmem := WorkQueue.mem_of_mem_submit hmem
    · exact h.work hmem
    · exact hw hmem.symm

theorem Away.submit? {work : Option Work} (h : e.Away)
    (hw : ∀ w ∈ work, w.isMaintenance = true) : (Engine.submit? work e).Away := by
  cases work with
  | none => exact h
  | some w =>
      refine h.submit ?_
      intro hbegin
      subst hbegin
      cases hw _ rfl

/-- With no work left, what is known is what a new engine knows. -/
theorem Away.session_eq (h : e.Away) (hidle : e.session.work.items = [])
    (hattached : e.session.attached = false) :
    e.session = { Session.initial e.session.interval with joinActive := e.session.joinActive } := by
  obtain ⟨config, machine, ⟨attached, joinActive, peer, registration, interval, testing, ⟨items⟩⟩,
    join, boost⟩ := e
  obtain ⟨rfl, rfl, rfl, -, -⟩ := h
  cases hidle
  cases hattached
  rfl

/-- With no work left, no boost is held. -/
theorem Away.boost_eq (h : e.Away) (hidle : e.session.work.items = []) : e.boost = .none := by
  obtain hboost | hmem := h.boost
  · exact hboost
  · rw [hidle] at hmem
    cases hmem

/-- Joining in progress makes no difference. -/
theorem Away.of_continues (h : e.Away) (hidle : e.session.work.items = [])
    (hcont : Continues e e') : e'.Away where
  peer := by rw [hcont.session]; exact h.peer
  registration := by rw [hcont.session]; exact h.registration
  testing := by rw [hcont.session]; exact h.testing
  boost := .inl (hcont.boost.trans (h.boost_eq hidle))
  work hmem := by
    obtain hwork | ⟨w, hw, hwork⟩ := hcont.work
    · rw [hwork] at hmem
      exact h.work hmem
    · rw [hwork] at hmem
      obtain hmem | rfl := WorkQueue.mem_of_mem_submit hmem
      · exact h.work hmem
      · cases hw

/-! ## doing the work -/

/-- Taking work other than the release of the boost. -/
theorem Away.of_nextWork? {w : Work} (h : e.Away) (hnext : e.nextWork? = some (w, e'))
    (hw : w ≠ .releasePollBoost) : e'.Away := by
  obtain ⟨rest, hitems, rfl⟩ := nextWork?_eq_some_iff.1 hnext
  obtain ⟨hpeer, hregistration, htesting, hboost, hwork⟩ := h
  rw [hitems] at hboost hwork
  refine ⟨hpeer, hregistration, htesting, hboost.imp_right fun hmem => ?_, fun hmem => ?_⟩
  · exact (List.mem_cons.1 hmem).resolve_left hw.symm
  · exact hwork (List.mem_cons_of_mem w hmem)

/-- Work done while not connected leaves nothing behind that a connection would have to be there
for. -/
theorem Away.of_execute {w : Work} {before : Engine} (h : e.Away) (hs : e.state ≠ .connected)
    (hnext : e.nextWork? = some (w, before)) (hdone : Path (before.execute w) log e') :
    e'.Away := by
  obtain ⟨rest, hitems, hbefore⟩ := nextWork?_eq_some_iff.1 hnext
  have hs' : before.state ≠ .connected := by rw [hbefore]; exact hs
  cases w with
  | releasePollBoost =>
      obtain ⟨rfl, -⟩ := path_restorePoll hdone
      have hwork := h.work
      rw [hitems] at hwork
      rw [hbefore]
      exact ⟨h.peer, h.registration, h.testing, .inl rfl,
        fun hmem => hwork (List.mem_cons_of_mem _ hmem)⟩
  | beginRegistration =>
      have hwork := h.work
      rw [hitems] at hwork
      exact absurd (List.mem_cons_self ..) hwork
  | sendProvisioning =>
      obtain ⟨-, -, rfl⟩ | ⟨hc, -⟩ := path_sendProvisioning hdone
      · exact h.of_nextWork? hnext nofun
      · exact absurd hc.1 hs'
  | reportStatus =>
      obtain ⟨-, -, rfl⟩ | ⟨hc, -⟩ := path_reportStatus hdone
      · exact h.of_nextWork? hnext nofun
      · exact absurd hc.1 hs'
  | emitTrigger event =>
      obtain ⟨-, -, rfl⟩ | ⟨hc, -⟩ := path_emitTrigger hdone
      · exact h.of_nextWork? hnext nofun
      · exact absurd hc hs'
  | factoryReset graceMs =>
      obtain ⟨rfl, -⟩ := path_factoryReset hdone
      obtain ⟨hpeer, hregistration, htesting, hboost, hwork⟩ := h.of_nextWork? hnext nofun
      exact ⟨hpeer, hregistration, htesting, hboost, hwork⟩
  | _ =>
      obtain ⟨rfl, -⟩ := path_execute_of_isSignal rfl hdone
      exact h.of_nextWork? hnext nofun

theorem Away.of_drains {tasks : List Task} (h : e.Away) (hs : e.state ≠ .connected)
    (hdrains : Drains e tasks e') : e'.Away := by
  induction hdrains with
  | rest hnone => exact h
  | @work e _ _ task hnext hdone hrest ih =>
      have hpop : task.before.state = e.state := by
        obtain ⟨rest, -, hbefore⟩ := nextWork?_eq_some_iff.1 hnext
        rw [hbefore]
        rfl
      refine ih (h.of_execute hs hnext hdone) ?_
      rw [(path_execute hdone).1.state, hpop]
      exact hs

/-! ## applying events -/

/-- An event that is no change of role teaches a node nothing that is not connected. -/
theorem Away.of_apply {event : Event} (h : e.Away) (hidle : e.session.work.items = [])
    (hm : e.Mirrors) (hs : e.state ≠ .connected) (hrole : ∀ role, event ≠ .roleChanged role)
    (hpath : Path (e.apply event) log e') : e'.Away := by
  cases event with
  | roleChanged role => exact absurd rfl (hrole role)
  | joinerChanged state =>
      obtain ⟨-, e₁, hstep, hfollow⟩ := path_onJoiner hpath
      exact h.of_continues hidle (continues_of_joinStep hm hstep hfollow)
  | joinRequested =>
      obtain ⟨-, rfl | ⟨e₁, hstep, hfollow⟩⟩ := path_requestJoin hpath
      · exact h
      · exact h.of_continues hidle (continues_of_joinStep hm hstep hfollow)
  | reply kind payload =>
      cases kind with
      | provisioning =>
          obtain ⟨-, ⟨hc, -⟩ | ⟨-, rfl⟩⟩ := path_onProvisioningReply hpath
          · exact absurd hc hs
          · exact ⟨h.peer, h.registration, h.testing, .inl rfl, h.work⟩
      | status | trigger =>
          obtain ⟨-, rfl⟩ := path_done_iff.1 hpath
          exact h
  | replyTimedOut kind =>
      obtain ⟨-, rfl | ⟨-, rfl⟩⟩ := path_onReplyTimeout hpath
      · exact h
      · exact ⟨h.peer, h.registration, h.testing, .inl rfl, h.work⟩
  | registrationCompleted outcome =>
      obtain ⟨-, rfl⟩ := path_onRegistration hpath
      have hstate : e.session.registration.state ≠ .inProgress := by rw [h.registration]; decide
      rw [Registration.apply_of_state_ne hstate]
      exact ⟨h.peer, h.registration, h.testing, h.boost, h.work⟩
  | commandReceived request =>
      obtain ⟨-, -, rfl⟩ | ⟨-, s, first, outcome, reply, hdispatched, -, rfl⟩ :=
        path_onCommand hpath
      · exact h
      · have haway : Engine.Away { e with session := s } := by
          rw [hdispatched.session]
          exact ⟨h.peer, h.registration, h.testing, h.boost, h.work⟩
        exact haway.submit? hdispatched.followUp
  | timerFired timer =>
      obtain ⟨-, ⟨-, rfl⟩ | ⟨-, rfl⟩⟩ := path_onTimer hpath
      · exact h.submit nofun
      · exact h
  | setTesting on =>
      obtain ⟨-, rfl | ⟨hon, rfl⟩⟩ := path_setTesting hpath
      · exact h
      · cases on with
        | true => exact absurd (hon rfl) hs
        | false => exact ⟨h.peer, h.registration, rfl, h.boost, h.work⟩
  | factoryResetRequested | reportRequested | trigger event =>
      obtain ⟨-, rfl⟩ := path_done_iff.1 hpath
      exact h.submit nofun

/-- Losing the connection forgets what was learned in it. -/
theorem Away.of_leave (hidle : e.session.work.items = [])
    (hsession : e'.session = SessionState.connected.leave e.facing) : e'.Away := by
  have hitems : e'.session.work.items = [.indicateDisconnected, .releasePollBoost] := by
    rw [hsession]
    simp [SessionState.leave, Session.submit, Session.endEpisode, facing, WorkQueue.submit, hidle,
      WorkQueue.capacity, Work.merges]
  refine ⟨?_, ?_, ?_, ?_, ?_⟩
  · rw [hsession]; rfl
  · rw [hsession]; rfl
  · rw [hsession]; rfl
  · rw [hitems]; exact .inr (by simp)
  · rw [hitems]; simp

/-- A change of role that leaves the session unconnected. -/
theorem Away.of_follows {role : Role} (h : e.state ≠ .connected → e.Away)
    (hidle : e.session.work.items = []) (hfollow : Follows (e.told role) e')
    (hs : e'.state ≠ .connected) : e'.Away := by
  have ha : (e.told role).session.attached = false := by
    rw [Ne, hfollow.mirrors.connected_iff, hfollow.attached] at hs
    exact Bool.eq_false_iff.2 hs
  obtain ⟨hstay, hsession⟩ | ⟨-, ha', -⟩ | ⟨-, -, hsession⟩ := hfollow.session
  · have hbefore : e.state ≠ .connected := by
      intro hc
      rw [hstay.1 hc] at ha
      cases ha
    obtain ⟨hpeer, hregistration, htesting, hboost, hwork⟩ := h hbefore
    refine ⟨?_, ?_, ?_, ?_, ?_⟩
    · rw [hsession]; exact hpeer
    · rw [hsession]; exact hregistration
    · rw [hsession]; exact htesting
    · rw [hsession, hfollow.boost]; exact hboost
    · rw [hsession]; exact hwork
  · rw [ha] at ha'
    cases ha'
  · exact Away.of_leave (e := e.told role) hidle hsession

end Engine

/-! ## between turns -/

/-- What holds of an engine after the given turns, when no work waits. -/
structure AtRest (turns : List Turn) (e : Engine) : Prop where
  idle : e.session.work.items = []
  mirrors : e.Mirrors
  away : e.state ≠ .connected → e.Away
  attached : e.session.attached = (lastRole turns).any Role.isAttached

/-- A new engine, for a configuration without defect. -/
theorem Engine.eq_of_new {config : Config} {e : Engine} (h : Engine.new config = .ok e) :
    config.defect? = none ∧ ∃ interval, e = {
      config := config
      machine := .initial .disconnected
      session := .initial interval
      join := .initial config.commissioningTimeoutSecs.toNat config.maxJoinAttempts.toNat
      boost := .none } := by
  unfold Engine.new at h
  cases hvalid : config.validate with
  | error defect => rw [hvalid] at h; cases h
  | ok config' =>
      obtain ⟨hdefect, rfl⟩ := Config.validate_eq_ok_iff.1 hvalid
      rw [hvalid] at h
      cases hsecs : ReportInterval.ofSecs? config'.reportIntervalSecs with
      | none => simp [hsecs, Bind.bind, Except.bind] at h
      | some interval =>
          simp only [hsecs, Bind.bind, Except.bind] at h
          cases h
          exact ⟨hdefect, interval, rfl⟩

theorem Engine.new_eq_ok {config : Config} {e : Engine} (h : Engine.new config = .ok e) :
    ∃ interval, e.machine = .initial .disconnected ∧ e.session = .initial interval ∧
      e.boost = .none := by
  obtain ⟨-, interval, rfl⟩ := Engine.eq_of_new h
  exact ⟨interval, rfl, rfl, rfl⟩

/-- A new engine rests before the first turn. -/
theorem atRest_new {config : Config} {e : Engine} (h : Engine.new config = .ok e) :
    AtRest [] e := by
  obtain ⟨interval, hmachine, hsession, hboost⟩ := Engine.new_eq_ok h
  refine ⟨?_, ?_, fun _ => ⟨?_, ?_, ?_, .inl hboost, ?_⟩, ?_⟩
  · rw [hsession]; rfl
  · unfold Engine.Mirrors Engine.state
    rw [hmachine, hsession]
    rfl
  · rw [hsession]; rfl
  · rw [hsession]; rfl
  · rw [hsession]; rfl
  · rw [hsession]; exact List.not_mem_nil
  · rw [hsession]; rfl

variable {turns : List Turn} {t : Turn}

/-- A turn learns a role and follows it, or leaves the session connected or not, as it was. -/
theorem AtRest.receive_cases (h : AtRest turns t.before) (ht : t.Happens)
    (hstart : t.input = .start → t.before.state ≠ .connected) :
    (∃ role, t.role? = some role ∧ Engine.Follows (t.before.told role) t.applied) ∨
      (Engine.KeepsStanding t.before t.applied ∧
        (t.before.state ≠ .connected → t.applied.Away) ∧
        t.before.session.attached = (t.role?.or (lastRole turns)).any Role.isAttached) := by
  have hreceives := ht.receives
  cases hinput : t.input with
  | start =>
      have hs := hstart hinput
      rw [hinput] at hreceives
      obtain ⟨-, role, rest, hlog, hcases⟩ := Engine.path_startUp hs hreceives
      have hrole : t.role? = some role := by
        unfold Turn.role?
        rw [hinput, hlog]
        rfl
      obtain ⟨-, hfollow⟩ | ⟨ha, hjoin⟩ := hcases
      · exact .inl ⟨role, hrole, hfollow⟩
      · have hattached : t.before.session.attached = (t.role?.or (lastRole turns)).any
            Role.isAttached := by
          have hdetached := mt h.mirrors.connected_iff.2 hs
          rw [hrole, Bool.eq_false_iff.2 hdetached]
          exact ha.symm
        obtain happlied | ⟨e₁, hstep, hfollow⟩ := hjoin
        · rw [happlied]
          exact .inr ⟨.refl h.mirrors, h.away, hattached⟩
        · have hcont := Engine.continues_of_joinStep h.mirrors hstep hfollow
          exact .inr ⟨hcont.keepsStanding, fun hs => (h.away hs).of_continues h.idle hcont,
            hattached⟩
  | event event =>
      rw [hinput] at hreceives
      by_cases hrole : ∃ role, event = .roleChanged role
      · obtain ⟨role, rfl⟩ := hrole
        refine .inl ⟨role, ?_, (Engine.path_onRole hreceives).2⟩
        unfold Turn.role?
        rw [hinput]
      · have hrole' : ∀ role, event ≠ .roleChanged role := fun role hr => hrole ⟨role, hr⟩
        have hnone : t.role? = none := by
          unfold Turn.role?
          rw [hinput]
          cases event with
          | roleChanged role => exact absurd rfl (hrole' role)
          | _ => rfl
        refine .inr ⟨Engine.keepsStanding_of_path_apply h.mirrors hrole' hreceives, ?_, ?_⟩
        · exact fun hs => (h.away hs).of_apply h.idle h.mirrors hs hrole' hreceives
        · rw [hnone]
          exact h.attached

/-- A turn ends at rest if it began so. -/
theorem AtRest.turn (h : AtRest turns t.before) (ht : t.Happens)
    (hstart : t.input = .start → t.before.state ≠ .connected) :
    AtRest (turns ++ [t]) t.after := by
  have happlied : t.applied.Mirrors ∧ (t.applied.state ≠ .connected → t.applied.Away) ∧
      t.applied.session.attached = (lastRole (turns ++ [t])).any Role.isAttached := by
    rw [lastRole_concat]
    obtain ⟨role, hrole, hfollow⟩ | ⟨hkeeps, haway, hattached⟩ := h.receive_cases ht hstart
    · refine ⟨hfollow.mirrors, Engine.Away.of_follows h.away h.idle hfollow, ?_⟩
      rw [hfollow.attached, hrole]
      rfl
    · refine ⟨hkeeps.mirrors, fun hs => haway (mt hkeeps.connected.2 hs), ?_⟩
      rw [hkeeps.attached, hattached]
  obtain ⟨hmirrors, haway, hattached⟩ := happlied
  have hsame := ht.drains.sameFacts.1
  refine ⟨Engine.nextWork?_eq_none_iff.1 ht.drains.nextWork?_eq_none, hmirrors.of_sameFacts hsame,
    fun hs => ?_, by rw [hsame.attached, hattached]⟩
  rw [hsame.state] at hs
  exact (haway hs).of_drains hs ht.drains

theorem Engine.state_new {config : Config} {e : Engine} (h : Engine.new config = .ok e) :
    e.state ≠ .connected := by
  obtain ⟨interval, hmachine, -, -⟩ := Engine.new_eq_ok h
  unfold Engine.state
  rw [hmachine]
  nofun

/-- The engine rests after a run, and before each turn of it. -/
theorem Run.atRest {config : Config} {e : Engine} (run : Run config turns e) :
    AtRest turns e ∧ ∀ t ∈ turns, t.Happens ∧ (t.input = .start → t.before.state ≠ .connected) ∧
      ∃ past, AtRest past t.before := by
  induction run with
  | start t hnew hinput ht =>
      have hstart : t.input = .start → t.before.state ≠ .connected :=
        fun _ => Engine.state_new hnew
      refine ⟨(atRest_new hnew).turn ht hstart, fun t' ht' => ?_⟩
      rw [List.mem_singleton.1 ht']
      exact ⟨ht, hstart, [], atRest_new hnew⟩
  | @handle turns t event run hinput ht ih =>
      have hstart : t.input = .start → t.before.state ≠ .connected :=
        fun hstart => absurd hstart (Turn.ne_start_of_event hinput)
      refine ⟨ih.1.turn ht hstart, fun t' ht' => ?_⟩
      obtain hmem | hmem := List.mem_append.1 ht'
      · exact ih.2 t' hmem
      · rw [List.mem_singleton.1 hmem]
        exact ⟨ht, hstart, turns, ih.1⟩

/-- A run keeps the configuration that it began with. -/
theorem Run.config_eq {config : Config} {e : Engine} (run : Run config turns e) :
    e.config = config ∧ ∀ t ∈ turns, t.before.config = config := by
  induction run with
  | start t hnew hinput ht =>
      obtain ⟨-, interval, hbefore⟩ := Engine.eq_of_new hnew
      have hconfig : t.before.config = config := by rw [hbefore]
      refine ⟨(ht.config fun _ => Engine.state_new hnew).trans hconfig, fun t' ht' => ?_⟩
      rw [List.mem_singleton.1 ht', hconfig]
  | handle t event run hinput ht ih =>
      have hstart : t.input = .start → t.before.state ≠ .connected :=
        fun hstart => absurd hstart (Turn.ne_start_of_event hinput)
      refine ⟨(ht.config hstart).trans ih.1, fun t' ht' => ?_⟩
      obtain hmem | hmem := List.mem_append.1 ht'
      · exact ih.2 t' hmem
      · rw [List.mem_singleton.1 hmem, ih.1]

/-! ## episodes -/

/-- Whether a turn begins an episode. -/
def Turn.connects (t : Turn) : Prop := t.before.state ≠ .connected ∧ t.after.state = .connected

/-- Only the start and a change of the role can begin an episode. -/
theorem AtRest.input_of_connects (h : AtRest turns t.before) (ht : t.Happens)
    (hconnects : t.connects) : t.input = .start ∨ ∃ role, t.input = .event (.roleChanged role) := by
  obtain ⟨hbefore, hafter⟩ := hconnects
  rw [ht.drains.sameFacts.1.state] at hafter
  have hreceives := ht.receives
  cases hinput : t.input with
  | start => exact .inl rfl
  | event event =>
      rw [hinput] at hreceives
      by_cases hrole : ∃ role, event = .roleChanged role
      · obtain ⟨role, rfl⟩ := hrole
        exact .inr ⟨role, rfl⟩
      · have hkeeps := Engine.keepsStanding_of_path_apply h.mirrors
          (fun role hr => hrole ⟨role, hr⟩) hreceives
        exact absurd (hkeeps.connected.1 hafter) hbefore

/-- When an episode begins, and before the first work of it, the session is that of a new engine
which gets its first connection. -/
theorem AtRest.connects (h : AtRest turns t.before) (ht : t.Happens)
    (hstart : t.input = .start → t.before.state ≠ .connected) (hconnects : t.connects) :
    t.applied.session = SessionState.connected.enter { Session.initial t.before.session.interval
      with attached := true, joinActive := t.applied.join.isJoining } ∧
      t.applied.boost = .none := by
  obtain ⟨hbefore, hafter⟩ := hconnects
  rw [ht.drains.sameFacts.1.state] at hafter
  have haway := h.away hbefore
  have hdetached : t.before.session.attached = false :=
    Bool.eq_false_iff.2 (mt h.mirrors.connected_iff.2 hbefore)
  obtain ⟨role, -, hfollow⟩ | ⟨hkeeps, -⟩ := h.receive_cases ht hstart
  · have ha : (t.before.told role).session.attached = true := by
      rw [← hfollow.attached]
      exact hfollow.mirrors.connected_iff.1 hafter
    refine ⟨?_, hfollow.boost.trans (haway.boost_eq h.idle)⟩
    obtain ⟨hstay, -⟩ | ⟨-, -, hsession⟩ | ⟨hs, -⟩ := hfollow.session
    · exact absurd (hstay.2 ha) hbefore
    · have hfacing : (t.before.told role).facing =
          { Session.initial t.before.session.interval with
            attached := true, joinActive := t.applied.join.isJoining } := by
        rw [hfollow.join]
        show { t.before.session with
          attached := role.isAttached, joinActive := (t.before.told role).join.isJoining } = _
        rw [show role.isAttached = true from ha, haway.session_eq h.idle hdetached]
        rfl
      rw [hsession, hfacing]
    · exact absurd hs hbefore
  · exact absurd (hkeeps.connected.1 hafter) hbefore

/-- The session mirrors the role learned last, and what is learned in an episode ends with it.
However the surroundings answer, between turns the session is connected exactly if the role learned
last is an attached one; while it is not, there is no peer, no registration that was begun or
succeeded, no testing mode and no boost; and each episode begins as the first one of a new engine
does. -/
theorem Run.mirrors_role_and_forgets {config : Config} {turns : List Turn} {e : Engine}
    (run : Run config turns e) :
    (e.state = .connected ↔ ∃ role, lastRole turns = some role ∧ role.isAttached = true) ∧
    (e.state ≠ .connected → e.session.peer = none ∧ e.session.registration = .initial ∧
      e.session.testing = false ∧ e.boost.isHeld = false) ∧
    ∀ t ∈ turns, t.connects →
      t.applied.session = SessionState.connected.enter
        { Session.initial t.before.session.interval with
          attached := true, joinActive := t.applied.join.isJoining } ∧
      t.applied.boost.isHeld = false := by
  obtain ⟨hrest, hturns⟩ := run.atRest
  refine ⟨?_, fun hs => ?_, fun t ht => ?_⟩
  · rw [hrest.mirrors.connected_iff, hrest.attached, Option.any_eq_true]
  · have haway := hrest.away hs
    rw [haway.boost_eq hrest.idle]
    exact ⟨haway.peer, haway.registration, haway.testing, rfl⟩
  · intro hconnects
    obtain ⟨hhappens, hstart, past, hbefore⟩ := hturns t ht
    obtain ⟨hsession, hboost⟩ := hbefore.connects hhappens hstart hconnects
    rw [hboost]
    exact ⟨hsession, rfl⟩

/-- A simulated node that was connected for a while. -/
theorem Run.mirrors_role_and_forgets_simulated :
    ∃ turns e, Run .default turns e ∧ turns.map Turn.input =
        [.start, .event (.roleChanged .child), .event (.setTesting true),
          .event (.roleChanged .detached)] ∧
      e.state ≠ .connected ∧ (¬∃ role, lastRole turns = some role ∧ role.isAttached = true) ∧
      e.session.peer = none ∧ e.session.registration = .initial ∧ e.session.testing = false ∧
      e.boost.isHeld = false := by
  obtain ⟨turns, run, hinputs, -⟩ := exists_run_of_answer Engine.new_default
    [.roleChanged .child, .setTesting true, .roleChanged .detached] Host.answer (.initial .disabled)
  obtain ⟨hmirrors, hforgets, -⟩ := run.mirrors_role_and_forgets
  have hs : ((Engine.default.start >>= Engine.handleAll [.roleChanged .child, .setTesting true,
      .roleChanged .detached]).run Host.answer (.initial .disabled)).1.state ≠ .connected := by
    decide
  exact ⟨turns, _, run, hinputs, hs, mt hmirrors.2 hs, hforgets hs⟩

end MeshLight
