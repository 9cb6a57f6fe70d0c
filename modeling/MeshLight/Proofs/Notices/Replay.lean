import MeshLight.Proofs.Session.Registering

/-!
# MeshLight.Proofs.Notices.Replay

The notices of a node are a full account of where it stands. Whoever takes them in, one after the
other and starting from nothing, knows the state of the session, the peer, the progress of the
registration and the mode that the node is in (`Picture.replay`), as long as every notice of a
change begins in the state that the account has come to (`Picture.retell?`). Each program of the
engine keeps the account (`Engine.Tells`), so a run does (`Run.retold`).

The end of a connection forgets what was learned in it with no notice of its own: the notice that
the session leaves the connected state stands for that.
-/

namespace MeshLight

open Prog

/-! ## pictures -/

/-- What notices tell of a node. -/
structure Picture where
  state : SessionState
  peer : Option Address
  registration : RegistrationState
  testing : Bool
  deriving DecidableEq

namespace Picture

/-- The picture before the first notice. -/
def initial : Picture := ⟨.disconnected, none, .notStarted, false⟩

/-- Takes in a notice. With a connection, what was learned in it is forgotten. -/
def note (n : Notice) (p : Picture) : Picture :=
  match n with
  | .started state => { p with state := state }
  | .sessionChanged before after =>
    if before = .connected then ⟨after, none, .notStarted, false⟩ else { p with state := after }
  | .peerDiscovered address => { p with peer := some address }
  | .registrationChanged state => { p with registration := state }
  | .testingChanged on => { p with testing := on }
  | .statusReported _ | .triggerSent _ _ | .commandHandled _ _ | .joinGaveUp _ => p

/-- Takes in notices, one after the other. -/
def replay (ns : List Notice) (p : Picture) : Picture := ns.foldl (fun p n => p.note n) p

/-- Whether a notice of a change begins in the state that the picture shows. -/
def fits (p : Picture) : Notice → Bool
  | .sessionChanged before _ => before = p.state
  | _ => true

/-- Takes in notices, as long as they fit. -/
def retell? : List Notice → Picture → Option Picture
  | [], p => some p
  | n :: rest, p => if p.fits n then retell? rest (p.note n) else none

variable {ns : List Notice} {p p' : Picture}

theorem retell?_append (first rest : List Notice) (p : Picture) :
    p.retell? (first ++ rest) = (p.retell? first).bind (retell? rest) := by
  induction first generalizing p with
  | nil => rfl
  | cons n first ih =>
      rw [List.cons_append, retell?, retell?]
      split
      · exact ih _
      · rfl

/-- Notices can be retold exactly if every change begins where the replay of those before it has
come to, and then they are replayed. -/
theorem retell?_eq_some_iff : p.retell? ns = some p' ↔ p.replay ns = p' ∧
    ∀ first before after rest, ns = first ++ .sessionChanged before after :: rest →
      before = (p.replay first).state := by
  induction ns generalizing p with
  | nil => simp [retell?, replay]
  | cons n ns ih =>
      have hreplay (rest : List Notice) : p.replay (n :: rest) = (p.note n).replay rest := rfl
      rw [retell?]
      split
      · next hfits =>
          rw [ih, hreplay]
          refine and_congr_right fun _ => ⟨fun h => ?_, fun h => ?_⟩
          · intro first before after rest hns
            cases first with
            | nil =>
                obtain ⟨rfl, -⟩ := List.cons.inj hns
                exact of_decide_eq_true hfits
            | cons m first =>
                obtain ⟨rfl, hlater⟩ := List.cons.inj hns
                exact h first before after rest hlater
          · intro first before after rest hns
            rw [← hreplay]
            exact h (n :: first) before after rest (by rw [hns, List.cons_append])
      · next hfits =>
          refine iff_of_false nofun fun h => hfits ?_
          cases n with
          | sessionChanged before after =>
              exact decide_eq_true (h.2 [] before after ns rfl)
          | _ => rfl

end Picture

/-! ## notices of a log -/

/-- The notice that a call gives. -/
def Call.notice? : Call → Option Notice
  | .emit n => some n
  | _ => none

/-- The notices of a log, in their order. -/
def notices (log : List Exchange) : List Notice := collect Call.notice? log

/-- Whether a call changes no picture: it gives no notice, or one that tells of something else. -/
def Call.isAside : Call → Bool
  | .emit (.statusReported _) | .emit (.triggerSent _ _) | .emit (.commandHandled _ _)
  | .emit (.joinGaveUp _) => true
  | .emit _ => false
  | _ => true

theorem retell?_of_call {c : Call} (h : c.isAside = true) (p : Picture) :
    p.retell? c.notice?.toList = some p := by
  cases c with
  | emit n =>
      cases n with
      | statusReported | triggerSent | commandHandled | joinGaveUp => rfl
      | started | sessionChanged | peerDiscovered | registrationChanged | testingChanged => cases h
  | mesh | board | timer => rfl

theorem retell?_of_isAside {log : List Exchange} (h : ∀ x ∈ log, x.call.isAside = true)
    (p : Picture) : p.retell? (notices log) = some p := by
  unfold notices
  induction log with
  | nil => rfl
  | cons x log ih =>
      have hrest := ih fun y hy => h y (List.mem_cons_of_mem x hy)
      rw [collect_cons, Picture.retell?_append, retell?_of_call (h x (List.mem_cons_self ..)),
        Option.bind_some, hrest]

namespace Engine

/-- The picture that an engine would give of itself. -/
def picture (e : Engine) : Picture :=
  ⟨e.state, e.session.peer, e.session.registration.state, e.session.testing⟩

/-- The notices of a log turn the picture of one engine into that of another. -/
def Tells (e : Engine) (log : List Exchange) (e' : Engine) : Prop :=
  e.picture.retell? (notices log) = some e'.picture

variable {e e' e₁ : Engine} {log first rest : List Exchange}

theorem Tells.append (h : Tells e first e₁) (h' : Tells e₁ rest e') : Tells e (first ++ rest) e' := by
  unfold Tells notices at *
  rw [collect_append, Picture.retell?_append, h, Option.bind_some, h']

/-- Calls that change no picture tell of an engine with the same picture. -/
theorem tells_of_isAside (h : ∀ x ∈ log, x.call.isAside = true) (hp : e'.picture = e.picture) :
    Tells e log e' := by
  unfold Tells
  rw [retell?_of_isAside h, hp]

theorem tells_nil (hp : e'.picture = e.picture) : Tells e [] e' := congrArg some hp.symm

/-- A notice that fits tells of the engine with the picture that it makes. -/
theorem tells_of_emit {n : Notice} (hfits : e.picture.fits n = true)
    (hp : e'.picture = e.picture.note n) : Tells e [⟨.emit n, ()⟩] e' := by
  unfold Tells
  rw [hp]
  exact if_pos hfits

theorem Tells.of_picture (h : Tells e log e₁) (hp : e'.picture = e.picture) : Tells e' log e₁ := by
  unfold Tells at *
  rw [hp]
  exact h

/-! ## following the facts -/

theorem picture_enter (s : Session) :
    (SessionState.connected.enter s).peer = s.peer ∧
      (SessionState.connected.enter s).registration = s.registration ∧
      (SessionState.connected.enter s).testing = s.testing := by
  cases h : s.registration.canBegin <;> simp [SessionState.enter, Session.submit, h]

/-- Following the facts changes the picture as the notice of it does. -/
theorem Follows.picture (h : Follows e e') : e'.picture =
    if e'.state = e.state then e.picture
    else e.picture.note (.sessionChanged e.state e'.state) := by
  have hconnected : e'.state = .connected ↔ e.session.attached = true := by
    rw [h.mirrors.connected_iff, h.attached]
  obtain ⟨hstays, hsession⟩ | ⟨hs, ha, hsession⟩ | ⟨hs, ha, hsession⟩ := h.session
  · have hlearned : e'.picture = { e.picture with state := e'.state } := by
      unfold Engine.picture
      rw [hsession]
      rfl
    split
    · next hsame =>
        rw [hlearned, hsame]
        rfl
    · next hmoved =>
        have hs : e.state ≠ .connected := fun hs =>
          hmoved ((hconnected.2 (hstays.1 hs)).trans hs.symm)
        rw [hlearned]
        exact (if_neg hs).symm
  · obtain ⟨hpeer, hregistration, htesting⟩ := picture_enter e.facing
    rw [if_neg (by rw [hconnected.2 ha]; exact hs.symm)]
    refine Eq.trans ?_ (if_neg hs).symm
    unfold Engine.picture
    rw [hsession, hpeer, hregistration, htesting]
    rfl
  · have hs' : e'.state ≠ e.state := by
      rw [hs, Ne, hconnected, ha]
      exact Bool.false_ne_true
    rw [if_neg hs']
    refine Eq.trans ?_ (if_pos hs).symm
    unfold Engine.picture
    rw [hsession]
    rfl

theorem tells_sync (h : Path e.sync log e') : Tells e log e' := by
  have hpicture := (path_sync h).2.picture
  obtain ⟨hsame, rfl⟩ | ⟨hmoved, rfl⟩ := path_sync_log h
  · rw [if_pos hsame] at hpicture
    exact tells_nil hpicture
  · rw [if_neg hmoved] at hpicture
    exact tells_of_emit (decide_eq_true rfl) hpicture

/-! ## inputs -/

theorem tells_requestJoin (h : Path e.requestJoin log e') : Tells e log e' := by
  obtain ⟨-, rfl, rfl⟩ | ⟨-, now, rest, rfl, ⟨-, rfl, rfl⟩ |
    ⟨join, answer, last, -, rfl, hanswer⟩⟩ := path_requestJoin_cases h
  · exact tells_nil rfl
  · exact tells_of_isAside (by simp [Call.isAside]) rfl
  · have hfirst : Tells e [⟨.timer .now, now⟩, ⟨.mesh .startJoiner, answer⟩] e :=
      tells_of_isAside (by simp [Call.isAside]) rfl
    obtain ⟨-, hsync⟩ | ⟨-, hsync⟩ := hanswer
    · exact hfirst.append ((tells_sync hsync).of_picture rfl)
    · exact hfirst.append ((tells_sync hsync).of_picture rfl)

theorem tells_onJoinerIdle (h : Path e.onJoinerIdle log e') : Tells e log e' := by
  obtain ⟨now, rest, rfl, hended⟩ := path_onJoinerIdle_cases h
  split at hended
  · obtain ⟨answer, rfl, ⟨-, rfl⟩ | ⟨-, rfl⟩⟩ := hended <;>
      exact tells_of_isAside (by simp [Call.isAside]) rfl
  · obtain ⟨rfl, rfl⟩ := hended
    exact tells_of_isAside (by simp [Call.isAside]) rfl
  · obtain ⟨rfl, rfl⟩ := hended
    exact tells_of_isAside (by simp [Call.isAside]) rfl

theorem tells_onJoiner {state : JoinerState} (h : Path (e.onJoiner state) log e') :
    Tells e log e' := by
  cases state with
  | idle =>
      simp only [onJoiner, path_bind_iff] at h
      obtain ⟨e₁, first, rest, rfl, hidle, hsync⟩ := h
      exact (tells_onJoinerIdle hidle).append (tells_sync hsync)
  | joined =>
      have hsync : Path (sync { e with join := e.join.succeed }) log e' := h
      exact (tells_sync hsync).of_picture rfl
  | discover | connect | connected | entrust => exact tells_sync h

theorem isAside_of_restore {b b' : PollBoost} (h : Path b.restore log b') :
    ∀ x ∈ log, x.call.isAside = true := by
  intro x hx
  obtain ⟨ms, hc⟩ := Work.eq_of_mayCall_releasePollBoost (h.only b.only_restore x hx)
  rw [hc]
  rfl

theorem tells_onProvisioningReply {payload : Bytes}
    (h : Path (e.onProvisioningReply payload) log e') : Tells e log e' := by
  obtain ⟨first, hboost, ⟨-, address, -, rfl, rfl⟩ | ⟨-, rfl, rfl⟩⟩ :=
    path_onProvisioningReply_cases h
  · have hfirst : Tells e first e := tells_of_isAside (isAside_of_restore hboost) rfl
    exact hfirst.append (tells_of_emit rfl rfl)
  · exact tells_of_isAside (isAside_of_restore hboost) rfl

theorem isAside_of_timers {calls : List TimerCall}
    (h : log.map Exchange.call = calls.map Call.timer) : ∀ x ∈ log, x.call.isAside = true := by
  intro x hx
  have hmem : x.call ∈ calls.map Call.timer := h ▸ List.mem_map_of_mem hx
  obtain ⟨c, -, hc⟩ := List.mem_map.1 hmem
  rw [← hc]
  rfl

theorem tells_onRegistration {outcome : RegistrationOutcome}
    (h : Path (e.onRegistration outcome) log e') : Tells e log e' := by
  obtain ⟨rfl, hlog⟩ := path_onRegistration_cases h
  obtain ha | ⟨-, ha | ha⟩ := Registration.apply_cases outcome e.session.registration
  · rw [ha] at hlog ⊢
    rw [show log = [] from hlog]
    exact tells_nil rfl
  · rw [ha] at hlog ⊢
    obtain ⟨reports, hreports, rfl⟩ := hlog
    have hfirst : Tells e (⟨.board .startManagement, ()⟩ :: reports) e := by
      refine tells_of_isAside (fun x hx => ?_) rfl
      obtain rfl | hx := List.mem_cons.1 hx
      · rfl
      · exact isAside_of_timers hreports x hx
    exact hfirst.append (tells_of_emit rfl rfl)
  · rw [ha] at hlog ⊢
    rw [show log = _ from hlog]
    exact tells_of_emit rfl rfl

theorem tells_setTesting {on : Bool} (h : Path (e.setTesting on) log e') : Tells e log e' := by
  obtain ⟨rfl, rfl⟩ | ⟨-, rfl, timers, htimers, rfl⟩ := path_setTesting_cases h
  · exact tells_nil rfl
  · have hfirst : Tells e timers e := tells_of_isAside (isAside_of_timers htimers) rfl
    exact hfirst.append (tells_of_emit rfl rfl)

end Engine

/-- Whether an input changes no picture. -/
def Input.isAside : Input → Bool
  | .event (.commandReceived _) | .event (.timerFired _) | .event (.replyTimedOut _)
  | .event .factoryResetRequested | .event .reportRequested | .event (.trigger _) => true
  | _ => false

theorem isAside_of_input {input : Input} {c : Call} (hinput : input.isAside = true)
    (h : input.mayCall c = true) : c.isAside = true := by
  unfold Input.mayCall at h
  split at h <;> first | rfl | exact Bool.noConfusion h | exact Bool.noConfusion hinput

theorem isAside_of_work {w : Work} {c : Call} (hw : w ≠ .beginRegistration)
    (h : w.mayCall c = true) : c.isAside = true := by
  cases c with
  | emit n =>
      cases n with
      | statusReported | triggerSent | commandHandled | joinGaveUp => rfl
      | _ => cases w <;> first | exact Bool.noConfusion h | exact absurd rfl hw
  | mesh | board | timer => rfl

namespace Engine

variable {e e' e₁ : Engine} {log : List Exchange}

theorem picture_of_apply {event : Event} (hevent : (Input.event event).isAside = true)
    (h : Path (e.apply event) log e') : e'.picture = e.picture := by
  cases event with
  | replyTimedOut kind =>
      obtain ⟨-, rfl | ⟨-, rfl⟩⟩ := path_onReplyTimeout h <;> rfl
  | commandReceived request =>
      obtain ⟨-, -, rfl⟩ | ⟨-, s, first, outcome, reply, hdispatched, -, rfl⟩ := path_onCommand h
      · rfl
      · rw [hdispatched.session]
        cases outcome.followUp <;> rfl
  | timerFired timer =>
      obtain ⟨-, ⟨-, rfl⟩ | ⟨-, rfl⟩⟩ := path_onTimer h <;> rfl
  | factoryResetRequested | reportRequested | trigger event =>
      obtain ⟨-, rfl⟩ := path_done_iff.1 h
      rfl
  | roleChanged | joinerChanged | reply | registrationCompleted | joinRequested | setTesting =>
      cases hevent

theorem tells_apply {event : Event} (h : Path (e.apply event) log e') : Tells e log e' := by
  cases event with
  | roleChanged role =>
      have hsync : Path (e.told role).sync log e' := h
      exact (tells_sync hsync).of_picture rfl
  | joinerChanged state => exact tells_onJoiner h
  | joinRequested => exact tells_requestJoin h
  | reply kind payload =>
      cases kind with
      | provisioning => exact tells_onProvisioningReply h
      | status | trigger =>
          obtain ⟨rfl, rfl⟩ := path_done_iff.1 h
          exact tells_nil rfl
  | registrationCompleted outcome => exact tells_onRegistration h
  | setTesting on => exact tells_setTesting h
  | replyTimedOut | commandReceived | timerFired | factoryResetRequested | reportRequested
  | trigger =>
      exact tells_of_isAside (fun x hx => isAside_of_input rfl (h.only (only_apply _ e) x hx))
        (picture_of_apply rfl h)

/-- The start tells of the state that the engine begins in. -/
theorem tells_startUp (hs : e.state ≠ .connected) (h : Path e.startUp log e') : Tells e log e' := by
  obtain ⟨role, rest, rfl, hcases⟩ := path_startUp_cases hs h
  have hfirst : Tells e [⟨.emit (.started e.state), ()⟩, ⟨.mesh .role, role⟩] e := rfl
  refine hfirst.append ?_
  obtain ⟨-, hrole⟩ | ⟨-, -, hrequest⟩ | ⟨-, -, rfl, rfl⟩ := hcases
  · have hsync : Path (e.told role).sync rest e' := hrole
    exact (tells_sync hsync).of_picture rfl
  · exact tells_requestJoin hrequest
  · exact tells_nil rfl

/-! ## work -/

theorem tells_beginRegistration (h : Path e.beginRegistration log e') : Tells e log e' := by
  obtain ⟨-, rfl, rfl⟩ | ⟨-, first, r, registration, hadvertise, -, rfl, rfl⟩ :=
    path_beginRegistration h
  · exact tells_nil rfl
  · have hfirst : Tells e first e := by
      refine tells_of_isAside (fun x hx => ?_) rfl
      obtain ⟨id, hprefix⟩ := path_advertise hadvertise
      have hmem := hprefix.subset (List.mem_map_of_mem hx)
      simp only [advertiseCalls, List.mem_cons, List.not_mem_nil, or_false] at hmem
      obtain hc | hc | hc | hc | hc := hmem <;> rw [hc] <;> rfl
    exact hfirst.append (tells_of_emit rfl rfl)

theorem tells_execute {w : Work} (h : Path (e.execute w) log e') : Tells e log e' := by
  by_cases hw : w = .beginRegistration
  · subst hw
    exact tells_beginRegistration h
  · refine tells_of_isAside (fun x hx => isAside_of_work hw (h.only (only_execute w e) x hx)) ?_
    cases alters_of_execute h with
    | registers => exact absurd rfl hw
    | nothing | asks | boosts | releases | wipes => rfl

theorem Drains.tells {tasks : List Task} (h : Drains e tasks e') :
    Tells e (tasks.flatMap Task.log) e' := by
  induction h with
  | rest => exact tells_nil rfl
  | work task hnext hdone hrest ih =>
      obtain ⟨rest, -, hbefore⟩ := nextWork?_eq_some_iff.1 hnext
      rw [List.flatMap_cons]
      exact ((tells_execute hdone).of_picture (by rw [hbefore]; rfl)).append ih

end Engine

/-! ## runs -/

variable {config : Config} {turns : List Turn} {t : Turn} {e : Engine}

theorem Turn.Happens.tells (ht : t.Happens)
    (hstart : t.input = .start → t.before.state ≠ .connected) :
    Engine.Tells t.before t.log t.after := by
  refine Engine.Tells.append ?_ ht.drains.tells
  have hreceives := ht.receives
  cases hinput : t.input with
  | start =>
      rw [hinput] at hreceives
      exact Engine.tells_startUp (hstart hinput) hreceives
  | event event =>
      rw [hinput] at hreceives
      exact Engine.tells_apply hreceives

theorem Engine.picture_new (h : Engine.new config = .ok e) : e.picture = .initial := by
  obtain ⟨-, interval, rfl⟩ := Engine.eq_of_new h
  rfl

theorem Run.retold (run : Run config turns e) :
    Picture.initial.retell? (notices (turns.flatMap Turn.log)) = some e.picture := by
  induction run with
  | start t hnew hinput ht =>
      have htells := ht.tells fun _ => Engine.state_new hnew
      rw [List.flatMap_singleton, ← Engine.picture_new hnew]
      exact htells
  | handle t event run hinput ht ih =>
      have htells := ht.tells fun hstart => absurd hstart (Turn.ne_start_of_event hinput)
      unfold notices at ih ⊢
      rw [List.flatMap_append, List.flatMap_singleton, collect_append, Picture.retell?_append, ih]
      exact htells

end MeshLight
