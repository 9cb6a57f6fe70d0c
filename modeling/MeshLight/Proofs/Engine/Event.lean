import MeshLight.Proofs.Command.Dispatch
import MeshLight.Proofs.Engine.Run

/-!
# MeshLight.Proofs.Engine.Event

What applying an event comes to, along any path, one lemma for each event. Only a change of role can
move the session into the connected state or out of it (`keepsStanding_of_path_apply`); joining
only follows (`continues_of_joinStep`). No event sends a request by itself: requests are left to the
work that the event asks for.
-/

namespace MeshLight

open Prog

/-! ## the machine -/

namespace SessionState

theorem calledFor_eq_connected_iff {s : Session} :
    calledFor s = .connected ↔ s.attached = true := by
  unfold calledFor
  split
  · simp [*]
  · split <;> simp [*]

/-- Entering and leaving states changes no fact that drives the machine. -/
theorem calledFor_enter_leave (next old : SessionState) (s : Session) :
    calledFor (next.enter (old.leave s)) = calledFor s := by
  simp [calledFor]

/-- A state other than the connected one asks for nothing when it is entered. -/
theorem enter_of_ne {state : SessionState} {s : Session} (h : state ≠ .connected) :
    state.enter s = s := by
  cases state with
  | connected => exact absurd rfl h
  | disconnected | connecting => rfl

/-- A state other than the connected one has nothing to undo. -/
theorem leave_of_ne {state : SessionState} {s : Session} (h : state ≠ .connected) :
    state.leave s = s := by
  cases state with
  | connected => exact absurd rfl h
  | disconnected | connecting => rfl

/-- The machine goes straight to the state that the facts call for, except that a join in progress
lets it pass through the disconnected state when the connection is lost. -/
theorem next?_cases {s : Session} {state next : SessionState} (h : state.next? s = some next) :
    next = calledFor s ∨ next = .disconnected ∧ calledFor s = .connecting := by
  cases state <;> cases ha : s.attached <;> cases hj : s.joinActive <;>
    simp [next?, calledFor, ha, hj] at h ⊢ <;> simp [← h]

theorem next?_disconnected {s : Session} (h : calledFor s = .connecting) :
    disconnected.next? s = some .connecting := by
  cases ha : s.attached <;> cases hj : s.joinActive <;> simp [next?, calledFor, ha, hj] at h ⊢

end SessionState

namespace Machine

theorem settle_of_rest {m : Machine} {s : Session} (hops : Nat)
    (h : m.state = SessionState.calledFor s) : settle hops m s = (m, s) := by
  cases hops with
  | zero => rfl
  | succ hops => rw [settle, SessionState.next?_eq_none_iff.2 h]

/-- A move to the state that the facts call for is the last one. -/
theorem settle_moveTo {m : Machine} {s : Session} {next : SessionState} (hops : Nat)
    (h : next = SessionState.calledFor s) :
    settle hops (m.moveTo next s).1 (m.moveTo next s).2 = m.moveTo next s := by
  refine settle_of_rest hops ?_
  show next = SessionState.calledFor (next.enter (m.state.leave s))
  rw [SessionState.calledFor_enter_leave]
  exact h

/-- From the disconnected state a join in progress leads to the connecting state, and the session
stays as it is. -/
theorem session_settle_of_connecting {s : Session} (hops : Nat) (transitions : UInt32)
    (h : SessionState.calledFor s = .connecting) :
    (settle (hops + 1) ⟨.disconnected, transitions⟩ s).2 = s := by
  rw [settle, SessionState.next?_disconnected h]
  show (settle hops (moveTo .connecting ⟨.disconnected, transitions⟩ s).1
    (moveTo .connecting ⟨.disconnected, transitions⟩ s).2).2 = s
  rw [settle_moveTo hops h.symm]
  rfl

/-- The session is changed once, on the way out of the old state and into the one that the facts
call for, whether or not the machine passes through a third. -/
theorem session_step (m : Machine) (s : Session) :
    (m.step s).2 = if m.state = SessionState.calledFor s then s
      else (SessionState.calledFor s).enter (m.state.leave s) := by
  split
  · next hrest => rw [step, settle_of_rest 3 hrest]
  · next hmove =>
      cases hnext : m.state.next? s with
      | none => exact absurd (SessionState.next?_eq_none_iff.1 hnext) hmove
      | some next =>
          rw [step, settle, hnext]
          obtain hcalled | ⟨rfl, hcalled⟩ := SessionState.next?_cases hnext
          · show (settle 2 (m.moveTo next s).1 (m.moveTo next s).2).2 = _
            rw [settle_moveTo 2 hcalled, ← hcalled]
            rfl
          · -- the connection was lost during a join: one more move, to the connecting state
            have hleft : SessionState.calledFor (m.state.leave s) = .connecting := by
              simpa [SessionState.calledFor] using hcalled
            rw [hcalled]
            exact session_settle_of_connecting 1 (m.transitions + 1) hleft

end Machine

namespace Engine

variable {e e' e₁ : Engine} {log : List Exchange}

/-! ## following the facts -/

/-- The machine rests in the state that the facts call for. -/
def Mirrors (e : Engine) : Prop := e.state = SessionState.calledFor e.session

theorem Mirrors.connected_iff (h : e.Mirrors) :
    e.state = .connected ↔ e.session.attached = true := by
  rw [show e.state = _ from h, SessionState.calledFor_eq_connected_iff]

theorem Mirrors.of_sameFacts (h : e.Mirrors) (hsame : SameFacts e e') : e'.Mirrors := by
  have hcalled : SessionState.calledFor e'.session = SessionState.calledFor e.session := by
    rw [hsame.session]
    rfl
  unfold Mirrors
  rw [hsame.state, hcalled]
  exact h

/-- The session as the machine is to see it, with the progress of joining. -/
def facing (e : Engine) : Session := { e.session with joinActive := e.join.isJoining }

/-- What following the facts comes to: the session stays as it is, or the connected state is
entered or left. -/
structure Follows (e e' : Engine) : Prop where
  config : e'.config = e.config
  join : e'.join = e.join
  boost : e'.boost = e.boost
  mirrors : e'.Mirrors
  attached : e'.session.attached = e.session.attached
  session :
    ((e.state = .connected ↔ e.session.attached = true) ∧ e'.session = e.facing) ∨
    (e.state ≠ .connected ∧ e.session.attached = true ∧
      e'.session = SessionState.connected.enter e.facing) ∨
    (e.state = .connected ∧ e.session.attached = false ∧
      e'.session = SessionState.connected.leave e.facing)

theorem session_step_facing (e : Engine) :
    ((e.state = .connected ↔ e.session.attached = true) ∧
      (e.machine.step e.facing).2 = e.facing) ∨
    (e.state ≠ .connected ∧ e.session.attached = true ∧
      (e.machine.step e.facing).2 = SessionState.connected.enter e.facing) ∨
    (e.state = .connected ∧ e.session.attached = false ∧
      (e.machine.step e.facing).2 = SessionState.connected.leave e.facing) := by
  have hcalled : SessionState.calledFor e.facing = .connected ↔ e.session.attached = true :=
    SessionState.calledFor_eq_connected_iff
  rw [Machine.session_step, show e.machine.state = e.state from rfl]
  by_cases hs : e.state = .connected
  · cases ha : e.session.attached with
    | true =>
        rw [if_pos (by rw [hs, hcalled.2 ha])]
        exact .inl ⟨by simp [hs], rfl⟩
    | false =>
        have hne : SessionState.calledFor e.facing ≠ .connected := by simp [hcalled, ha]
        rw [if_neg (by rw [hs]; exact hne.symm), SessionState.enter_of_ne hne, hs]
        exact .inr (.inr ⟨rfl, rfl, rfl⟩)
  · rw [SessionState.leave_of_ne hs]
    cases ha : e.session.attached with
    | true =>
        rw [hcalled.2 ha, if_neg hs]
        exact .inr (.inl ⟨hs, rfl, rfl⟩)
    | false =>
        have hne : SessionState.calledFor e.facing ≠ .connected := by simp [hcalled, ha]
        rw [SessionState.enter_of_ne hne, ite_self]
        exact .inl ⟨by simp [hs], rfl⟩

theorem path_sync (h : Path e.sync log e') : requests log = [] ∧ Follows e e' := by
  have hstep : requests log = [] ∧ e' = { e with
      machine := (e.machine.step e.facing).1, session := (e.machine.step e.facing).2 } := by
    simp only [sync, pure_eq_done] at h
    split at h
    · simp only [emit, bind_call, bind_done, path_call_iff, path_done_iff] at h
      obtain ⟨_, _, rfl, rfl, rfl⟩ := h
      exact ⟨rfl, rfl⟩
    · obtain ⟨rfl, rfl⟩ := path_done_iff.1 h
      exact ⟨rfl, rfl⟩
  obtain ⟨hlog, rfl⟩ := hstep
  have hsession := Machine.session_step e.machine e.facing
  refine ⟨hlog, rfl, rfl, rfl, ?_, ?_, session_step_facing e⟩
  · show (e.machine.step e.facing).1.state = SessionState.calledFor (e.machine.step e.facing).2
    rw [Machine.state_step, hsession]
    split
    · rfl
    · rw [SessionState.calledFor_enter_leave]
  · show (e.machine.step e.facing).2.attached = e.session.attached
    rw [hsession]
    split <;> simp [facing]

/-- Following the facts is noted if it changes the state, and nothing else is called for. -/
theorem path_sync_log (h : Path e.sync log e') :
    e'.state = e.state ∧ log = [] ∨
      e'.state ≠ e.state ∧ log = [⟨.emit (.sessionChanged e.state e'.state), ()⟩] := by
  simp only [sync, pure_eq_done] at h
  split at h
  · next hmoved =>
      simp only [emit, bind_call, bind_done, path_call_iff, path_done_iff] at h
      obtain ⟨_, _, rfl, rfl, rfl⟩ := h
      exact .inr ⟨hmoved, rfl⟩
  · next hstays =>
      obtain ⟨rfl, rfl⟩ := path_done_iff.1 h
      exact .inl ⟨Decidable.not_not.1 hstays, rfl⟩

/-! ## roles and joining -/

/-- The engine with a role that was reported, before the machine follows. -/
def told (role : Role) (e : Engine) : Engine :=
  { e with
    session := { e.session with attached := role.isAttached }
    join := if role.isAttached then e.join.succeed else e.join }

theorem path_onRole {role : Role} (h : Path (e.onRole role) log e') :
    requests log = [] ∧ Follows (e.told role) e' := path_sync h

/-- Joining changes its own progress, and may ask for a signal. -/
inductive JoinStep (e : Engine) : Engine → Prop where
  | quiet (join : Join) : JoinStep e { e with join := join }
  | signal (join : Join) (w : Work) (hw : w.isSignal = true) :
      JoinStep e (submit w { e with join := join })

/-- What an event comes to that leaves the session connected or not, as it was, and forgets or
learns nothing. -/
structure Continues (e e' : Engine) : Prop where
  config : e'.config = e.config
  boost : e'.boost = e.boost
  mirrors : e'.Mirrors
  connected : e'.state = .connected ↔ e.state = .connected
  session : e'.session =
    { e.session with joinActive := e'.session.joinActive, work := e'.session.work }
  work : e'.session.work = e.session.work ∨
    ∃ w, w.isSignal = true ∧ e'.session.work = (e.session.work.submit w).2

theorem JoinStep.sameFacts (h : JoinStep e e₁) : SameFacts e e₁ ∧ e₁.boost = e.boost ∧
    (e₁.session.work = e.session.work ∨
      ∃ w, w.isSignal = true ∧ e₁.session.work = (e.session.work.submit w).2) ∧
    e₁.session = { e.session with work := e₁.session.work } := by
  cases h with
  | quiet join => exact ⟨⟨rfl, rfl, rfl⟩, rfl, .inl rfl, rfl⟩
  | signal join w hw => exact ⟨⟨rfl, rfl, rfl⟩, rfl, .inr ⟨w, hw, rfl⟩, rfl⟩

/-- An engine that mirrors its facts enters or leaves no connection by following them. -/
theorem Follows.stays (h : Follows e e') (hm : e.Mirrors) : e'.session = e.facing := by
  obtain ⟨-, hs⟩ | ⟨hne, ha, -⟩ | ⟨hs, ha, -⟩ := h.session
  · exact hs
  · exact absurd (hm.connected_iff.2 ha) hne
  · rw [hm.connected_iff, ha] at hs
    cases hs

/-- Following the facts after a step of joining: the node stays connected or not. -/
theorem continues_of_joinStep (hm : e.Mirrors) (hstep : JoinStep e e₁) (hfollow : Follows e₁ e') :
    Continues e e' := by
  obtain ⟨hsame, hboost, hwork, hsession⟩ := hstep.sameFacts
  have hstay := hfollow.stays (hm.of_sameFacts hsame)
  exact {
    config := hfollow.config.trans hsame.config
    boost := hfollow.boost.trans hboost
    mirrors := hfollow.mirrors
    connected := by
      rw [hfollow.mirrors.connected_iff, hm.connected_iff, hfollow.attached, hsame.attached]
    session := by
      rw [hstay, facing, hsession]
    work := by
      rw [hstay]
      exact hwork }

/-- A request to join reads the clock unless the session is connected, and starts an attempt unless
a join is in progress or has succeeded. -/
theorem path_requestJoin_cases (h : Path e.requestJoin log e') :
    (e.state = .connected ∧ log = [] ∧ e' = e) ∨
      e.state ≠ .connected ∧ ∃ now rest, log = ⟨.timer .now, now⟩ :: rest ∧
        ((∃ refusal, e.join.begin now = .error refusal) ∧ rest = [] ∧ e' = e ∨
          ∃ join answer last, e.join.begin now = .ok join ∧
            rest = ⟨.mesh .startJoiner, answer⟩ :: last ∧
            (answer = .ok () ∧ Path (submit .indicateJoining { e with join := join }).sync last e' ∨
              (∃ fault, answer = .error fault) ∧
                Path (sync { e with join := join.abandon }) last e')) := by
  unfold requestJoin at h
  split at h
  · next hc =>
      exact .inl ⟨by simpa [isConnected] using hc, path_done_iff.1 h⟩
  · next hc =>
      refine .inr ⟨by simpa [isConnected] using hc, ?_⟩
      simp only [timer, bind_call, bind_done, path_call_iff] at h
      obtain ⟨now, rest, rfl, h⟩ := h
      refine ⟨now, rest, rfl, ?_⟩
      split at h
      · next refusal hrefused =>
          exact .inl ⟨⟨refusal, hrefused⟩, path_done_iff.1 h⟩
      · next join hjoin =>
          simp only [mesh, bind_call, bind_done, path_call_iff] at h
          obtain ⟨answer, last, rfl, h⟩ := h
          refine .inr ⟨join, answer, last, hjoin, rfl, ?_⟩
          cases answer with
          | ok u => exact .inl ⟨rfl, h⟩
          | error fault => exact .inr ⟨⟨fault, rfl⟩, h⟩

theorem path_requestJoin (h : Path e.requestJoin log e') :
    requests log = [] ∧ (e' = e ∨ ∃ e₁, JoinStep e e₁ ∧ Follows e₁ e') := by
  obtain ⟨-, rfl, rfl⟩ | ⟨-, now, rest, rfl, ⟨-, rfl, rfl⟩ |
    ⟨join, answer, last, -, rfl, ⟨-, h⟩ | ⟨-, h⟩⟩⟩ := path_requestJoin_cases h
  · exact ⟨rfl, .inl rfl⟩
  · exact ⟨rfl, .inl rfl⟩
  · obtain ⟨hlast, hfollow⟩ := path_sync h
    exact ⟨by simpa [Call.request?] using hlast, .inr ⟨_, .signal join _ rfl, hfollow⟩⟩
  · obtain ⟨hlast, hfollow⟩ := path_sync h
    exact ⟨by simpa [Call.request?] using hlast, .inr ⟨_, .quiet _, hfollow⟩⟩

/-- An attempt that ended reads the clock. Then another is started, or the join is given up, or
nothing is in progress. -/
theorem path_onJoinerIdle_cases (h : Path e.onJoinerIdle log e') :
    ∃ now rest, log = ⟨.timer .now, now⟩ :: rest ∧
      match e.join.attemptEnded now with
      | (.retry _, join) => ∃ answer, rest = [⟨.mesh .startJoiner, answer⟩] ∧
          (answer = .ok () ∧ e' = { e with join := join } ∨
            (∃ fault, answer = .error fault) ∧
              e' = submit .indicateIdle { e with join := join.abandon })
      | (.giveUp attempts, join) => rest = [⟨.emit (.joinGaveUp attempts), ()⟩] ∧
          e' = submit .indicateIdle { e with join := join }
      | (.ignore, join) => rest = [] ∧ e' = { e with join := join } := by
  simp only [onJoinerIdle, timer, bind_call, bind_done, path_call_iff] at h
  obtain ⟨now, rest, rfl, h⟩ := h
  refine ⟨now, rest, rfl, ?_⟩
  cases hended : e.join.attemptEnded now with
  | mk decision join =>
      rw [hended] at h
      cases decision with
      | retry attempt =>
          simp only [mesh, bind_call, bind_done, path_call_iff] at h
          obtain ⟨answer, last, rfl, h⟩ := h
          cases answer with
          | ok u =>
              obtain ⟨rfl, rfl⟩ := path_done_iff.1 h
              exact ⟨_, rfl, .inl ⟨rfl, rfl⟩⟩
          | error fault =>
              obtain ⟨rfl, rfl⟩ := path_done_iff.1 h
              exact ⟨_, rfl, .inr ⟨⟨fault, rfl⟩, rfl⟩⟩
      | giveUp attempts =>
          simp only [emit, bind_call, bind_done, pure_eq_done, path_call_iff, path_done_iff] at h
          obtain ⟨_, _, rfl, rfl, rfl⟩ := h
          exact ⟨rfl, rfl⟩
      | ignore => exact path_done_iff.1 h

theorem path_onJoinerIdle (h : Path e.onJoinerIdle log e') :
    requests log = [] ∧ JoinStep e e' := by
  obtain ⟨now, rest, rfl, hended⟩ := path_onJoinerIdle_cases h
  split at hended
  · obtain ⟨answer, rfl, ⟨-, rfl⟩ | ⟨-, rfl⟩⟩ := hended
    · exact ⟨rfl, .quiet _⟩
    · exact ⟨rfl, .signal _ _ rfl⟩
  · obtain ⟨rfl, rfl⟩ := hended
    exact ⟨rfl, .signal _ _ rfl⟩
  · obtain ⟨rfl, rfl⟩ := hended
    exact ⟨rfl, .quiet _⟩

theorem path_onJoiner {state : JoinerState} (h : Path (e.onJoiner state) log e') :
    requests log = [] ∧ ∃ e₁, JoinStep e e₁ ∧ Follows e₁ e' := by
  cases state with
  | idle =>
      simp only [onJoiner, path_bind_iff] at h
      obtain ⟨e₁, first, rest, rfl, hidle, hsync⟩ := h
      obtain ⟨hfirst, hstep⟩ := path_onJoinerIdle hidle
      obtain ⟨hrest, hfollow⟩ := path_sync hsync
      exact ⟨by rw [requests_append, hfirst, hrest]; rfl, e₁, hstep, hfollow⟩
  | joined =>
      obtain ⟨hlog, hfollow⟩ := path_sync h
      exact ⟨hlog, _, .quiet _, hfollow⟩
  | discover | connect | connected | entrust =>
      obtain ⟨hlog, hfollow⟩ := path_sync h
      exact ⟨hlog, _, .quiet e.join, hfollow⟩

/-! ## replies -/

theorem requests_restore {b b' : PollBoost} (h : Path b.restore log b') : requests log = [] := by
  obtain ⟨-, ⟨rfl, -⟩ | ⟨saved, answer, -, rfl⟩⟩ := PollBoost.path_restore h <;> rfl

/-- A provisioning reply ends the boost. Its address is learned, and a report is asked for, if it is
well-formed and the node is connected. -/
theorem path_onProvisioningReply_cases {payload : Bytes}
    (h : Path (e.onProvisioningReply payload) log e') :
    ∃ first, Path e.boost.restore first .none ∧
      ((e.state = .connected ∧ ∃ address : Address, Octets.ofBytes? 16 payload = some address ∧
          log = first ++ [⟨.emit (.peerDiscovered address), ()⟩] ∧
          e' = submit .reportStatus
            { e with boost := .none, session := { e.session with peer := some address } }) ∨
        ¬(e.state = .connected ∧ (Octets.ofBytes? 16 payload).isSome = true) ∧
          log = first ∧ e' = { e with boost := .none }) := by
  rw [onProvisioningReply, path_bind_iff] at h
  obtain ⟨e₁, first, rest, rfl, hrestore, h⟩ := h
  obtain ⟨rfl, hboost⟩ := path_restorePoll hrestore
  refine ⟨first, hboost, ?_⟩
  unfold Provisioning.parseReply at h
  cases hp : Octets.ofBytes? 16 payload with
  | none =>
      rw [hp] at h
      obtain ⟨rfl, rfl⟩ := path_done_iff.1 h
      exact .inr ⟨by simp, List.append_nil first, rfl⟩
  | some address =>
      simp only [hp] at h
      split at h
      · next hc =>
          have hs : e.state = .connected := of_decide_eq_true hc
          simp only [emit, bind_call, bind_done, pure_eq_done, path_call_iff, path_done_iff] at h
          obtain ⟨_, _, rfl, rfl, rfl⟩ := h
          exact .inl ⟨hs, address, rfl, rfl, rfl⟩
      · next hc =>
          have hs : e.state ≠ .connected := fun hs => hc (decide_eq_true hs)
          obtain ⟨rfl, rfl⟩ := path_done_iff.1 h
          exact .inr ⟨fun hboth => hs hboth.1, List.append_nil first, rfl⟩

theorem path_onProvisioningReply {payload : Bytes}
    (h : Path (e.onProvisioningReply payload) log e') :
    requests log = [] ∧
      ((e.state = .connected ∧ ∃ address : Address, Octets.ofBytes? 16 payload = some address ∧
          e' = submit .reportStatus
            { e with boost := .none, session := { e.session with peer := some address } }) ∨
        ¬(e.state = .connected ∧ (Octets.ofBytes? 16 payload).isSome = true) ∧
          e' = { e with boost := .none }) := by
  obtain ⟨first, hboost, ⟨hs, address, haddress, rfl, he⟩ | ⟨hnot, rfl, he⟩⟩ :=
    path_onProvisioningReply_cases h
  · rw [requests_append, requests_restore hboost]
    exact ⟨rfl, .inl ⟨hs, address, haddress, he⟩⟩
  · exact ⟨requests_restore hboost, .inr ⟨hnot, he⟩⟩

theorem path_onReplyTimeout {kind : ReplyKind} (h : Path (e.onReplyTimeout kind) log e') :
    requests log = [] ∧ (e' = e ∨ kind = .provisioning ∧ e' = { e with boost := .none }) := by
  cases kind with
  | provisioning =>
      obtain ⟨rfl, hboost⟩ := path_restorePoll h
      exact ⟨requests_restore hboost, .inr ⟨rfl, rfl⟩⟩
  | status | trigger =>
      obtain ⟨rfl, rfl⟩ := path_done_iff.1 h
      exact ⟨rfl, .inl rfl⟩

/-! ## registration -/

/-- The start of the report timer with the current interval. -/
def reportStart (e : Engine) : TimerCall :=
  .startPeriodic .report e.config.reportInitialDelayMs.toNat e.session.interval.period

theorem requests_of_timers {log : List Exchange} {calls : List TimerCall}
    (h : log.map Exchange.call = calls.map Call.timer) : requests log = [] :=
  (collect_of_timers h).trans (List.filterMap_eq_nil_iff.2 fun _ _ => rfl)

/-- The registrar's answer changes the progress of the registration and nothing else. A change is
noted, and the first success starts management and, outside testing mode, the reports. -/
theorem path_onRegistration_cases {outcome : RegistrationOutcome}
    (h : Path (e.onRegistration outcome) log e') :
    e' = { e with session := { e.session with
        registration := (e.session.registration.apply outcome).2 } } ∧
      match e.session.registration.apply outcome with
      | (.unchanged, _) => log = []
      | (.failed, registration) => log = [⟨.emit (.registrationChanged registration.state), ()⟩]
      | (.firstSuccess, registration) => ∃ reports,
          reports.map Exchange.call =
            (if e.session.testing then [] else [e.reportStart]).map Call.timer ∧
          log = ⟨.board .startManagement, ()⟩ :: reports ++
            [⟨.emit (.registrationChanged registration.state), ()⟩] := by
  unfold onRegistration at h
  generalize e.session.registration.apply outcome = advanced at h ⊢
  obtain ⟨advance, registration⟩ := advanced
  cases advance with
  | unchanged =>
      obtain ⟨rfl, rfl⟩ := path_done_iff.1 h
      exact ⟨rfl, rfl⟩
  | failed =>
      simp only [emit, bind_call, bind_done, pure_eq_done, path_call_iff, path_done_iff] at h
      obtain ⟨_, _, rfl, rfl, rfl⟩ := h
      exact ⟨rfl, rfl⟩
  | firstSuccess =>
      simp only [board, startReports, timer, emit, bind_call, bind_done, pure_eq_done,
        path_call_iff] at h
      obtain ⟨_, _, rfl, h⟩ := h
      split at h
      · next hreports =>
          simp only [path_call_iff, path_done_iff] at h
          obtain ⟨started, _, rfl, _, _, rfl, rfl, rfl⟩ := h
          exact ⟨rfl, [⟨_, started⟩], by rw [if_neg (by simpa using hreports)]; rfl, rfl⟩
      · next htesting =>
          simp only [path_call_iff, path_done_iff] at h
          obtain ⟨_, _, rfl, rfl, rfl⟩ := h
          exact ⟨rfl, [], by rw [if_pos (by simpa using htesting)]; rfl, rfl⟩

theorem path_onRegistration {outcome : RegistrationOutcome}
    (h : Path (e.onRegistration outcome) log e') :
    requests log = [] ∧ e' = { e with session := { e.session with
      registration := (e.session.registration.apply outcome).2 } } := by
  obtain ⟨he, hlog⟩ := path_onRegistration_cases h
  refine ⟨?_, he⟩
  split at hlog
  · rw [hlog]
    rfl
  · rw [hlog]
    rfl
  · obtain ⟨reports, hreports, rfl⟩ := hlog
    rw [List.cons_append, requests_cons, requests_append, requests_of_timers hreports]
    rfl

/-! ## commands -/

/-- The engine with work that may be asked for. -/
def submit? (work : Option Work) (e : Engine) : Engine :=
  match work with
  | some w => e.submit w
  | none => e

/-- A command is carried out and answered, and then asks for what it leaves to be done. -/
theorem path_onCommand_dispatch {request : InboundRequest}
    (h : Path (e.onCommand request) log e') :
    (request.method ≠ .put ∧ log = [] ∧ e' = e) ∨
      request.method = .put ∧ ∃ s first outcome reply,
        Path (dispatch e.config request.payload e.session) first (s, outcome) ∧
        log = first ++ [⟨.mesh (.respond request.token (utf8 outcome.body)), reply⟩,
          ⟨.emit (.commandHandled outcome.commandName outcome.code), ()⟩] ∧
        e' = submit? outcome.followUp { e with session := s } := by
  unfold onCommand at h
  split at h
  · next hmethod =>
      obtain ⟨rfl, rfl⟩ := path_done_iff.1 h
      exact .inl ⟨hmethod, rfl, rfl⟩
  · next hmethod =>
      rw [path_bind_iff] at h
      obtain ⟨⟨s, outcome⟩, first, rest, rfl, hdispatch, h⟩ := h
      refine .inr ⟨Decidable.not_not.1 hmethod, s, first, outcome, ?_⟩
      simp only [mesh, emit, bind_call, bind_done, path_call_iff] at h
      obtain ⟨reply, _, rfl, _, _, rfl, h⟩ := h
      refine ⟨reply, hdispatch, ?_⟩
      cases hwork : outcome.followUp with
      | none =>
          simp only [hwork, pure_eq_done, path_done_iff] at h
          obtain ⟨rfl, rfl⟩ := h
          exact ⟨rfl, rfl⟩
      | some w =>
          simp only [hwork, pure_eq_done, path_done_iff] at h
          obtain ⟨rfl, rfl⟩ := h
          exact ⟨rfl, rfl⟩

theorem path_onCommand {request : InboundRequest} (h : Path (e.onCommand request) log e') :
    (request.method ≠ .put ∧ log = [] ∧ e' = e) ∨
      request.method = .put ∧ ∃ s first outcome reply,
        Dispatched request.payload e.session s first outcome ∧
        log = first ++ [⟨.mesh (.respond request.token (utf8 outcome.body)), reply⟩,
          ⟨.emit (.commandHandled outcome.commandName outcome.code), ()⟩] ∧
        e' = submit? outcome.followUp { e with session := s } := by
  obtain h | ⟨hmethod, s, first, outcome, reply, hdispatch, hafter⟩ := path_onCommand_dispatch h
  · exact .inl h
  · exact .inr ⟨hmethod, s, first, outcome, reply, dispatched_of_path hdispatch, hafter⟩

/-! ## timers and testing mode -/

theorem path_onTimer {timer : Timer} (h : Path (e.onTimer timer) log e') :
    requests log = [] ∧ (timer = .report ∧ e' = e.submit .reportStatus ∨
      (∃ group, timer = .lightOff group) ∧ e' = e) := by
  cases timer with
  | report =>
      obtain ⟨rfl, rfl⟩ := path_done_iff.1 h
      exact ⟨rfl, .inl ⟨rfl, rfl⟩⟩
  | lightOff group =>
      simp only [onTimer, board, bind_call, bind_done, pure_eq_done, path_call_iff,
        path_done_iff] at h
      obtain ⟨_, _, rfl, rfl, rfl⟩ := h
      exact ⟨rfl, .inr ⟨⟨group, rfl⟩, rfl⟩⟩

/-- Testing mode is entered only while connected. A change of the mode is noted, after the report
timer was stopped or started. -/
theorem path_setTesting_cases {on : Bool} (h : Path (e.setTesting on) log e') :
    (log = [] ∧ e' = e) ∨ (on = true → e.state = .connected) ∧
      e' = { e with session := { e.session with testing := on } } ∧
      ∃ timers, timers.map Exchange.call = (if on then [.stop .report]
          else if e.session.registration.state = .registered then [e.reportStart]
          else []).map Call.timer ∧
        log = timers ++ [⟨.emit (.testingChanged on), ()⟩] := by
  unfold setTesting at h
  split at h
  · exact .inl (path_done_iff.1 h)
  · next hc =>
      simp only [startReports, timer, emit, bind_call, bind_done, pure_eq_done] at h
      split at h
      · next hon =>
          have hs : e.session.testing = false ∧ e.state = .connected := by
            simpa [hon, isConnected] using hc
          simp only [path_call_iff, path_done_iff] at h
          obtain ⟨_, _, rfl, _, _, rfl, rfl, rfl⟩ := h
          exact .inr ⟨fun _ => hs.2, rfl, [_], by rw [if_pos hon]; rfl, rfl⟩
      · next hon =>
          rw [if_neg hon]
          split at h
          · next hregistered =>
              simp only [path_call_iff, path_done_iff] at h
              obtain ⟨_, _, rfl, _, _, rfl, rfl, rfl⟩ := h
              exact .inr ⟨fun h => absurd h hon, rfl, [_], by rw [if_pos hregistered]; rfl, rfl⟩
          · next hregistered =>
              simp only [path_call_iff, path_done_iff] at h
              obtain ⟨_, _, rfl, rfl, rfl⟩ := h
              exact .inr ⟨fun h => absurd h hon, rfl, [], by rw [if_neg hregistered]; rfl, rfl⟩

theorem path_setTesting {on : Bool} (h : Path (e.setTesting on) log e') :
    requests log = [] ∧ (e' = e ∨ (on = true → e.state = .connected) ∧
      e' = { e with session := { e.session with testing := on } }) := by
  obtain ⟨rfl, he⟩ | ⟨hon, he, timers, htimers, rfl⟩ := path_setTesting_cases h
  · exact ⟨rfl, .inl he⟩
  · refine ⟨?_, .inr ⟨hon, he⟩⟩
    rw [requests_append, requests_of_timers htimers]
    rfl

/-! ## standing -/

/-- The session stays connected or not, as it was. -/
structure KeepsStanding (e e' : Engine) : Prop where
  mirrors : e'.Mirrors
  connected : e'.state = .connected ↔ e.state = .connected
  attached : e'.session.attached = e.session.attached

theorem KeepsStanding.refl (hm : e.Mirrors) : KeepsStanding e e := ⟨hm, .rfl, rfl⟩

theorem Continues.keepsStanding (h : Continues e e') : KeepsStanding e e' where
  mirrors := h.mirrors
  connected := h.connected
  attached := by rw [h.session]

/-- No event but a change of role connects or disconnects the session. -/
theorem keepsStanding_of_path_apply {event : Event} (hm : e.Mirrors)
    (hrole : ∀ role, event ≠ .roleChanged role) (h : Path (e.apply event) log e') :
    KeepsStanding e e' := by
  cases event with
  | roleChanged role => exact absurd rfl (hrole role)
  | joinerChanged state =>
      obtain ⟨-, e₁, hstep, hfollow⟩ := path_onJoiner h
      exact (continues_of_joinStep hm hstep hfollow).keepsStanding
  | joinRequested =>
      obtain ⟨-, rfl | ⟨e₁, hstep, hfollow⟩⟩ := path_requestJoin h
      · exact .refl hm
      · exact (continues_of_joinStep hm hstep hfollow).keepsStanding
  | reply kind payload =>
      cases kind with
      | provisioning =>
          obtain ⟨-, ⟨-, address, -, rfl⟩ | ⟨-, rfl⟩⟩ := path_onProvisioningReply h <;>
            exact ⟨hm, .rfl, rfl⟩
      | status | trigger =>
          obtain ⟨-, rfl⟩ := path_done_iff.1 h
          exact .refl hm
  | replyTimedOut kind =>
      obtain ⟨-, rfl | ⟨-, rfl⟩⟩ := path_onReplyTimeout h <;> exact ⟨hm, .rfl, rfl⟩
  | registrationCompleted outcome =>
      obtain ⟨-, rfl⟩ := path_onRegistration h
      exact ⟨hm, .rfl, rfl⟩
  | commandReceived request =>
      obtain ⟨-, -, rfl⟩ | ⟨-, s, first, outcome, reply, hdispatched, -, rfl⟩ := path_onCommand h
      · exact .refl hm
      · rw [hdispatched.session]
        cases outcome.followUp <;> exact ⟨hm, .rfl, rfl⟩
  | timerFired timer =>
      obtain ⟨-, ⟨-, rfl⟩ | ⟨-, rfl⟩⟩ := path_onTimer h <;> exact ⟨hm, .rfl, rfl⟩
  | setTesting on =>
      obtain ⟨-, rfl | ⟨-, rfl⟩⟩ := path_setTesting h <;> exact ⟨hm, .rfl, rfl⟩
  | factoryResetRequested | reportRequested | trigger event =>
      obtain ⟨-, rfl⟩ := path_done_iff.1 h
      exact ⟨hm, .rfl, rfl⟩

/-! ## starting -/

/-- Starting a disconnected engine asks for the role. An attached one is taken as reported;
otherwise a join is requested if that is configured. -/
theorem path_startUp_cases (hs : e.state ≠ .connected) (h : Path e.startUp log e') :
    ∃ role rest, log = ⟨.emit (.started e.state), ()⟩ :: ⟨.mesh .role, role⟩ :: rest ∧
      (role.isAttached = true ∧ Path (e.onRole role) rest e' ∨
        role.isAttached = false ∧ e.config.autoJoin = true ∧ Path e.requestJoin rest e' ∨
        role.isAttached = false ∧ e.config.autoJoin = false ∧ rest = [] ∧ e' = e) := by
  have hstart : e.machine.start e.session = e.session := SessionState.enter_of_ne hs
  simp only [startUp, hstart, emit, mesh, bind_call, bind_done, path_call_iff] at h
  obtain ⟨_, _, rfl, role, rest, rfl, h⟩ := h
  refine ⟨role, rest, rfl, ?_⟩
  split at h
  · next ha => exact .inl ⟨ha, h⟩
  · next ha =>
      rw [Bool.not_eq_true] at ha
      split at h
      · next hauto => exact .inr (.inl ⟨ha, hauto, h⟩)
      · next hauto =>
          rw [Bool.not_eq_true] at hauto
          exact .inr (.inr ⟨ha, hauto, path_done_iff.1 h⟩)

theorem path_startUp (hs : e.state ≠ .connected) (h : Path e.startUp log e') :
    requests log = [] ∧ ∃ role rest,
      log = ⟨.emit (.started e.state), ()⟩ :: ⟨.mesh .role, role⟩ :: rest ∧
      (role.isAttached = true ∧ Follows (e.told role) e' ∨
        role.isAttached = false ∧ (e' = e ∨ ∃ e₁, JoinStep e e₁ ∧ Follows e₁ e')) := by
  obtain ⟨role, rest, rfl, ⟨ha, h⟩ | ⟨ha, -, h⟩ | ⟨ha, -, rfl, rfl⟩⟩ := path_startUp_cases hs h
  · obtain ⟨hrest, hfollow⟩ := path_onRole h
    exact ⟨by simpa [Call.request?] using hrest, role, rest, rfl, .inl ⟨ha, hfollow⟩⟩
  · obtain ⟨hrest, hjoin⟩ := path_requestJoin h
    exact ⟨by simpa [Call.request?] using hrest, role, rest, rfl, .inr ⟨ha, hjoin⟩⟩
  · exact ⟨rfl, role, [], rfl, .inr ⟨ha, .inl rfl⟩⟩

/-! ## configuration -/

theorem config_of_path_requestJoin (h : Path e.requestJoin log e') : e'.config = e.config := by
  obtain ⟨-, rfl | ⟨e₁, hstep, hfollow⟩⟩ := path_requestJoin h
  · rfl
  · exact hfollow.config.trans hstep.sameFacts.1.config

theorem config_of_path_apply {event : Event} (h : Path (e.apply event) log e') :
    e'.config = e.config := by
  cases event with
  | roleChanged role => exact (path_onRole h).2.config
  | joinerChanged state =>
      obtain ⟨-, e₁, hstep, hfollow⟩ := path_onJoiner h
      exact hfollow.config.trans hstep.sameFacts.1.config
  | joinRequested => exact config_of_path_requestJoin h
  | reply kind payload =>
      cases kind with
      | provisioning =>
          obtain ⟨-, ⟨-, address, -, rfl⟩ | ⟨-, rfl⟩⟩ := path_onProvisioningReply h <;> rfl
      | status | trigger =>
          obtain ⟨-, rfl⟩ := path_done_iff.1 h
          rfl
  | replyTimedOut kind =>
      obtain ⟨-, rfl | ⟨-, rfl⟩⟩ := path_onReplyTimeout h <;> rfl
  | registrationCompleted outcome =>
      obtain ⟨-, rfl⟩ := path_onRegistration h
      rfl
  | commandReceived request =>
      obtain ⟨-, -, rfl⟩ | ⟨-, s, first, outcome, reply, -, -, rfl⟩ := path_onCommand h
      · rfl
      · cases outcome.followUp <;> rfl
  | timerFired timer =>
      obtain ⟨-, ⟨-, rfl⟩ | ⟨-, rfl⟩⟩ := path_onTimer h <;> rfl
  | setTesting on =>
      obtain ⟨-, rfl | ⟨-, rfl⟩⟩ := path_setTesting h <;> rfl
  | factoryResetRequested | reportRequested | trigger event =>
      obtain ⟨-, rfl⟩ := path_done_iff.1 h
      rfl

end Engine

/-- A turn keeps the configuration. -/
theorem Turn.Happens.config {t : Turn} (ht : t.Happens)
    (hstart : t.input = .start → t.before.state ≠ .connected) :
    t.after.config = t.before.config := by
  rw [ht.drains.sameFacts.1.config]
  have hreceives := ht.receives
  cases hinput : t.input with
  | start =>
      rw [hinput] at hreceives
      obtain ⟨role, rest, -, ⟨-, h⟩ | ⟨-, -, h⟩ | ⟨-, -, -, h⟩⟩ :=
        Engine.path_startUp_cases (hstart hinput) hreceives
      · exact (Engine.path_onRole h).2.config
      · exact Engine.config_of_path_requestJoin h
      · rw [h]
  | event event =>
      rw [hinput] at hreceives
      exact Engine.config_of_path_apply hreceives

end MeshLight
