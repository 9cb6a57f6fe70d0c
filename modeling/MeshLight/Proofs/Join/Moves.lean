import MeshLight.Proofs.Engine.Calls

/-!
# MeshLight.Proofs.Join.Moves

What a turn does to joining. A log is read for the calls that joining makes (`JoinTrace`), and each
way in which an input can move the join is named, with the calls it makes (`JoinMove`). Work that
waits moves it in one way only: a factory reset takes the node off the network (`Turn.Wipes`), and
the inputs that ask for one do not move the join themselves. So a turn either wipes or makes one of
the moves (`Turn.Happens.join_cases`).
-/

namespace MeshLight

open Prog

/-! ## calls of joining -/

/-- The reading of the clock, if the call is one. -/
def Exchange.reading? : Exchange → Option Nat
  | ⟨.timer .now, now⟩ => some now
  | _ => none

/-- The answer to the start of an attempt to join, if the call is one. -/
def Exchange.start? : Exchange → Option (Except NetworkFault Unit)
  | ⟨.mesh .startJoiner, answer⟩ => some answer
  | _ => none

/-- The number of attempts after which a join is given up, if the call tells that. -/
def Exchange.giveUp? : Exchange → Option Nat
  | ⟨.emit (.joinGaveUp attempts), _⟩ => some attempts
  | _ => none

/-- What a log says about joining: the readings of the clock, the answers to the attempts that were
started, and after how many attempts a join was given up. -/
structure JoinTrace where
  readings : List Nat
  starts : List (Except NetworkFault Unit)
  giveUps : List Nat

namespace JoinTrace

def empty : JoinTrace := ⟨[], [], []⟩

def ofLog (log : List Exchange) : JoinTrace :=
  ⟨log.filterMap Exchange.reading?, log.filterMap Exchange.start?, log.filterMap Exchange.giveUp?⟩

theorem ofLog_append (first rest : List Exchange) :
    ofLog (first ++ rest) = ⟨(ofLog first).readings ++ (ofLog rest).readings,
      (ofLog first).starts ++ (ofLog rest).starts, (ofLog first).giveUps ++ (ofLog rest).giveUps⟩ := by
  simp [ofLog]

theorem ofLog_reading (now : Nat) (rest : List Exchange) :
    ofLog (⟨.timer .now, now⟩ :: rest) =
      { ofLog rest with readings := now :: (ofLog rest).readings } := rfl

theorem ofLog_start (answer : Except NetworkFault Unit) (rest : List Exchange) :
    ofLog (⟨.mesh .startJoiner, answer⟩ :: rest) =
      { ofLog rest with starts := answer :: (ofLog rest).starts } := rfl

/-- Whether a call is one that joining makes. -/
def isOfJoining : Call → Bool
  | .timer .now | .mesh .startJoiner | .emit (.joinGaveUp _) => true
  | _ => false

/-- Other calls say nothing about joining. -/
theorem ofLog_eq_empty {log : List Exchange} (h : ∀ x ∈ log, isOfJoining x.call = false) :
    ofLog log = empty := by
  have hnone : ∀ x ∈ log, x.reading? = none ∧ x.start? = none ∧ x.giveUp? = none := by
    intro x hx
    have hcall := h x hx
    unfold isOfJoining at hcall
    unfold Exchange.reading? Exchange.start? Exchange.giveUp?
    split at hcall <;> grind
  simp only [ofLog, empty, mk.injEq, List.filterMap_eq_nil_iff]
  exact ⟨fun x hx => (hnone x hx).1, fun x hx => (hnone x hx).2.1, fun x hx => (hnone x hx).2.2⟩

theorem ofLog_append_of_quiet {first rest : List Exchange} (h : ofLog rest = empty) :
    ofLog (first ++ rest) = ofLog first := by
  rw [ofLog_append, h]
  simp [empty]

end JoinTrace

open JoinTrace

theorem isOfJoining_of_mayCall {w : Work} {c : Call} (h : w.mayCall c = true) :
    isOfJoining c = false := by
  cases c with
  | board c => rfl
  | timer c => cases w <;> cases h
  | mesh c =>
      cases c with
      | startJoiner => cases w <;> cases h
      | _ => rfl
  | emit n =>
      cases n with
      | joinGaveUp attempts => cases w <;> cases h
      | _ => rfl

/-- Waiting work says nothing about joining. -/
theorem Engine.Drains.joinTrace {e e' : Engine} {tasks : List Task}
    (h : Engine.Drains e tasks e') : ofLog (tasks.flatMap Task.log) = empty := by
  refine ofLog_eq_empty fun x hx => ?_
  obtain ⟨task, htask, hx⟩ := List.mem_flatMap.1 hx
  exact isOfJoining_of_mayCall (h.mayCall task htask x hx)

theorem Turn.Happens.joinTrace_log {t : Turn} (ht : t.Happens) : ofLog t.log = ofLog t.opening :=
  ofLog_append_of_quiet ht.drains.joinTrace

/-! ## wiping -/

/-- The membership is wiped in this turn. -/
def Turn.Wipes (t : Turn) : Prop := Call.mesh .factoryReset ∈ t.log.map Exchange.call

instance (t : Turn) : Decidable t.Wipes := inferInstanceAs (Decidable (_ ∈ _))

namespace Engine

variable {e e' : Engine} {log : List Exchange}

/-- Work other than a factory reset leaves the join as it is. -/
theorem join_of_execute {w : Work} (h : Path (e.execute w) log e') :
    e'.join = e.join ∧ Call.mesh .factoryReset ∉ log.map Exchange.call ∨
      (∃ graceMs, w = .factoryReset graceMs) ∧ e'.join = e.join.reset ∧
        Call.mesh .factoryReset ∈ log.map Exchange.call := by
  have hnone (hw : w.mayCall (.mesh .factoryReset) = false) :
      Call.mesh .factoryReset ∉ log.map Exchange.call := by
    intro hmem
    obtain ⟨x, hx, hcall⟩ := List.mem_map.1 hmem
    have hmay := h.only (only_execute w e) x hx
    rw [hcall, hw] at hmay
    cases hmay
  by_cases hwipes : ∃ graceMs, w = .factoryReset graceMs
  · obtain ⟨graceMs, rfl⟩ := hwipes
    obtain ⟨rfl, answer, rfl⟩ := path_factoryReset h
    exact .inr ⟨⟨graceMs, rfl⟩, rfl, by simp⟩
  · refine .inl ⟨?_, hnone ?_⟩
    · cases alters_of_execute h with
      | wipes _ graceMs => exact absurd ⟨graceMs, rfl⟩ hwipes
      | nothing | asks | boosts | releases | registers => rfl
    · cases w with
      | factoryReset graceMs => exact absurd ⟨graceMs, rfl⟩ hwipes
      | _ => rfl

/-- All work leaves the join as it is, unless the membership is wiped. -/
theorem Drains.join {tasks : List Task} (h : Drains e tasks e') :
    e'.join = e.join ∧ Call.mesh .factoryReset ∉ (tasks.flatMap Task.log).map Exchange.call ∨
      (∃ task ∈ tasks, ∃ graceMs, task.work = .factoryReset graceMs) ∧ e'.join = e.join.reset ∧
        Call.mesh .factoryReset ∈ (tasks.flatMap Task.log).map Exchange.call := by
  induction h with
  | rest => exact .inl ⟨rfl, by simp⟩
  | @work e e' tasks task hnext hdone hrest ih =>
      obtain ⟨rest, -, hbefore⟩ := nextWork?_eq_some_iff.1 hnext
      have hpop : task.before.join = e.join := by rw [hbefore]
      rw [List.flatMap_cons, List.map_append, List.mem_append, ← hpop]
      obtain ⟨hjoin, hnone⟩ | ⟨hwork, hjoin, hsome⟩ := join_of_execute hdone
      · rw [hjoin] at ih
        obtain ⟨hkept, hrestnone⟩ | ⟨⟨later, hlater, hgrace⟩, hreset, hrestsome⟩ := ih
        · exact .inl ⟨hkept, not_or.2 ⟨hnone, hrestnone⟩⟩
        · exact .inr ⟨⟨later, List.mem_cons_of_mem _ hlater, hgrace⟩, hreset, .inr hrestsome⟩
      · refine .inr ⟨⟨task, List.mem_cons_self .., hwork⟩, ?_, .inl hsome⟩
        obtain ⟨hkept, -⟩ | ⟨-, hreset, -⟩ := ih
        · rw [hkept, hjoin]
        · rw [hreset, hjoin]
          rfl

end Engine

/-! ## moves -/

/-- Whether a turn asks for a join: it was requested, or the node starts off the network and is to
join by itself. -/
def Turn.AsksToJoin (t : Turn) : Prop :=
  t.input = .event .joinRequested ∨
    t.input = .start ∧ t.before.config.autoJoin = true ∧ t.role?.any Role.isAttached = false

/-- Whether a turn accepts a request to join. -/
def Turn.OpensJoin (t : Turn) : Prop :=
  t.AsksToJoin ∧ t.before.state ≠ .connected ∧ ∃ attempts, t.before.join.state = .idle attempts

/-- Whether a turn deals with the end of an attempt. -/
def Turn.endsAttempt (t : Turn) : Bool := t.input = .event (.joinerChanged .idle)

/-- The number of attempts that have ended once another one did. -/
def JoinAttempt.next (a : JoinAttempt) : Nat := min (a.count + 1) Join.countLimit

/-- The ways in which the input of a turn moves the join, with what is called for it. -/
inductive JoinMove (t : Turn) : JoinTrace → Join → Prop where
  | stays (readings : List Nat) (hopens : ¬t.OpensJoin)
      (hends : t.endsAttempt = true → t.before.join.isJoining = false) :
      JoinMove t ⟨readings, [], []⟩ t.before.join
  | succeeds (hopens : ¬t.OpensJoin) (hends : t.endsAttempt = false) :
      JoinMove t ⟨[], [], []⟩ t.before.join.succeed
  | begins (now : Nat) (hopens : t.OpensJoin) : JoinMove t ⟨[now], [.ok ()], []⟩
      { t.before.join with state := .joining ⟨0, now, now + t.before.join.timeout⟩ }
  | fails (now : Nat) (fault : NetworkFault) (hopens : t.OpensJoin) :
      JoinMove t ⟨[now], [.error fault], []⟩ { t.before.join with state := .idle 0 }
  | retries (now : Nat) (a : JoinAttempt) (hends : t.endsAttempt = true)
      (hjoining : t.before.join.state = .joining a) (htime : now ≤ a.deadline)
      (hcount : a.next < t.before.join.maxAttempts) : JoinMove t ⟨[now], [.ok ()], []⟩
        { t.before.join with state := .joining { a with count := a.next } }
  | abandons (now : Nat) (a : JoinAttempt) (fault : NetworkFault) (hends : t.endsAttempt = true)
      (hjoining : t.before.join.state = .joining a) (htime : now ≤ a.deadline)
      (hcount : a.next < t.before.join.maxAttempts) :
      JoinMove t ⟨[now], [.error fault], []⟩ { t.before.join with state := .idle a.next }
  | givesUp (now : Nat) (a : JoinAttempt) (hends : t.endsAttempt = true)
      (hjoining : t.before.join.state = .joining a)
      (hlimit : a.deadline < now ∨ t.before.join.maxAttempts ≤ a.next) :
      JoinMove t ⟨[now], [], [a.next]⟩ { t.before.join with state := .idle a.next }

namespace Engine

variable {e e' : Engine} {log : List Exchange}

/-- Following the facts says nothing about joining. -/
theorem joinTrace_sync (h : Path e.sync log e') : ofLog log = empty ∧ e'.join = e.join := by
  have hother : e.sync.Only fun c => !isOfJoining c := only_sync e fun _ _ => rfl
  exact ⟨ofLog_eq_empty fun x hx => by simpa using h.only hother x hx, (path_sync h).2.join⟩

end Engine

/-! ## requests -/

variable {t : Turn} {e' : Engine} {log : List Exchange}

theorem joinMove_requestJoin (hasks : t.AsksToJoin) (hends : t.endsAttempt = false)
    (h : Path t.before.requestJoin log e') : JoinMove t (ofLog log) e'.join := by
  obtain ⟨hs, rfl, rfl⟩ | ⟨hs, now, rest, rfl, ⟨⟨refusal, hrefused⟩, rfl, rfl⟩ |
    ⟨join, answer, last, hbegins, rfl, hanswer⟩⟩ := Engine.path_requestJoin_cases h
  · exact .stays [] (fun hopens => hopens.2.1 hs) (by simp [hends])
  · refine .stays [now] (fun hopens => ?_) (by simp [hends])
    obtain ⟨-, -, attempts, hidle⟩ := hopens
    simp [Join.begin, hidle] at hrefused
  · have hidle : (∃ attempts, t.before.join.state = .idle attempts) ∧ join =
        { t.before.join with state := .joining ⟨0, now, now + t.before.join.timeout⟩ } := by
      unfold Join.begin at hbegins
      split at hbegins
      · cases hbegins
      · cases hbegins
      · next attempts hstate => exact ⟨⟨attempts, hstate⟩, (Except.ok.inj hbegins).symm⟩
    obtain ⟨hidle, rfl⟩ := hidle
    have hopens : t.OpensJoin := ⟨hasks, hs, hidle⟩
    rw [ofLog_reading, ofLog_start]
    obtain ⟨rfl, hsync⟩ | ⟨⟨fault, rfl⟩, hsync⟩ := hanswer
    · obtain ⟨hlast, hjoin⟩ := Engine.joinTrace_sync hsync
      rw [hlast, hjoin]
      exact .begins now hopens
    · obtain ⟨hlast, hjoin⟩ := Engine.joinTrace_sync hsync
      rw [hlast, hjoin]
      exact .fails now fault hopens

/-! ## ends of attempts -/

theorem joinMove_onJoinerIdle (hends : t.endsAttempt = true)
    (h : Path t.before.onJoinerIdle log e') : JoinMove t (ofLog log) e'.join := by
  have hopens : ¬t.OpensJoin := by
    intro hopens
    have hinput : t.input = .event (.joinerChanged .idle) := of_decide_eq_true hends
    obtain ⟨hinput' | ⟨hinput', -⟩, -⟩ := hopens <;> rw [hinput] at hinput' <;> cases hinput'
  obtain ⟨now, rest, rfl, hended⟩ := Engine.path_onJoinerIdle_cases h
  rw [ofLog_reading]
  cases hstate : t.before.join.state with
  | joining a =>
      by_cases hlimit : a.deadline < now ∨ t.before.join.maxAttempts ≤ a.next
      · have hdecision : t.before.join.attemptEnded now =
            (.giveUp a.next, { t.before.join with state := .idle a.next }) := by
          simp only [Join.attemptEnded, hstate]
          exact if_pos hlimit
        rw [hdecision] at hended
        obtain ⟨rfl, rfl⟩ := hended
        exact .givesUp now a hends hstate hlimit
      · have hdecision : t.before.join.attemptEnded now = (.retry a.next,
            { t.before.join with state := .joining { a with count := a.next } }) := by
          simp only [Join.attemptEnded, hstate]
          exact if_neg hlimit
        rw [hdecision] at hended
        obtain ⟨htime, hcount⟩ := not_or.1 hlimit
        obtain ⟨answer, rfl, ⟨rfl, rfl⟩ | ⟨⟨fault, rfl⟩, rfl⟩⟩ := hended
        · exact .retries now a hends hstate (Nat.le_of_not_lt htime) (Nat.lt_of_not_le hcount)
        · exact .abandons now a fault hends hstate (Nat.le_of_not_lt htime)
            (Nat.lt_of_not_le hcount)
  | idle attempts | joined =>
      have hignored : t.before.join.attemptEnded now = (.ignore, t.before.join) := by
        simp only [Join.attemptEnded, hstate]
      rw [hignored] at hended
      obtain ⟨rfl, rfl⟩ := hended
      exact .stays [now] hopens fun _ => by simp [Join.isJoining, hstate]

/-! ## what moves tell -/

/-- A join that comes to be in progress was accepted in this turn. -/
theorem JoinMove.opensJoin {trace : JoinTrace} {j : Join} (h : JoinMove t trace j)
    (hbefore : t.before.join.isJoining = false) (hafter : j.isJoining = true) : t.OpensJoin := by
  cases h with
  | begins now hopens | fails now fault hopens => exact hopens
  | stays => rw [hbefore] at hafter; cases hafter
  | succeeds => cases hafter
  | retries now a _ ha | abandons now a _ _ ha | givesUp now a _ ha =>
      rw [Join.isJoining, ha] at hbefore
      cases hbefore

/-- An attempt is started for a join that is accepted in this turn or is in progress already. -/
theorem JoinMove.of_starts {trace : JoinTrace} {j : Join} (h : JoinMove t trace j)
    (hstarts : trace.starts ≠ []) : t.OpensJoin ∨ t.before.join.isJoining = true := by
  cases h with
  | begins now hopens | fails now fault hopens => exact .inl hopens
  | retries now a _ ha | abandons now a _ _ ha =>
      rw [Join.isJoining, ha]
      exact .inr rfl
  | stays | succeeds | givesUp => exact absurd rfl hstarts

/-! ## all inputs -/

/-- Whether an input is about joining or the role. -/
def Input.movesJoin : Input → Bool
  | .start | .event (.roleChanged _) | .event (.joinerChanged _) | .event .joinRequested => true
  | _ => false

theorem isOfJoining_of_movesJoin {input : Input} {c : Call} (hinput : input.movesJoin = false)
    (h : input.mayCall c = true) : isOfJoining c = false := by
  unfold Input.mayCall at h
  split at h <;> first | rfl | exact Bool.noConfusion h | simp_all [Input.movesJoin]

/-- Other events leave the join, and what the session knows of it, as they are. -/
theorem Engine.join_of_apply {e : Engine} {event : Event}
    (hevent : (Input.event event).movesJoin = false) (h : Path (e.apply event) log e') :
    e'.join = e.join ∧ e'.session.joinActive = e.session.joinActive := by
  cases event with
  | reply kind payload =>
      cases kind with
      | provisioning =>
          obtain ⟨-, ⟨-, address, -, rfl⟩ | ⟨-, rfl⟩⟩ := path_onProvisioningReply h <;>
            exact ⟨rfl, rfl⟩
      | status | trigger =>
          obtain ⟨-, rfl⟩ := path_done_iff.1 h
          exact ⟨rfl, rfl⟩
  | replyTimedOut kind =>
      obtain ⟨-, rfl | ⟨-, rfl⟩⟩ := path_onReplyTimeout h <;> exact ⟨rfl, rfl⟩
  | registrationCompleted outcome =>
      obtain ⟨-, rfl⟩ := path_onRegistration h
      exact ⟨rfl, rfl⟩
  | commandReceived request =>
      obtain ⟨-, -, rfl⟩ | ⟨-, s, first, outcome, reply, hdispatched, -, rfl⟩ := path_onCommand h
      · exact ⟨rfl, rfl⟩
      · rw [hdispatched.session]
        cases outcome.followUp <;> exact ⟨rfl, rfl⟩
  | timerFired timer =>
      obtain ⟨-, ⟨-, rfl⟩ | ⟨-, rfl⟩⟩ := path_onTimer h <;> exact ⟨rfl, rfl⟩
  | setTesting on =>
      obtain ⟨-, rfl | ⟨-, rfl⟩⟩ := path_setTesting h <;> exact ⟨rfl, rfl⟩
  | factoryResetRequested | reportRequested | trigger event =>
      obtain ⟨-, rfl⟩ := path_done_iff.1 h
      exact ⟨rfl, rfl⟩
  | roleChanged | joinerChanged | joinRequested => cases hevent

theorem not_opensJoin_of_event {event : Event} (hinput : t.input = .event event)
    (hevent : event ≠ .joinRequested) : ¬t.OpensJoin := by
  intro hopens
  obtain ⟨hinput' | ⟨hinput', -⟩, -⟩ := hopens
  · exact hevent (Input.event.inj (hinput.symm.trans hinput'))
  · rw [hinput] at hinput'
    cases hinput'

theorem endsAttempt_of_event {event : Event} (hinput : t.input = .event event)
    (hevent : event ≠ .joinerChanged .idle) : t.endsAttempt = false := by
  simpa [Turn.endsAttempt, hinput] using hevent

/-- An input that is not about joining or the role has no part in the join. -/
theorem Turn.Happens.join_applied (ht : t.Happens) (hmoves : t.input.movesJoin = false) :
    ¬t.OpensJoin ∧ t.endsAttempt = false ∧ ofLog t.opening = empty ∧
      t.applied.join = t.before.join ∧
      t.applied.session.joinActive = t.before.session.joinActive := by
  have hreceives := ht.receives
  have hquiet : ofLog t.opening = empty := ofLog_eq_empty fun x hx =>
    isOfJoining_of_movesJoin hmoves (hreceives.only (Engine.only_receive _ _) x hx)
  cases hinput : t.input with
  | start => rw [hinput] at hmoves; cases hmoves
  | event event =>
      rw [hinput] at hreceives hmoves
      refine ⟨not_opensJoin_of_event hinput fun hevent => ?_,
        endsAttempt_of_event hinput fun hevent => ?_, hquiet,
        Engine.join_of_apply hmoves hreceives⟩
      · rw [hevent] at hmoves
        cases hmoves
      · rw [hevent] at hmoves
        cases hmoves

/-- The input of a turn moves the join in one of the named ways. -/
theorem Turn.Happens.joinMove (ht : t.Happens)
    (hstart : t.input = .start → t.before.state ≠ .connected) :
    JoinMove t (ofLog t.opening) t.applied.join := by
  have h := ht.receives
  cases hinput : t.input with
  | start =>
      have hends : t.endsAttempt = false := by simp [Turn.endsAttempt, hinput]
      rw [hinput] at h
      obtain ⟨role, rest, hlog, hcases⟩ := Engine.path_startUp_cases (hstart hinput) h
      have hrole : t.role? = some role := by
        unfold Turn.role?
        rw [hinput, hlog]
        rfl
      have htrace : ofLog t.opening = ofLog rest := by
        rw [hlog]
        rfl
      have hasks : t.AsksToJoin ↔ t.before.config.autoJoin = true ∧ role.isAttached = false := by
        simp [Turn.AsksToJoin, hinput, hrole]
      rw [htrace]
      obtain ⟨ha, hsync⟩ | ⟨ha, hauto, hrequest⟩ | ⟨ha, hauto, rfl, happlied⟩ := hcases
      · obtain ⟨hquiet, hjoin⟩ := Engine.joinTrace_sync hsync
        rw [hquiet, hjoin, if_pos ha]
        refine .succeeds (fun hopens => ?_) hends
        rw [(hasks.1 hopens.1).2] at ha
        cases ha
      · exact joinMove_requestJoin (hasks.2 ⟨hauto, ha⟩) hends hrequest
      · rw [happlied]
        refine .stays [] (fun hopens => ?_) (by simp [hends])
        rw [(hasks.1 hopens.1).1] at hauto
        cases hauto
  | event event =>
      cases hmoves : t.input.movesJoin with
      | false =>
          obtain ⟨hopens, hends, hquiet, hjoin, -⟩ := ht.join_applied hmoves
          rw [hquiet, hjoin]
          exact .stays [] hopens (by simp [hends])
      | true =>
          rw [hinput] at h hmoves
          cases event with
          | roleChanged role =>
              have hopens := not_opensJoin_of_event hinput (by simp)
              have hends := endsAttempt_of_event hinput (by simp)
              obtain ⟨hquiet, hjoin⟩ := Engine.joinTrace_sync h
              rw [hquiet, hjoin]
              cases ha : role.isAttached with
              | true =>
                  rw [if_pos rfl]
                  exact .succeeds hopens hends
              | false =>
                  rw [if_neg Bool.false_ne_true]
                  exact .stays [] hopens (by simp [hends])
          | joinRequested =>
              have hends := endsAttempt_of_event hinput (by simp)
              exact joinMove_requestJoin (.inl hinput) hends h
          | joinerChanged state =>
              have hopens := not_opensJoin_of_event hinput (by simp)
              cases state with
              | idle =>
                  have hends : t.endsAttempt = true := by simp [Turn.endsAttempt, hinput]
                  simp only [Engine.receive, Engine.apply, Engine.onJoiner, path_bind_iff] at h
                  obtain ⟨e₁, first, rest, hlog, hidle, hsync⟩ := h
                  obtain ⟨hquiet, hjoin⟩ := Engine.joinTrace_sync hsync
                  rw [hlog, ofLog_append_of_quiet hquiet, hjoin]
                  exact joinMove_onJoinerIdle hends hidle
              | joined =>
                  have hends := endsAttempt_of_event hinput (by simp)
                  obtain ⟨hquiet, hjoin⟩ := Engine.joinTrace_sync h
                  rw [hquiet, hjoin]
                  exact .succeeds hopens hends
              | discover | connect | connected | entrust =>
                  have hends := endsAttempt_of_event hinput (by simp)
                  obtain ⟨hquiet, hjoin⟩ := Engine.joinTrace_sync h
                  rw [hquiet, hjoin]
                  exact .stays [] hopens (by simp [hends])
          | _ => cases hmoves

/-- A turn wipes, and then its input does not touch the join, or its input moves the join in one of
the named ways and no work changes that. -/
theorem Turn.Happens.join_cases (ht : t.Happens) (hidle : t.before.session.work.items = [])
    (hstart : t.input = .start → t.before.state ≠ .connected) :
    t.Wipes ∧ t.input.movesJoin = false ∧ ofLog t.log = empty ∧
        t.after.join = t.before.join.reset ∨
      ¬t.Wipes ∧ t.after.join = t.applied.join ∧ JoinMove t (ofLog t.log) t.after.join := by
  have hopening : Call.mesh .factoryReset ∉ t.opening.map Exchange.call := by
    intro hmem
    obtain ⟨x, hx, hcall⟩ := List.mem_map.1 hmem
    have hmay := ht.receives.only (Engine.only_receive _ _) x hx
    rw [hcall] at hmay
    unfold Input.mayCall at hmay
    split at hmay <;> simp_all
  have hwipes : t.Wipes ↔ Call.mesh .factoryReset ∈ (t.tasks.flatMap Task.log).map Exchange.call := by
    rw [Turn.Wipes, Turn.log, List.map_append, List.mem_append, or_iff_right hopening]
  rw [hwipes, ht.joinTrace_log]
  obtain ⟨hjoin, hkeeps⟩ | ⟨⟨task, htask, graceMs, hwork⟩, hjoin, hwiped⟩ := ht.drains.join
  · rw [hjoin]
    exact .inr ⟨hkeeps, rfl, ht.joinMove hstart⟩
  · -- only a command or a request asks for a reset, and neither is about joining
    have hasked := ht.work_cases hidle hstart htask
    rw [hwork] at hasked
    have hmoves : t.input.movesJoin = false := by
      cases hinput : t.input with
      | start => rw [hinput] at hasked; cases hasked <;> contradiction
      | event event =>
          rw [hinput] at hasked
          cases event with
          | roleChanged | joinerChanged | joinRequested => cases hasked <;> contradiction
          | _ => rfl
    obtain ⟨-, -, hquiet, happlied, -⟩ := ht.join_applied hmoves
    rw [hjoin, happlied]
    exact .inl ⟨hwiped, hmoves, hquiet, rfl⟩

end MeshLight
