import MeshLight.Proofs.Engine.Calls
import MeshLight.Proofs.Sending

/-!
# MeshLight.Proofs.Session.PollPeriod

The poll period of the stack, as long as the stack accepts every period that it is given and nothing
but the engine sets it (`Polls`). Then the boost and the period always fit together (`Owes`): either
no boost is held and the period is the one from before, or the boost remembers that period and the
faster one is set. A boost is taken only when the question for the coordinator's address is sent.
An event asks for that at most once, so a question that could not be sent is not followed by another
that would take the boost again.
-/

namespace MeshLight

open Prog

/-! ## the period of the stack -/

/-- Whether a call sets the poll period. -/
def Call.setsPoll : Call → Bool
  | .mesh (.setPollPeriod _) => true
  | _ => false

theorem Call.eq_of_setsPoll {c : Call} (h : c.setsPoll = true) :
    ∃ ms, c = .mesh (.setPollPeriod ms) := by
  unfold setsPoll at h
  split at h
  · exact ⟨_, rfl⟩
  · cases h

/-- Calls set no poll period if they may make none that does. -/
theorem setsPoll_of_test {test : Call → Bool} {log : List Exchange}
    (h : ∀ x ∈ log, test x.call = true) (hset : ∀ ms, test (.mesh (.setPollPeriod ms)) = false) :
    ∀ x ∈ log, x.call.setsPoll = false := by
  intro x hx
  refine Bool.eq_false_iff.2 fun hsets => ?_
  obtain ⟨ms, hcall⟩ := Call.eq_of_setsPoll hsets
  have hpass := h x hx
  rw [hcall, hset ms] at hpass
  cases hpass

/-- The stack tells the poll period that was set last and accepts each new one. It is `p` before the
log and `p'` after it. -/
def Polls : List Exchange → UInt32 → UInt32 → Prop
  | [], p, p' => p' = p
  | ⟨.mesh .pollPeriod, current⟩ :: rest, p, p' => current = p ∧ Polls rest p p'
  | ⟨.mesh (.setPollPeriod ms), answer⟩ :: rest, _, p' => answer = .ok () ∧ Polls rest ms p'
  | _ :: rest, p, p' => Polls rest p p'

section

variable {log : List Exchange} {p p' : UInt32}

/-- Calls that are not about the poll period leave it alone. -/
theorem polls_cons_of_ne {c : Call} {answer : c.Answer} (hask : c ≠ .mesh .pollPeriod)
    (hset : c.setsPoll = false) : Polls (⟨c, answer⟩ :: log) p p' ↔ Polls log p p' := by
  cases c with
  | mesh c =>
      cases c with
      | pollPeriod => exact absurd rfl hask
      | setPollPeriod => cases hset
      | _ => exact .rfl
  | board c | timer c | emit c => exact .rfl

theorem polls_append_iff {first rest : List Exchange} :
    Polls (first ++ rest) p p' ↔ ∃ mid, Polls first p mid ∧ Polls rest mid p' := by
  induction first generalizing p with
  | nil => simp [Polls]
  | cons x first ih =>
      obtain ⟨c, answer⟩ := x
      by_cases hask : c = .mesh .pollPeriod
      · subst hask
        simp only [List.cons_append, Polls, ih, and_assoc, exists_and_left]
      · cases hset : c.setsPoll with
        | false => simp only [List.cons_append, polls_cons_of_ne hask hset, ih]
        | true =>
            obtain ⟨ms, rfl⟩ := Call.eq_of_setsPoll hset
            simp only [List.cons_append, Polls, ih, and_assoc, exists_and_left]

/-- A log in which the poll period is not set leaves it as it is. -/
theorem Polls.eq_of_setsPoll (h : Polls log p p') (hset : ∀ x ∈ log, x.call.setsPoll = false) :
    p' = p := by
  induction log generalizing p with
  | nil => exact h
  | cons x log ih =>
      obtain ⟨c, answer⟩ := x
      have hrest := fun x hx => hset x (List.mem_cons_of_mem _ hx)
      by_cases hask : c = .mesh .pollPeriod
      · subst hask
        exact ih h.2 hrest
      · exact ih ((polls_cons_of_ne hask (hset _ List.mem_cons_self)).1 h) hrest

end

/-- The surroundings hold a poll period, which they tell, and which nothing but a call that sets it
changes. Such a call never fails. -/
structure KeepsPoll (answer : (c : Call) → σ → c.Answer × σ) (period : σ → UInt32) : Prop where
  ask : ∀ s, (answer (.mesh .pollPeriod) s).1 = period s
  set : ∀ ms s, (answer (.mesh (.setPollPeriod ms)) s).1 = .ok () ∧
    period (answer (.mesh (.setPollPeriod ms)) s).2 = ms
  other : ∀ c s, c.setsPoll = false → period (answer c s).2 = period s

theorem KeepsPoll.polls {answer : (c : Call) → σ → c.Answer × σ} {period : σ → UInt32}
    (h : KeepsPoll answer period) (p : Prog α) (s : σ) :
    Polls (p.exchanges answer s) (period s) (period (p.run answer s).2) := by
  induction p generalizing s with
  | done a => rfl
  | call c next ih =>
      have hrest := ih (answer c s).1 (answer c s).2
      by_cases hask : c = .mesh .pollPeriod
      · subst hask
        rw [h.other _ s rfl] at hrest
        exact ⟨h.ask s, hrest⟩
      · cases hset : c.setsPoll with
        | false =>
            rw [h.other c s hset] at hrest
            exact (polls_cons_of_ne hask hset).2 hrest
        | true =>
            obtain ⟨ms, rfl⟩ := Call.eq_of_setsPoll hset
            rw [(h.set ms s).2] at hrest
            exact ⟨(h.set ms s).1, hrest⟩

theorem Host.keepsPoll : KeepsPoll Host.answer fun h => h.stack.pollPeriod where
  ask _ := rfl
  set _ _ := ⟨rfl, rfl⟩
  other c h hset := by
    cases c with
    | mesh c =>
        cases c with
        | setPollPeriod => cases hset
        | startJoiner | setHostName =>
            simp only [Host.answer, Stack.answer]
            split <;> rfl
        | addService service =>
            simp only [Host.answer, Stack.answer, Stack.addService]
            split <;> rfl
        | _ => rfl
    | board c | timer c | emit c => rfl

/-! ## boost and period -/

/-- The boost and the poll period fit together, given the faster period and the one from before:
a boost that is held remembers the latter. -/
inductive Owes (boosted before : UInt32) : PollBoost → UInt32 → Prop where
  | nothing : Owes boosted before .none before
  | period : Owes boosted before ⟨some before⟩ boosted

namespace PollBoost

variable {boosted before p p' : UInt32} {b b' : PollBoost} {log : List Exchange}

/-- Restoring gives the period back. -/
theorem period_of_restore (h : Owes boosted before b p) (hrestore : Path b.restore log b')
    (hpolls : Polls log p p') : b' = .none ∧ p' = before := by
  obtain ⟨hnone, ⟨rfl, rfl⟩ | ⟨saved, answer, hsaved, rfl⟩⟩ := path_restore hrestore
  · refine ⟨hnone, ?_⟩
    cases h
    exact hpolls
  · refine ⟨hnone, ?_⟩
    cases h with
    | nothing => cases hsaved
    | period =>
        cases hsaved
        exact hpolls.2

/-- Engaging remembers the period that it replaces. -/
theorem owes_of_engage (h : Owes boosted before b p) (hengage : Path (b.engage boosted) log b')
    (hpolls : Polls log p p') : Owes boosted before b' p' := by
  obtain ⟨mode, ⟨rfl, -, rfl⟩ | ⟨current, answer, hneeded, rfl, hanswer⟩⟩ := path_engage hengage
  · rw [show p' = p from hpolls]
    exact h
  · obtain ⟨rfl, rfl, rfl⟩ : current = p ∧ answer = .ok () ∧ p' = boosted := hpolls
    cases h with
    | period => simp [isHeld] at hneeded
    | nothing =>
        obtain ⟨-, rfl⟩ | ⟨⟨fault, hfault⟩, -⟩ := hanswer
        · exact .period
        · cases hfault

/-- Engaging sends nothing. -/
theorem not_mem_of_engage {request : Request} {answer : Except TransportFault Unit}
    (h : Path (b.engage boosted) log b') : ⟨.mesh (.send request), answer⟩ ∉ log := by
  intro hmem
  have hnone := requests_eq_nil_iff.1 (Engine.requests_engage h) _ hmem
  cases hnone

end PollBoost

/-! ## work -/

namespace Engine

variable {before p p' : UInt32} {e e' : Engine} {log : List Exchange}

theorem owes_of_sendProvisioning (h : Owes e.config.boostedPollPeriodMs before e.boost p)
    (hpath : Path e.sendProvisioning log e') (hpolls : Polls log p p') :
    Owes e.config.boostedPollPeriodMs before e'.boost p' := by
  obtain ⟨-, rfl, rfl⟩ | ⟨-, first, boost, answer, rest, rfl, hengage, hsent⟩ :=
    path_sendProvisioning hpath
  · rw [show p' = p from hpolls]
    exact h
  · obtain ⟨mid, hfirst, hrest⟩ := polls_append_iff.1 hpolls
    have hmid := PollBoost.owes_of_engage h hengage hfirst
    obtain ⟨-, rfl, rfl⟩ | ⟨-, hrestore, rfl⟩ := hsent
    · rw [show p' = mid from hrest]
      exact hmid
    · obtain ⟨-, rfl⟩ := PollBoost.period_of_restore hmid hrestore hrest
      exact .nothing

/-- Work that neither asks for the coordinator nor releases the boost leaves the boost alone. -/
theorem boost_of_execute {w : Work} (h : Path (e.execute w) log e') (hask : w ≠ .sendProvisioning)
    (hrelease : w ≠ .releasePollBoost) : e'.boost = e.boost := by
  cases alters_of_execute h with
  | boosts => exact absurd rfl hask
  | releases => exact absurd rfl hrelease
  | nothing | asks | registers | wipes => rfl

theorem owes_of_execute {w : Work} (h : Owes e.config.boostedPollPeriodMs before e.boost p)
    (hpath : Path (e.execute w) log e') (hpolls : Polls log p p') :
    Owes e.config.boostedPollPeriodMs before e'.boost p' := by
  by_cases hask : w = .sendProvisioning
  · subst hask
    exact owes_of_sendProvisioning h hpath hpolls
  · by_cases hrelease : w = .releasePollBoost
    · subst hrelease
      obtain ⟨rfl, hrestore⟩ := path_restorePoll hpath
      obtain ⟨-, rfl⟩ := PollBoost.period_of_restore h hrestore hpolls
      exact .nothing
    · have hset : ∀ x ∈ log, x.call.setsPoll = false := by
        refine setsPoll_of_test (hpath.only (only_execute w e)) fun ms => ?_
        cases w <;> first | rfl | exact absurd rfl hask | exact absurd rfl hrelease
      rw [hpolls.eq_of_setsPoll hset, boost_of_execute hpath hask hrelease]
      exact h

theorem owes_of_drains {tasks : List Task} (h : Owes e.config.boostedPollPeriodMs before e.boost p)
    (hdrains : Drains e tasks e') (hpolls : Polls (tasks.flatMap Task.log) p p') :
    Owes e.config.boostedPollPeriodMs before e'.boost p' := by
  induction hdrains generalizing p with
  | rest hnone =>
      rw [show p' = p from hpolls]
      exact h
  | @work e e' _ task hnext hdone hrest ih =>
      obtain ⟨rest, -, hbefore⟩ := nextWork?_eq_some_iff.1 hnext
      have hpop : task.before.config = e.config ∧ task.before.boost = e.boost := by
        rw [hbefore]
        exact ⟨rfl, rfl⟩
      have hconfig : task.after.config = e.config := by rw [(path_execute hdone).1.config, hpop.1]
      obtain ⟨mid, hfirst, hlater⟩ := polls_append_iff.1 hpolls
      rw [← hpop.1, ← hpop.2] at h
      have hmid := owes_of_execute h hdone hfirst
      rw [hpop.1, ← hconfig] at hmid
      rw [← hconfig]
      exact ih hmid hlater

/-! ## events -/

/-- What applying an event means for the boost: it is left alone, or restored before anything else
is done. -/
theorem boost_of_apply {event : Event} (h : Path (e.apply event) log e') :
    ∃ first rest, log = first ++ rest ∧ (∀ x ∈ rest, x.call.setsPoll = false) ∧
      (first = [] ∧ e'.boost = e.boost ∨ Path e.boost.restore first .none ∧ e'.boost = .none) := by
  have hquiet (hset : ∀ ms, (Input.event event).mayCall (.mesh (.setPollPeriod ms)) = false) :
      ∀ x ∈ log, x.call.setsPoll = false :=
    setsPoll_of_test (h.only (only_apply event e)) hset
  cases event with
  | reply kind payload =>
      cases kind with
      | provisioning =>
          obtain ⟨first, hrestore, ⟨-, address, -, rfl, rfl⟩ | ⟨-, rfl, rfl⟩⟩ :=
            path_onProvisioningReply_cases h
          · exact ⟨first, _, rfl, by simp [Call.setsPoll], .inr ⟨hrestore, rfl⟩⟩
          · exact ⟨log, [], (List.append_nil log).symm, by simp, .inr ⟨hrestore, rfl⟩⟩
      | status | trigger =>
          obtain ⟨rfl, rfl⟩ := path_done_iff.1 h
          exact ⟨[], [], rfl, by simp, .inl ⟨rfl, rfl⟩⟩
  | replyTimedOut kind =>
      cases kind with
      | provisioning =>
          obtain ⟨rfl, hboost⟩ := path_restorePoll h
          exact ⟨log, [], (List.append_nil log).symm, by simp, .inr ⟨hboost, rfl⟩⟩
      | status | trigger =>
          obtain ⟨rfl, rfl⟩ := path_done_iff.1 h
          exact ⟨[], [], rfl, by simp, .inl ⟨rfl, rfl⟩⟩
  | roleChanged role =>
      exact ⟨[], log, rfl, hquiet fun _ => rfl, .inl ⟨rfl, (path_onRole h).2.boost⟩⟩
  | joinerChanged state =>
      obtain ⟨-, e₁, hstep, hfollow⟩ := path_onJoiner h
      exact ⟨[], log, rfl, hquiet fun _ => by cases state <;> rfl,
        .inl ⟨rfl, hfollow.boost.trans hstep.sameFacts.2.1⟩⟩
  | joinRequested =>
      refine ⟨[], log, rfl, hquiet fun _ => rfl, .inl ⟨rfl, ?_⟩⟩
      obtain ⟨-, rfl | ⟨e₁, hstep, hfollow⟩⟩ := path_requestJoin h
      · rfl
      · exact hfollow.boost.trans hstep.sameFacts.2.1
  | registrationCompleted outcome =>
      obtain ⟨-, rfl⟩ := path_onRegistration h
      exact ⟨[], log, rfl, hquiet fun _ => rfl, .inl ⟨rfl, rfl⟩⟩
  | commandReceived request =>
      refine ⟨[], log, rfl, hquiet fun _ => rfl, .inl ⟨rfl, ?_⟩⟩
      obtain ⟨-, -, rfl⟩ | ⟨-, s, first, outcome, reply, -, -, rfl⟩ := path_onCommand h
      · rfl
      · cases outcome.followUp <;> rfl
  | timerFired timer =>
      refine ⟨[], log, rfl, hquiet fun _ => by cases timer <;> rfl, .inl ⟨rfl, ?_⟩⟩
      obtain ⟨-, ⟨-, rfl⟩ | ⟨-, rfl⟩⟩ := path_onTimer h <;> rfl
  | setTesting on =>
      refine ⟨[], log, rfl, hquiet fun _ => rfl, .inl ⟨rfl, ?_⟩⟩
      obtain ⟨-, rfl | ⟨-, rfl⟩⟩ := path_setTesting h <;> rfl
  | factoryResetRequested | reportRequested | trigger event =>
      obtain ⟨rfl, rfl⟩ := path_done_iff.1 h
      exact ⟨[], [], rfl, by simp, .inl ⟨rfl, rfl⟩⟩

theorem owes_of_apply {event : Event} (h : Owes e.config.boostedPollPeriodMs before e.boost p)
    (hpath : Path (e.apply event) log e') (hpolls : Polls log p p') :
    Owes e.config.boostedPollPeriodMs before e'.boost p' := by
  obtain ⟨first, rest, rfl, hset, ⟨rfl, hboost⟩ | ⟨hrestore, hboost⟩⟩ := boost_of_apply hpath
  · rw [hpolls.eq_of_setsPoll hset, hboost]
    exact h
  · obtain ⟨mid, hfirst, hrest⟩ := polls_append_iff.1 hpolls
    obtain ⟨-, rfl⟩ := PollBoost.period_of_restore h hrestore hfirst
    rw [hrest.eq_of_setsPoll hset, hboost]
    exact .nothing

/-- Starting neither takes nor releases a boost. -/
theorem boost_of_startUp (hs : e.state ≠ .connected) (h : Path e.startUp log e') :
    e'.boost = e.boost ∧ ∀ x ∈ log, x.call.setsPoll = false := by
  refine ⟨?_, setsPoll_of_test (h.only (only_startUp e)) fun _ => rfl⟩
  obtain ⟨-, role, rest, -, ⟨-, hfollow⟩ | ⟨-, rfl | ⟨e₁, hstep, hfollow⟩⟩⟩ := path_startUp hs h
  · exact hfollow.boost
  · rfl
  · exact hfollow.boost.trans hstep.sameFacts.2.1

/-! ## releases -/

/-- Only the question for the coordinator's address is sent by the work that asks it. -/
theorem eq_of_provisioning_mem {w : Work} (h : Path (e.execute w) log e')
    (hmem : Provisioning.request ∈ requests log) : w = .sendProvisioning := by
  cases w with
  | sendProvisioning => rfl
  | reportStatus =>
      obtain ⟨-, rfl, -⟩ | ⟨-, ⟨-, rfl, -⟩ | ⟨peer, -, hsend⟩⟩ := path_reportStatus h
      · cases hmem
      · cases hmem
      · obtain ⟨-, id, readings, hlog⟩ := requests_sendReport hsend
        rw [hlog, List.mem_singleton] at hmem
        cases hmem
  | emitTrigger event =>
      obtain ⟨-, rfl, -⟩ | ⟨-, ⟨-, -, rfl, -⟩ | ⟨route, -, hsend⟩⟩ := path_emitTrigger h
      · cases hmem
      · cases hmem
      · obtain ⟨-, id, hlog⟩ := requests_sendAlong hsend
        rw [hlog, List.mem_singleton] at hmem
        cases hmem
  | _ =>
      obtain ⟨hlog, -⟩ | ⟨hone, -⟩ := requests_execute h
      · rw [hlog] at hmem
        cases hmem
      · cases hone

/-- A boost is taken only when something is sent. -/
theorem boost_of_quiet_execute {w : Work} (h : Path (e.execute w) log e') (hb : e.boost = .none)
    (hquiet : requests log = []) : e'.boost = .none := by
  by_cases hask : w = .sendProvisioning
  · subst hask
    obtain ⟨-, -, rfl⟩ | ⟨-, first, boost, answer, rest, rfl, -, -⟩ := path_sendProvisioning h
    · exact hb
    · simp [Call.request?] at hquiet
  · by_cases hrelease : w = .releasePollBoost
    · subst hrelease
      rw [(path_restorePoll h).1]
    · rw [boost_of_execute h hask hrelease, hb]

theorem boost_of_quiet_drains {tasks : List Task} (h : Drains e tasks e') (hb : e.boost = .none)
    (hquiet : requests (tasks.flatMap Task.log) = []) : e'.boost = .none := by
  induction h with
  | rest => exact hb
  | @work e _ _ task hnext hdone hrest ih =>
      obtain ⟨rest, -, hbefore⟩ := nextWork?_eq_some_iff.1 hnext
      rw [List.flatMap_cons, requests_append, List.append_eq_nil_iff] at hquiet
      refine ih (boost_of_quiet_execute hdone ?_ hquiet.1) hquiet.2
      rw [hbefore]
      exact hb

/-- If the question for the coordinator's address could not be sent, no boost is held. -/
theorem boost_of_failed_execute {w : Work} (h : Path (e.execute w) log e') {fault : TransportFault}
    (hfailed : ⟨.mesh (.send Provisioning.request), .error fault⟩ ∈ log) : e'.boost = .none := by
  have hmem : Provisioning.request ∈ requests log :=
    List.mem_filterMap.2 ⟨_, hfailed, rfl⟩
  obtain rfl := eq_of_provisioning_mem h hmem
  obtain ⟨-, rfl, -⟩ | ⟨-, first, boost, answer, rest, rfl, hengage, hsent⟩ :=
    path_sendProvisioning h
  · cases hfailed
  · obtain ⟨rfl, rfl, -⟩ | ⟨-, -, rfl⟩ := hsent
    · obtain hfirst | hlast := List.mem_append.1 hfailed
      · exact absurd hfirst (PollBoost.not_mem_of_engage hengage)
      · cases List.mem_singleton.1 hlast
    · rfl

/-- The same after all the work, if that comes to one request at most. -/
theorem boost_of_failed_drains {tasks : List Task} (h : Drains e tasks e')
    (hload : e.requestLoad ≤ 1) {fault : TransportFault}
    (hfailed : ⟨.mesh (.send Provisioning.request), .error fault⟩ ∈ tasks.flatMap Task.log) :
    e'.boost = .none := by
  induction h with
  | rest => cases hfailed
  | @work e _ tasks task hnext hdone hrest ih =>
      have hpop : e.requestLoad = task.before.requestLoad + requestsOf task.work :=
        weigh_of_nextWork?_eq_some requestsOf hnext
      have hstep := length_requests_execute_le hdone
      rw [List.flatMap_cons, List.mem_append] at hfailed
      obtain hfirst | hlater := hfailed
      · -- the one request of this turn has been sent, so none is left to take the boost again
        have hmem : Provisioning.request ∈ requests task.log :=
          List.mem_filterMap.2 ⟨_, hfirst, rfl⟩
        have hone := List.length_pos_of_mem hmem
        have hrests := length_requests_drains_le hrest
        have hnone : requests (tasks.flatMap Task.log) = [] :=
          List.eq_nil_of_length_eq_zero (by omega)
        exact boost_of_quiet_drains hrest (boost_of_failed_execute hdone hfirst) hnone
      · exact ih (by omega) hlater

/-- After a reply to the question no boost is held: the report that it may lead to does not ask for
the address again. -/
theorem boost_of_reply {payload : Bytes} {tasks : List Task} {e₁ : Engine}
    (hidle : e.session.work.items = []) (h : Path (e.onProvisioningReply payload) log e₁)
    (hdrains : Drains e₁ tasks e') : e'.boost = .none := by
  obtain ⟨-, ⟨-, address, -, rfl⟩ | ⟨-, rfl⟩⟩ := path_onProvisioningReply h
  · obtain ⟨first, e₂, rest, -, hdone, hrest⟩ :=
      hdrains.of_items_eq_cons (items_submit_of_idle .reportStatus hidle)
    obtain ⟨-, -, rfl⟩ | ⟨-, ⟨hunknown, -, -⟩ | ⟨peer, -, hsend⟩⟩ := path_reportStatus hdone
    · rw [(hrest.of_idle rfl).2]
      rfl
    · cases hunknown
    · obtain ⟨rfl, -⟩ := path_sendReport hsend
      rw [(hrest.of_idle rfl).2]
      rfl
  · rw [(hdrains.of_idle hidle).2]

end Engine

/-! ## turns -/

variable {turns : List Turn} {t : Turn} {before p p' : UInt32}

/-- A turn keeps boost and period together. -/
theorem Turn.Happens.owes (ht : t.Happens) (hstart : t.input = .start → t.before.state ≠ .connected)
    (h : Owes t.before.config.boostedPollPeriodMs before t.before.boost p)
    (hpolls : Polls t.log p p') :
    Owes t.before.config.boostedPollPeriodMs before t.after.boost p' := by
  obtain ⟨mid, hopening, htasks⟩ := polls_append_iff.1 hpolls
  have hconfig : t.applied.config = t.before.config := by
    rw [← ht.config hstart, ht.drains.sameFacts.1.config]
  have hreceives := ht.receives
  have happlied : Owes t.before.config.boostedPollPeriodMs before t.applied.boost mid := by
    cases hinput : t.input with
    | start =>
        rw [hinput] at hreceives
        obtain ⟨hboost, hset⟩ := Engine.boost_of_startUp (hstart hinput) hreceives
        rw [hopening.eq_of_setsPoll hset, hboost]
        exact h
    | event event =>
        rw [hinput] at hreceives
        exact Engine.owes_of_apply h hreceives hopening
  rw [← hconfig] at happlied ⊢
  exact Engine.owes_of_drains happlied ht.drains htasks

/-- Whether a turn ends the wait for the coordinator's address: a reply came, no reply came in time,
or the question could not be sent. -/
def Turn.EndsWait (t : Turn) : Prop :=
  (∃ payload, t.input = .event (.reply .provisioning payload)) ∨
    t.input = .event (.replyTimedOut .provisioning) ∨
    ∃ fault, ⟨.mesh (.send Provisioning.request), .error fault⟩ ∈ t.log

theorem AtRest.boost_of_endsWait (h : AtRest turns t.before) (ht : t.Happens)
    (hstart : t.input = .start → t.before.state ≠ .connected) (hends : t.EndsWait) :
    t.after.boost = .none := by
  have hreceives := ht.receives
  obtain ⟨payload, hinput⟩ | hinput | ⟨fault, hfailed⟩ := hends
  · rw [hinput] at hreceives
    exact Engine.boost_of_reply h.idle hreceives ht.drains
  · rw [hinput] at hreceives
    obtain ⟨happlied, -⟩ := Engine.path_restorePoll hreceives
    have hdrains := ht.drains
    rw [happlied] at hdrains
    rw [(hdrains.of_idle h.idle).2]
  · obtain ⟨hopening, hload⟩ := h.requests_opening ht hstart
    obtain hfirst | hlater := List.mem_append.1 hfailed
    · cases requests_eq_nil_iff.1 hopening _ hfirst
    · exact Engine.boost_of_failed_drains ht.drains hload hlater

/-! ## runs -/

theorem Run.owes {config : Config} {e : Engine} (run : Run config turns e)
    (hpolls : Polls (turns.flatMap Turn.log) before p) :
    Owes config.boostedPollPeriodMs before e.boost p := by
  induction run generalizing p with
  | start t hnew hinput ht =>
      obtain ⟨-, interval, hbefore⟩ := Engine.eq_of_new hnew
      have hconfig : t.before.config = config := by rw [hbefore]
      have hboost : t.before.boost = .none := by rw [hbefore]
      rw [List.flatMap_singleton] at hpolls
      rw [← hconfig]
      refine ht.owes (fun _ => Engine.state_new hnew) ?_ hpolls
      rw [hboost]
      exact .nothing
  | handle t event run hinput ht ih =>
      rw [List.flatMap_append, List.flatMap_singleton] at hpolls
      obtain ⟨mid, hfirst, hlast⟩ := polls_append_iff.1 hpolls
      have hbefore := ih hfirst
      rw [← run.config_eq.1] at hbefore ⊢
      exact ht.owes (fun hstart => absurd hstart (Turn.ne_start_of_event hinput)) hbefore hlast

/-- The poll period is given back. As long as the stack accepts every poll period and nothing but
the engine sets it: if a boost is held between two turns, then the session is connected and the
period is the faster one, and if none is held, the period is the one from before the first turn.
No boost is held after a turn in which a reply to the provisioning question came, none came in time,
or the question could not be sent, nor while the session is not connected. -/
theorem Run.poll_period_given_back {config : Config} {past : List Turn} {e : Engine}
    (run : Run config (past ++ [t]) e) (hpolls : Polls ((past ++ [t]).flatMap Turn.log) before p) :
    (e.boost.isHeld = true → e.state = .connected ∧ p = config.boostedPollPeriodMs) ∧
    (e.boost.isHeld = false → p = before) ∧
    (t.EndsWait → e.boost.isHeld = false) ∧
    (e.state ≠ .connected → e.boost.isHeld = false) := by
  have howes := run.owes hpolls
  have haway : e.state ≠ .connected → e.boost = .none := fun hs =>
    (run.atRest.1.away hs).boost_eq run.atRest.1.idle
  refine ⟨fun hheld => ⟨?_, ?_⟩, fun hfree => ?_, fun hends => ?_, fun hs => ?_⟩
  · refine Decidable.byContradiction fun hs => ?_
    rw [haway hs] at hheld
    cases hheld
  · generalize e.boost = boost at howes hheld
    cases howes with
    | nothing => cases hheld
    | period => rfl
  · generalize e.boost = boost at howes hfree
    cases howes with
    | nothing => rfl
    | period => cases hfree
  · obtain ⟨ht, hstart, past', hrest⟩ := run.atRest.2 t (by simp)
    obtain ⟨-, rfl, -⟩ := run.last
    rw [hrest.boost_of_endsWait ht hstart hends]
    rfl
  · rw [haway hs]
    rfl

/-- A simulated node that has just been connected polls faster. -/
theorem Run.poll_period_given_back_simulated :
    ∃ past t e p, Run .default (past ++ [t]) e ∧ Polls ((past ++ [t]).flatMap Turn.log) 3000 p ∧
      e.boost.isHeld = true ∧ e.state = .connected ∧ p = Config.default.boostedPollPeriodMs := by
  obtain ⟨turns, run, hinputs, hlog⟩ := exists_run_of_answer Engine.new_default
    [.roleChanged .child] Host.answer (.initial .disabled)
  have hpolls := Host.keepsPoll.polls
    (Engine.default.start >>= Engine.handleAll [.roleChanged .child]) (.initial .disabled)
  rw [← hlog] at hpolls
  have hheld : ((Engine.default.start >>= Engine.handleAll [.roleChanged .child]).run Host.answer
      (.initial .disabled)).1.boost.isHeld = true := by
    decide
  obtain rfl | ⟨past, t, rfl⟩ := List.eq_nil_or_concat turns
  · cases hinputs
  · rw [List.concat_eq_append] at run hpolls
    obtain ⟨hs, hp⟩ := (run.poll_period_given_back hpolls).1 hheld
    exact ⟨past, t, _, _, run, hpolls, hheld, hs, hp⟩

end MeshLight
