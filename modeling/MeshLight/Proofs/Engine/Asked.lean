import MeshLight.Proofs.Command.Answer
import MeshLight.Proofs.Join.Moves
import MeshLight.Proofs.Sending

/-!
# MeshLight.Proofs.Engine.Asked

The work that a turn asks for, read off its input and where the node stands before and after the
input was applied (`Turn.asked`), and the work that a piece of work asks for (`Task.asked`). The
queue holds all of it: nothing is refused, and nothing meets the same work waiting already. So the
work of a turn is just what was asked for, in the order in which it was asked for
(`Run.work_is_done`). What keeps the queue short is that work that may ask for more waits alone
(`WorkQueue.Roomy`).
-/

namespace MeshLight

open Prog

/-! ## requests for work -/

namespace WorkQueue

/-- Asks for pieces of work, one after the other; the answers are kept. -/
def submitAll : List Work → WorkQueue → List Bool × WorkQueue
  | [], q => ([], q)
  | w :: ws, q => ((q.submit w).1 :: (submitAll ws (q.submit w).2).1, (submitAll ws (q.submit w).2).2)

variable {w : Work} {ws : List Work} {q q' : WorkQueue}

theorem length_le_submit (w : Work) (q : WorkQueue) :
    q.items.length ≤ (q.submit w).2.items.length := by
  unfold submit
  split
  · exact Nat.le_refl _
  · split
    · simp
    · exact Nat.le_refl _

theorem length_le_submitAll (ws : List Work) (q : WorkQueue) :
    q.items.length ≤ (q.submitAll ws).2.items.length := by
  induction ws generalizing q with
  | nil => exact Nat.le_refl _
  | cons w ws ih => exact Nat.le_trans (length_le_submit w q) (ih _)

/-- Only a full queue refuses work. -/
theorem submit_granted (h : q.items.length < capacity) : (q.submit w).1 = true := by
  unfold submit
  rw [if_pos h]
  split <;> rfl

/-- Requests never make room, so with room left in the end no request was refused. -/
theorem granted_of_length_lt (h : (q.submitAll ws).2.items.length < capacity) :
    ∀ granted ∈ (q.submitAll ws).1, granted = true := by
  induction ws generalizing q with
  | nil => simp [submitAll]
  | cons w ws ih =>
      intro granted hmem
      obtain rfl | hmem := List.mem_cons.1 hmem
      · exact submit_granted (Nat.lt_of_le_of_lt (length_le_submitAll (w :: ws) q) h)
      · exact ih h granted hmem

/-- Work that does not wait yet is put at the end, as long as there is room. -/
theorem submit_of_fresh (hfresh : w ∉ q.items) (hroom : q.items.length < capacity) :
    (q.submit w).2 = ⟨q.items ++ [w]⟩ := by
  simp [submit, hfresh, hroom]

theorem submitAll_of_fresh (hfresh : ∀ w ∈ ws, w ∉ q.items) (hnodup : ws.Nodup)
    (hroom : q.items.length + ws.length ≤ capacity) : (q.submitAll ws).2 = ⟨q.items ++ ws⟩ := by
  induction ws generalizing q with
  | nil => simp [submitAll]
  | cons w ws ih =>
      obtain ⟨hw, hnodup⟩ := List.nodup_cons.1 hnodup
      rw [List.length_cons] at hroom
      have hfirst := submit_of_fresh (hfresh w (List.mem_cons_self ..)) (by omega)
      have hrest : ∀ v ∈ ws, v ∉ q.items ++ [w] := by
        intro v hv hmem
        obtain hmem | hmem := List.mem_append.1 hmem
        · exact hfresh v (List.mem_cons_of_mem w hv) hmem
        · rw [List.mem_singleton.1 hmem] at hv
          exact hw hv
      show ((q.submit w).2.submitAll ws).2 = _
      rw [hfirst, ih hrest hnodup (by simp; omega)]
      simp

/-- The second queue comes from the first by asking for the given work, and however it came from it
by asking for work, nothing was refused. -/
structure Takes (q : WorkQueue) (ws : List Work) (q' : WorkQueue) : Prop where
  all : (q.submitAll ws).2 = q'
  unrefused : ∀ requests, (q.submitAll requests).2 = q' →
    ∀ granted ∈ (q.submitAll requests).1, granted = true

theorem Takes.of_items (hitems : q'.items = q.items ++ ws) (hfresh : ∀ w ∈ ws, w ∉ q.items)
    (hnodup : ws.Nodup) (hroom : q'.items.length < capacity) : q.Takes ws q' where
  all := by
    rw [hitems, List.length_append] at hroom
    rw [submitAll_of_fresh hfresh hnodup (Nat.le_of_lt hroom), ← hitems]
  unrefused requests hrequests := granted_of_length_lt (by rwa [hrequests])

end WorkQueue

/-! ## what a piece of work asks for -/

namespace Engine

variable {e e' : Engine} {log : List Exchange}

/-- The work that a piece of work asks for: a report or a notification that lacks the coordinator's
address asks for the question for it. -/
def asks (w : Work) (e : Engine) : List Work :=
  if needsPeer w = true ∧ e.state = .connected ∧ e.session.testing = false ∧ e.session.peer = none
  then [.sendProvisioning] else []

theorem needsPeer_of_workload {w : Work} (h : workload w = 2) : needsPeer w = true := by
  cases w <;> first | rfl | cases h

/-- Work that asks for nothing leaves the queue as it is. -/
theorem work_of_execute {w : Work} (h : Path (e.execute w) log e') (hasks : e.asks w = []) :
    e'.session.work = e.session.work := by
  have hknown : ¬(needsPeer w = true ∧ e.state = .connected ∧ e.session.testing = false ∧
      e.session.peer = none) := by
    intro hneeds
    rw [asks, if_pos hneeds] at hasks
    cases hasks
  cases w with
  | reportStatus =>
      obtain ⟨-, -, rfl⟩ | ⟨⟨hs, ht⟩, ⟨hpeer, -, -⟩ | ⟨_, -, hsend⟩⟩ := path_reportStatus h
      · rfl
      · exact absurd ⟨rfl, hs, ht, hpeer⟩ hknown
      · rw [(path_sendReport hsend).1]
  | emitTrigger event =>
      obtain ⟨-, -, rfl⟩ | ⟨hs, ⟨ht, hpeer, -, -⟩ | ⟨_, -, hsend⟩⟩ := path_emitTrigger h
      · rfl
      · exact absurd ⟨rfl, hs, ht, hpeer⟩ hknown
      · rw [(path_sendAlong hsend).1]
  | _ =>
      obtain hwork | ⟨hload, -⟩ := (path_execute h).2
      · exact hwork
      · cases needsPeer_of_workload hload

theorem asks_cases {w : Work} (h : Path (e.execute w) log e') :
    (e.asks w = [] ∧ e'.session.work = e.session.work) ∨
      e.asks w = [.sendProvisioning] ∧ needsPeer w = true ∧ e' = e.submit .sendProvisioning := by
  by_cases hneeds : needsPeer w = true ∧ e.state = .connected ∧ e.session.testing = false ∧
      e.session.peer = none
  · obtain ⟨hw, hs, ht, hpeer⟩ := hneeds
    exact .inr ⟨if_pos ⟨hw, hs, ht, hpeer⟩, hw,
      (path_execute_of_needsPeer h hw hs ht hpeer).2⟩
  · have hnone : e.asks w = [] := if_neg hneeds
    exact .inl ⟨hnone, work_of_execute h hnone⟩

end Engine

/-- The work that a piece of work asked for when it was done. -/
def Task.asked (task : Task) : List Work := task.before.asks task.work

/-- A queue in which little work waits, and work that may ask for more waits alone. -/
structure WorkQueue.Roomy (q : WorkQueue) : Prop where
  few : q.items.length ≤ 3
  alone : ∀ w ∈ q.items, Engine.needsPeer w = true → q.items = [w]

namespace Engine

variable {e e' : Engine} {tasks : List Task}

/-- All that is done was waiting or was asked for by work that was done, in this order, and the
queue had room for it. -/
theorem Drains.asked (h : Drains e tasks e') (hroomy : e.session.work.Roomy) :
    tasks.map Task.work = e.session.work.items ++ tasks.flatMap Task.asked ∧
      ∀ task ∈ tasks, task.before.session.work.Takes task.asked task.after.session.work := by
  induction h with
  | rest hnone => simp [nextWork?_eq_none_iff.1 hnone]
  | @work e e' tasks task hnext hdone hrest ih =>
      obtain ⟨rest, hitems, hbefore⟩ := nextWork?_eq_some_iff.1 hnext
      have hwaits : task.before.session.work.items = rest := by rw [hbefore]
      obtain ⟨hfew, halone⟩ := hroomy
      rw [hitems] at hfew halone
      have hafter : task.after.session.work.items = rest ++ task.asked ∧
          task.after.session.work.Roomy ∧
          task.before.session.work.Takes task.asked task.after.session.work := by
        obtain ⟨hasked, hwork⟩ | ⟨hasked, hneeds, hafter⟩ := asks_cases hdone
        · have hasked : task.asked = [] := hasked
          rw [hasked, hwork]
          refine ⟨by rw [hwaits, List.append_nil], ⟨?_, ?_⟩, .of_items (by simp) (by simp)
            List.nodup_nil ?_⟩
          · rw [hwaits]
            exact Nat.le_of_succ_le hfew
          · -- what waited behind the work that was done needs no address
            intro w hw hneeds
            rw [hwaits] at hw
            cases halone w (List.mem_cons_of_mem _ hw) hneeds
            cases hw
          · rw [hwaits]
            exact Nat.lt_of_lt_of_le hfew (by decide)
        · have hasked : task.asked = [.sendProvisioning] := hasked
          cases halone task.work (List.mem_cons_self ..) hneeds
          have hitems : task.after.session.work.items = [.sendProvisioning] := by
            rw [hafter]
            exact items_submit_of_idle .sendProvisioning hwaits
          rw [hasked]
          refine ⟨hitems, ⟨by simp [hitems], ?_⟩, .of_items ?_ ?_ (by simp) ?_⟩
          · intro w hw hneeds
            rw [hitems, List.mem_singleton] at hw
            rw [hitems, hw]
          · rw [hitems, hwaits]
            rfl
          · simp [hwaits]
          · rw [hitems]
            decide
      obtain ⟨hitems', hroomy', htakes⟩ := hafter
      obtain ⟨hdone', htakes'⟩ := ih hroomy'
      refine ⟨?_, fun later hlater => ?_⟩
      · rw [List.map_cons, List.flatMap_cons, hdone', hitems', hitems, List.append_assoc]
        rfl
      · obtain rfl | hlater := List.mem_cons.1 hlater
        · exact htakes
        · exact htakes' later hlater

/-- No more pieces of work are done than the load counts. -/
theorem Drains.length_le_load (h : Drains e tasks e') : tasks.length ≤ e.load := by
  induction h with
  | rest => exact Nat.zero_le _
  | work task hnext hdone hrest ih =>
      have hpop := weigh_of_nextWork?_eq_some workload hnext
      have hless := load_execute_lt hdone
      rw [List.length_cons]
      unfold load at hless ih ⊢
      omega

/-- In any surroundings the waiting work comes to an end, with none left. -/
theorem exists_drains (e : Engine) (answer : (c : Call) → σ → c.Answer × σ) (s : σ) :
    ∃ tasks, Drains e tasks (e.runPending.run answer s).1 ∧
      e.runPending.exchanges answer s = tasks.flatMap Task.log :=
  path_runPending_iff.1 (path_run answer e.runPending s)

end Engine

/-! ## what an input asks for -/

/-- The work that a change of the session's state asks for. -/
def SessionState.asks (old new : SessionState) : List Work :=
  if old = .connected then
    if new = .connected then [] else [.indicateDisconnected, .releasePollBoost]
  else if new = .connected then [.indicateConnected, .sendProvisioning, .beginRegistration] else []

/-- The signal that joining asks for: a join has begun, or the end of an attempt was the end of a
join. -/
def Join.signals (ended : Bool) (old new : Join) : List Work :=
  match old.isJoining, new.isJoining with
  | false, true => [.indicateJoining]
  | true, false => if ended then [.indicateIdle] else []
  | _, _ => []

/-- The work that an accepted command leaves to be done. -/
def leftBy (config : Config) (request : InboundRequest) : List Work :=
  if request.method = .put then
    match readCommand request.payload with
    | .ok (_, action) => (action.followUp? config).toList
    | .error _ => []
  else []

/-- The work that an event asks for that is not about the role or joining. -/
def Event.asks (e : Engine) : Event → List Work
  | .reply .provisioning payload =>
    if e.state = .connected ∧ payload.length = 16 then [.reportStatus] else []
  | .commandReceived request => leftBy e.config request
  | .timerFired .report | .reportRequested => [.reportStatus]
  | .factoryResetRequested => [.factoryReset 0]
  | .trigger event => [.emitTrigger event]
  | _ => []

/-- The work that an input asks for by itself. -/
def Input.asks (e : Engine) : Input → List Work
  | .start => []
  | .event x => x.asks e

/-- The work that a turn asks for: because of the progress of joining, because the session changed,
and because of the input itself. -/
def Turn.asked (t : Turn) : List Work :=
  t.before.join.signals t.endsAttempt t.applied.join ++ t.before.state.asks t.applied.state ++
    t.input.asks t.before

theorem SessionState.asks_of_iff {old new : SessionState} (h : new = .connected ↔ old = .connected) :
    old.asks new = [] := by
  unfold asks
  by_cases hold : old = .connected
  · rw [if_pos hold, if_pos (h.2 hold)]
  · rw [if_neg hold, if_neg (mt h.1 hold)]

namespace Join

variable {ended : Bool} {old new : Join}

theorem signals_of_eq (h : new.isJoining = old.isJoining) : old.signals ended new = [] := by
  unfold signals
  rw [h]
  cases old.isJoining <;> rfl

theorem signals_of_begun (hold : old.isJoining = false) (hnew : new.isJoining = true) :
    old.signals ended new = [.indicateJoining] := by
  rw [signals, hold, hnew]

theorem signals_of_ended (hold : old.isJoining = true) (hnew : new.isJoining = false) :
    old.signals true new = [.indicateIdle] := by
  rw [signals, hold, hnew]
  rfl

/-- A join that ends otherwise than by the end of an attempt asks for no signal. -/
theorem signals_of_not_isJoining (hnew : new.isJoining = false) : old.signals false new = [] := by
  rw [signals, hnew]
  cases old.isJoining <;> rfl

end Join

/-- The work of one turn: a single piece, or what a connection or the end of one asks for. -/
inductive Batch : List Work → Prop where
  | nothing : Batch []
  | single (w : Work) : Batch [w]
  | connected : Batch [.indicateConnected, .sendProvisioning, .beginRegistration]
  | disconnected : Batch [.indicateDisconnected, .releasePollBoost]

namespace Batch

variable {ws : List Work}

theorem of_option (work : Option Work) : Batch work.toList := by
  cases work with
  | none => exact .nothing
  | some w => exact .single w

theorem of_asks (old new : SessionState) : Batch (old.asks new) := by
  unfold SessionState.asks
  split
  · split
    · exact .nothing
    · exact .disconnected
  · split
    · exact .connected
    · exact .nothing

theorem of_signals (ended : Bool) (old new : Join) : Batch (old.signals ended new) := by
  unfold Join.signals
  split
  · exact .single _
  · split
    · exact .single _
    · exact .nothing
  · exact .nothing

theorem of_event (e : Engine) (event : Event) : Batch (event.asks e) := by
  cases event with
  | reply kind payload =>
      cases kind with
      | provisioning =>
          show Batch (if _ then _ else _)
          split
          · exact .single _
          · exact .nothing
      | status | trigger => exact .nothing
  | commandReceived request =>
      show Batch (leftBy e.config request)
      unfold leftBy
      split
      · split
        · exact .of_option _
        · exact .nothing
      · exact .nothing
  | timerFired timer =>
      cases timer with
      | report => exact .single _
      | lightOff group => exact .nothing
  | reportRequested | factoryResetRequested | trigger => exact .single _
  | roleChanged | joinerChanged | replyTimedOut | registrationCompleted | joinRequested
  | setTesting => exact .nothing

theorem nodup (h : Batch ws) : ws.Nodup := by
  cases h <;> simp

theorem roomy (h : Batch ws) : WorkQueue.Roomy ⟨ws⟩ where
  few := by cases h <;> simp
  alone w hw hneeds := by
    cases h with
    | nothing => cases hw
    | single => rw [List.mem_singleton.1 hw]
    | connected | disconnected =>
        simp only [List.mem_cons, List.not_mem_nil, or_false] at hw
        obtain rfl | rfl | rfl := hw <;> cases hneeds

/-- The work of one turn, with what it may ask for, comes to three pieces at most. -/
theorem weigh_le (h : Batch ws) : WorkQueue.weigh Engine.workload ⟨ws⟩ ≤ 3 := by
  cases h with
  | single w => cases w <;> simp [WorkQueue.weigh, Engine.workload]
  | nothing | connected | disconnected => decide

end Batch

/-! ## what applying an input asks for -/

/-- What the end of an attempt tells of the join before and after it. -/
theorem Join.isJoining_attemptEnded (now : Nat) (j : Join) :
    match j.attemptEnded now with
    | (.retry _, j') => j.isJoining = true ∧ j'.isJoining = true
    | (.giveUp _, j') => j.isJoining = true ∧ j'.isJoining = false
    | (.ignore, j') => j' = j := by
  unfold attemptEnded
  cases hstate : j.state with
  | joining a =>
      dsimp only
      split
      · next hended =>
          split at hended <;> cases hended
          simp [isJoining, hstate]
      · next hended =>
          split at hended <;> cases hended
          simp [isJoining, hstate]
      · next hended =>
          split at hended <;> cases hended
  | idle | joined => rfl

theorem leftBy_of_dispatch {config : Config} {request : InboundRequest} {s s' : Session}
    {outcome : Outcome} {log : List Exchange} (hput : request.method = .put)
    (h : Path (dispatch config request.payload s) log (s', outcome)) :
    leftBy config request = outcome.followUp.toList := by
  rw [leftBy, if_pos hput]
  obtain ⟨_, _, hread, -, -, rfl⟩ | ⟨_, _, r, hread, hperform, hr⟩ := path_dispatch h
  · rw [hread]
    rfl
  · rw [hread]
    obtain ⟨effect, rfl, hwork⟩ | ⟨⟨fault, rfl⟩, hnone⟩ := Action.followUp_of_path hperform
    · obtain ⟨_, ⟨⟩, -, rfl⟩ | ⟨_, ⟨⟩, -⟩ := hr
      exact congrArg Option.toList hwork.symm
    · obtain ⟨_, ⟨⟩, -⟩ | ⟨_, ⟨⟩, -, rfl⟩ := hr
      exact congrArg Option.toList hnone

namespace Engine

variable {e e' e₁ : Engine} {log : List Exchange}

/-- Following the facts asks for what the change of the state asks for. -/
theorem Follows.items (h : Follows e e') (hidle : e.session.work.items = [])
    (hregistration : e.state ≠ .connected → e.session.registration = .initial) :
    e'.session.work.items = e.state.asks e'.state := by
  have hconnected : e'.state = .connected ↔ e.session.attached = true := by
    rw [h.mirrors.connected_iff, h.attached]
  obtain ⟨hstays, hsession⟩ | ⟨hs, ha, hsession⟩ | ⟨hs, ha, hsession⟩ := h.session
  · rw [SessionState.asks_of_iff (hconnected.trans hstays.symm), hsession]
    exact hidle
  · have hbegin : e.session.registration.canBegin = true := by
      rw [hregistration hs]
      rfl
    rw [SessionState.asks, if_neg hs, if_pos (hconnected.2 ha), hsession]
    simp [SessionState.enter, Session.submit, hbegin, WorkQueue.submit, facing, hidle,
      WorkQueue.capacity]
  · have hs' : e'.state ≠ .connected := by
      rw [Ne, hconnected, ha]
      exact Bool.false_ne_true
    rw [SessionState.asks, if_pos hs, if_neg hs', hsession]
    simp [SessionState.leave, Session.submit, Session.endEpisode, WorkQueue.submit, facing, hidle,
      WorkQueue.capacity]

/-- After a step of joining, following the facts asks for nothing more. -/
theorem items_of_joinStep (hm : e.Mirrors) (hstep : JoinStep e e₁) (hfollow : Follows e₁ e') :
    e'.session.work.items = e₁.session.work.items := by
  rw [hfollow.stays (hm.of_sameFacts hstep.sameFacts.1)]
  rfl

theorem items_requestJoin (h : Path e.requestJoin log e') (hm : e.Mirrors)
    (hidle : e.session.work.items = []) :
    e'.session.work.items = e.join.signals false e'.join := by
  obtain ⟨-, -, rfl⟩ | ⟨-, now, rest, -, ⟨-, -, rfl⟩ |
    ⟨join, answer, last, hbegin, -, ⟨-, hsync⟩ | ⟨-, hsync⟩⟩⟩ := path_requestJoin_cases h
  · rw [hidle, Join.signals_of_eq rfl]
  · rw [hidle, Join.signals_of_eq rfl]
  · have hfollow := (path_sync hsync).2
    obtain ⟨hbefore, hafter⟩ := Join.isJoining_begin hbegin
    have hjoin : e'.join.isJoining = true := by
      rw [hfollow.join]
      exact hafter
    rw [items_of_joinStep hm (.signal join _ rfl) hfollow, Join.signals_of_begun hbefore hjoin]
    exact items_submit_of_idle .indicateJoining hidle
  · have hfollow := (path_sync hsync).2
    have hjoin : e'.join.isJoining = false := by
      rw [hfollow.join]
      exact Join.isJoining_abandon join
    rw [items_of_joinStep hm (.quiet join.abandon) hfollow, Join.signals_of_not_isJoining hjoin]
    exact hidle

theorem items_onJoinerIdle (h : Path e.onJoinerIdle log e') (hidle : e.session.work.items = []) :
    e'.session.work.items = e.join.signals true e'.join := by
  obtain ⟨now, rest, -, hended⟩ := path_onJoinerIdle_cases h
  have htold := e.join.isJoining_attemptEnded now
  split at hended
  · next decision join hdecision =>
      rw [hdecision] at htold
      obtain ⟨hbefore, hafter⟩ := htold
      obtain ⟨answer, -, ⟨-, rfl⟩ | ⟨-, rfl⟩⟩ := hended
      · exact hidle.trans (Join.signals_of_eq (hafter.trans hbefore.symm)).symm
      · exact (items_submit_of_idle .indicateIdle hidle).trans
          (Join.signals_of_ended hbefore (Join.isJoining_abandon join)).symm
  · next attempts join hdecision =>
      rw [hdecision] at htold
      obtain ⟨hbefore, hafter⟩ := htold
      obtain ⟨-, rfl⟩ := hended
      exact (items_submit_of_idle .indicateIdle hidle).trans
        (Join.signals_of_ended hbefore hafter).symm
  · next join hdecision =>
      rw [hdecision] at htold
      obtain ⟨-, rfl⟩ := hended
      exact hidle.trans (Join.signals_of_eq (congrArg Join.isJoining htold)).symm

theorem items_onJoiner {state : JoinerState} (h : Path (e.onJoiner state) log e') (hm : e.Mirrors)
    (hidle : e.session.work.items = []) :
    e'.session.work.items = e.join.signals (state = .idle) e'.join := by
  cases state with
  | idle =>
      simp only [onJoiner, path_bind_iff] at h
      obtain ⟨e₁, first, rest, -, hended, hsync⟩ := h
      have hfollow := (path_sync hsync).2
      rw [items_of_joinStep hm (path_onJoinerIdle hended).2 hfollow, hfollow.join]
      exact items_onJoinerIdle hended hidle
  | joined =>
      have hfollow := (path_sync h).2
      rw [items_of_joinStep hm (.quiet e.join.succeed) hfollow, hfollow.join]
      exact hidle.trans (Join.signals_of_not_isJoining rfl).symm
  | discover | connect | connected | entrust =>
      have hfollow := (path_sync h).2
      rw [items_of_joinStep hm (.quiet e.join) hfollow, hfollow.join, Join.signals_of_eq rfl]
      exact hidle

/-- Other events ask just for work of their own. -/
theorem items_of_apply {event : Event} (hevent : (Input.event event).movesJoin = false)
    (h : Path (e.apply event) log e') (hidle : e.session.work.items = []) :
    e'.session.work.items = event.asks e := by
  cases event with
  | reply kind payload =>
      cases kind with
      | provisioning =>
          have hlength : (Octets.ofBytes? 16 payload).isSome = true ↔ payload.length = 16 := by
            unfold Octets.ofBytes?
            split <;> simp [*]
          obtain ⟨-, ⟨hs, address, haddress, rfl⟩ | ⟨hnot, rfl⟩⟩ := path_onProvisioningReply h
          · have hpayload : payload.length = 16 := hlength.1 (by rw [haddress]; rfl)
            show _ = if _ then _ else _
            rw [if_pos ⟨hs, hpayload⟩]
            exact items_submit_of_idle .reportStatus hidle
          · rw [hlength] at hnot
            show _ = if _ then _ else _
            rw [if_neg hnot]
            exact hidle
      | status | trigger =>
          obtain ⟨-, rfl⟩ := path_done_iff.1 h
          exact hidle
  | replyTimedOut kind =>
      obtain ⟨-, rfl | ⟨-, rfl⟩⟩ := path_onReplyTimeout h <;> exact hidle
  | registrationCompleted outcome =>
      obtain ⟨-, rfl⟩ := path_onRegistration h
      exact hidle
  | commandReceived request =>
      obtain ⟨hmethod, -, rfl⟩ | ⟨hmethod, s, first, outcome, reply, hdispatch, -, rfl⟩ :=
        path_onCommand_dispatch h
      · exact hidle.trans (if_neg hmethod).symm
      · have hwaits : s.work.items = [] := by
          rw [(dispatched_of_path hdispatch).session]
          exact hidle
        show _ = leftBy e.config request
        rw [leftBy_of_dispatch hmethod hdispatch]
        cases outcome.followUp with
        | none => exact hwaits
        | some w => exact items_submit_of_idle w hwaits
  | timerFired timer =>
      obtain ⟨-, ⟨rfl, rfl⟩ | ⟨⟨group, rfl⟩, rfl⟩⟩ := path_onTimer h
      · exact items_submit_of_idle .reportStatus hidle
      · exact hidle
  | setTesting on =>
      obtain ⟨-, rfl | ⟨-, rfl⟩⟩ := path_setTesting h <;> exact hidle
  | factoryResetRequested | reportRequested | trigger event =>
      obtain ⟨-, rfl⟩ := path_done_iff.1 h
      exact items_submit_of_idle _ hidle
  | roleChanged | joinerChanged | joinRequested => cases hevent

end Engine

/-! ## turns -/

variable {turns : List Turn} {t : Turn}

/-- A change of role asks for what the change of the state asks for. -/
theorem asked_of_told {role : Role} (hidle : t.before.session.work.items = [])
    (haway : t.before.state ≠ .connected → t.before.Away) (hends : t.endsAttempt = false)
    (hasks : t.input.asks t.before = [])
    (hfollow : Engine.Follows (t.before.told role) t.applied) :
    t.applied.session.work.items = t.asked ∧ Batch t.asked := by
  have hsignals : t.before.join.signals false t.applied.join = [] := by
    rw [hfollow.join, Engine.told]
    dsimp only
    split
    · exact Join.signals_of_not_isJoining rfl
    · exact Join.signals_of_eq rfl
  have hasked : t.asked = t.before.state.asks t.applied.state := by
    rw [Turn.asked, hends, hsignals, hasks, List.append_nil, List.nil_append]
  rw [hasked]
  exact ⟨hfollow.items hidle fun hs => (haway hs).registration, .of_asks _ _⟩

/-- A step of joining asks for its signal. -/
theorem asked_of_joining (hkeeps : Engine.KeepsStanding t.before t.applied)
    (hasks : t.input.asks t.before = [])
    (hitems : t.applied.session.work.items = t.before.join.signals t.endsAttempt t.applied.join) :
    t.applied.session.work.items = t.asked ∧ Batch t.asked := by
  have hasked : t.asked = t.before.join.signals t.endsAttempt t.applied.join := by
    rw [Turn.asked, SessionState.asks_of_iff hkeeps.connected, hasks, List.append_nil,
      List.append_nil]
  rw [hasked]
  exact ⟨hitems, .of_signals _ _ _⟩

/-- After an input was applied, what waits is what the turn asks for. -/
theorem AtRest.asked (h : AtRest turns t.before) (ht : t.Happens)
    (hstart : t.input = .start → t.before.state ≠ .connected) :
    t.applied.session.work.items = t.asked ∧ Batch t.asked := by
  have hreceives := ht.receives
  cases hinput : t.input with
  | start =>
      have hends : t.endsAttempt = false := by simp [Turn.endsAttempt, hinput]
      have hasks : t.input.asks t.before = [] := by rw [hinput]; rfl
      rw [hinput] at hreceives
      obtain ⟨role, rest, -, ⟨-, hrole⟩ | ⟨-, -, hrequest⟩ | ⟨-, -, -, happlied⟩⟩ :=
        Engine.path_startUp_cases (hstart hinput) hreceives
      · exact asked_of_told h.idle h.away hends hasks (Engine.path_onRole hrole).2
      · have happly : Path (t.before.apply .joinRequested) rest t.applied := hrequest
        refine asked_of_joining ?_ hasks ?_
        · exact Engine.keepsStanding_of_path_apply h.mirrors (by simp) happly
        · rw [hends]
          exact Engine.items_requestJoin hrequest h.mirrors h.idle
      · refine asked_of_joining (by rw [happlied]; exact .refl h.mirrors) hasks ?_
        rw [Join.signals_of_eq (by rw [happlied]), happlied]
        exact h.idle
  | event event =>
      rw [hinput] at hreceives
      have hkeeps (hrole : ∀ role, event ≠ .roleChanged role) :
          Engine.KeepsStanding t.before t.applied :=
        Engine.keepsStanding_of_path_apply h.mirrors hrole hreceives
      cases hmoves : t.input.movesJoin with
      | false =>
          obtain ⟨-, -, -, hjoin, -⟩ := ht.join_applied hmoves
          rw [hinput] at hmoves
          have hrole : ∀ role, event ≠ .roleChanged role := by
            rintro role rfl
            cases hmoves
          have hasked : t.asked = event.asks t.before := by
            rw [Turn.asked, Join.signals_of_eq (congrArg Join.isJoining hjoin),
              SessionState.asks_of_iff (hkeeps hrole).connected, hinput]
            rfl
          rw [hasked]
          exact ⟨Engine.items_of_apply hmoves hreceives h.idle, .of_event _ _⟩
      | true =>
          rw [hinput] at hmoves
          cases event with
          | roleChanged role =>
              exact asked_of_told h.idle h.away (endsAttempt_of_event hinput (by simp))
                (by rw [hinput]; rfl) (Engine.path_onRole hreceives).2
          | joinRequested =>
              refine asked_of_joining (hkeeps (by simp)) (by rw [hinput]; rfl) ?_
              rw [endsAttempt_of_event hinput (by simp)]
              exact Engine.items_requestJoin hreceives h.mirrors h.idle
          | joinerChanged state =>
              refine asked_of_joining (hkeeps (by simp)) (by rw [hinput]; rfl) ?_
              have hends : t.endsAttempt = decide (state = .idle) := by
                simp [Turn.endsAttempt, hinput]
              rw [hends]
              exact Engine.items_onJoiner hreceives h.mirrors h.idle
          | _ => cases hmoves

/-- The queue takes what a turn asks for, and what the work of the turn asks for. -/
theorem AtRest.takes (h : AtRest turns t.before) (ht : t.Happens)
    (hstart : t.input = .start → t.before.state ≠ .connected) :
    t.before.session.work.Takes t.asked t.applied.session.work ∧
      t.tasks.map Task.work = t.asked ++ t.tasks.flatMap Task.asked ∧
      ∀ task ∈ t.tasks, task.before.session.work.Takes task.asked task.after.session.work := by
  obtain ⟨hitems, hbatch⟩ := h.asked ht hstart
  have hroomy : t.applied.session.work.Roomy := by
    obtain ⟨hfew, halone⟩ := hbatch.roomy
    exact ⟨by rwa [hitems], fun w hw hneeds => by
      rw [hitems] at hw ⊢
      exact halone w hw hneeds⟩
  obtain ⟨hdone, htakes⟩ := ht.drains.asked hroomy
  rw [hitems] at hdone
  refine ⟨.of_items ?_ ?_ hbatch.nodup ?_, hdone, htakes⟩
  · rw [hitems, h.idle, List.nil_append]
  · simp [h.idle]
  · exact Nat.lt_of_le_of_lt hroomy.few (by decide)

/-- However it is answered, the work of a turn comes to three pieces at most. -/
theorem AtRest.length_tasks_le (h : AtRest turns t.before) (ht : t.Happens)
    (hstart : t.input = .start → t.before.state ≠ .connected) {tasks : List Task} {e : Engine}
    (hdrains : Engine.Drains t.applied tasks e) : tasks.length ≤ 3 := by
  obtain ⟨hitems, hbatch⟩ := h.asked ht hstart
  have hload : t.applied.load = WorkQueue.weigh Engine.workload ⟨t.asked⟩ := by
    rw [← hitems]
    rfl
  refine Nat.le_trans hdrains.length_le_load ?_
  rw [hload]
  exact hbatch.weigh_le

/-! ## runs -/

/-- No work is lost, and all of it is finished. However the calls are answered, no work waits
between turns. The work of each turn is what the turn asked for and what that asked for in turn, in
this order; it comes to three pieces at most, and in any surroundings it comes to an end. The queue
takes all of it and refuses nothing. -/
theorem Run.work_is_done {config : Config} {e : Engine} (run : Run config turns e) :
    e.session.work.items = [] ∧ ∀ t ∈ turns,
      t.after.session.work.items = [] ∧
      t.tasks.map Task.work = t.asked ++ t.tasks.flatMap Task.asked ∧
      t.tasks.length ≤ 3 ∧
      (∀ {σ : Type} (answer : (c : Call) → σ → c.Answer × σ) (s : σ), ∃ tasks,
        Engine.Drains t.applied tasks (t.applied.runPending.run answer s).1 ∧
          t.applied.runPending.exchanges answer s = tasks.flatMap Task.log ∧ tasks.length ≤ 3) ∧
      t.before.session.work.Takes t.asked t.applied.session.work ∧
      ∀ task ∈ t.tasks, task.before.session.work.Takes task.asked task.after.session.work := by
  obtain ⟨hrest, hturns⟩ := run.atRest
  refine ⟨hrest.idle, fun t hmem => ?_⟩
  obtain ⟨ht, hstart, past, hbefore⟩ := hturns t hmem
  obtain ⟨htakes, hdone, htasks⟩ := hbefore.takes ht hstart
  refine ⟨(hbefore.turn ht hstart).idle, hdone, hbefore.length_tasks_le ht hstart ht.drains,
    fun answer s => ?_, htakes, htasks⟩
  obtain ⟨tasks, hdrains, hlog⟩ := t.applied.exists_drains answer s
  exact ⟨tasks, hdrains, hlog, hbefore.length_tasks_le ht hstart hdrains⟩

/-- A simulated node that is to report before it knows the coordinator. -/
theorem Run.work_is_done_simulated :
    ∃ turns e t, Run .default turns e ∧ t ∈ turns ∧ t.input = .event .reportRequested ∧
      .reportStatus ∈ t.tasks.map Task.work ∧ t.tasks.length ≤ 3 ∧ e.session.work.items = [] := by
  obtain ⟨past, run, -, -⟩ := exists_run_of_answer Engine.new_default [.roleChanged .child]
    Host.answer (.initial .disabled)
  obtain ⟨t, run', hinput, -, -⟩ := run.exists_handle .reportRequested Host.answer
    (.initial .child)
  have hmem : t ∈ past ++ [t] := List.mem_append_right _ (List.mem_singleton_self t)
  obtain ⟨hidle, hturns⟩ := run'.work_is_done
  obtain ⟨-, hdone, hfew, -⟩ := hturns t hmem
  refine ⟨_, _, t, run', hmem, hinput, ?_, hfew, hidle⟩
  rw [hdone, Turn.asked, hinput]
  exact List.mem_append_left _ (List.mem_append_right _ (List.mem_singleton_self _))

end MeshLight
