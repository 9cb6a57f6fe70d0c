import MeshLight.Proofs.Session.Registering
import MeshLight.Proofs.Timers.Expiries

/-!
# MeshLight.Proofs.Timers.Leftover

The report timer across episodes. A registration that succeeds starts it, but the end of the episode
does not stop it. So an episode may begin while the timer still runs, or while one of its expiries
still waits (`Leftover`). Only then can a report that the timer asks for go out before the
registration of the episode has succeeded; and if the timer runs it can indeed, as soon as the
coordinator has answered (`Course.reports_early`).
-/

namespace MeshLight

open Prog

/-! ## left over -/

/-- The report timer runs after these events: the last of them to set it has started it. -/
def ReportsOn (dealt : List Dealt) : Prop := ∃ past d a, StartedBy .report dealt past d a

/-- Since some event the node is connected, and when that event came the report timer ran, or one of
its expiries waited. -/
def Leftover (dealt : List Dealt) : Prop :=
  ∃ before c during, dealt = before ++ c :: during ∧ c.turn.connects ∧
    (∀ u ∈ during, u.turn.after.state = .connected) ∧ (ReportsOn before ∨ c.Awaits .report)

/-- A report that the timer asks for is sent, but the registration has not succeeded. -/
def Dealt.ReportsEarly (d : Dealt) : Prop :=
  d.item.event = .timerFired .report ∧ d.turn.before.session.registration.state ≠ .registered ∧
    ∃ request ∈ requests d.turn.log, request.method = .put ∧ request.resource = "status"

variable {config : Config} {dealt past later : List Dealt} {c d : Dealt} {e : Engine}
variable {ts ts' : Timers} {queue : List Waiting}

theorem Leftover.of_connects (hconnects : d.turn.connects)
    (h : ReportsOn dealt ∨ d.Awaits .report) : Leftover (dealt ++ [d]) :=
  ⟨dealt, d, [], rfl, hconnects, fun _ hu => absurd hu List.not_mem_nil, h⟩

theorem Leftover.concat (h : Leftover dealt) (hs : d.turn.after.state = .connected) :
    Leftover (dealt ++ [d]) := by
  obtain ⟨before, c, during, rfl, hconnects, hduring, hleft⟩ := h
  refine ⟨before, c, during ++ [d], by simp, hconnects, fun u hu => ?_, hleft⟩
  obtain hu | hu := List.mem_append.1 hu
  · exact hduring u hu
  · rw [List.mem_singleton.1 hu]
    exact hs

/-- The timer goes on unless it is set. -/
theorem ReportsOn.concat (h : ReportsOn dealt) (hnone : settings d.turn.log = []) :
    ReportsOn (dealt ++ [d]) := by
  obtain ⟨past, s, a, hstarted⟩ := h
  refine ⟨past, s, a, startedBy_concat.2 (.inr ⟨?_, hstarted⟩)⟩
  rw [Turn.Sets, hnone]
  exact fun hsets => hsets rfl

theorem Course.reportsOn_iff (course : Course config dealt e ts queue) :
    ReportsOn dealt ↔ ts.find? .report ≠ none := by
  constructor
  · intro h
    obtain ⟨past, s, a, hstarted⟩ := h
    exact course.find?_report_of_startedBy hstarted
  · intro hruns
    obtain ⟨a, ha⟩ := Option.ne_none_iff_exists'.1 hruns
    obtain ⟨past, s, first, hstarted, -⟩ := course.startedBy_of_find? ha
    exact ⟨past, s, first, hstarted⟩

/-! ## silence before the registration -/

variable {turns : List Turn} {t : Turn}

/-- An answer of the registrar that does not make the node registered sets no timer. -/
theorem Engine.settings_of_unregistered {e e' : Engine} {log : List Exchange}
    {outcome : RegistrationOutcome} (h : Path (e.onRegistration outcome) log e')
    (hafter : e'.session.registration.state ≠ .registered) : settings log = [] := by
  rw [(path_onRegistration h).2] at hafter
  refine (settings_onRegistration h).trans (if_neg fun hfirst => ?_)
  obtain ha | ⟨-, ha | ha⟩ := Registration.apply_cases outcome e.session.registration
  · rw [ha] at hfirst
    cases hfirst.1
  · rw [ha] at hafter
    exact hafter rfl
  · rw [ha] at hfirst
    cases hfirst.1

/-- A report timer that does not run is started only when the node is registered. -/
theorem AtRest.find?_report_eq_none (h : AtRest turns t.before) (ht : t.Happens)
    (hserves : ts.Serves t.log ts') (hsound : ts.Sound) (hnone : ts.find? .report = none)
    (hbefore : t.before.session.registration.state ≠ .registered)
    (hafter : t.after.session.registration.state ≠ .registered) :
    ts'.find? .report = none := by
  obtain ⟨mid, hopening, hwork⟩ := Timers.serves_append_iff.1 hserves
  rw [hwork.eq_of_settings ht.drains.settings_log]
  have hunset : settings t.opening = [] → mid.find? .report = none := fun hsettings => by
    rw [hopening.eq_of_settings hsettings, hnone]
  have hreceives := ht.receives
  cases hsets : t.input.setsTimers with
  | false => exact hunset (ht.settings_log ▸ ht.settings_of_setsTimers hsets)
  | true =>
      cases hinput : t.input with
      | start => rw [hinput] at hsets; cases hsets
      | event event =>
          rw [hinput] at hreceives hsets
          cases event with
          | registrationCompleted outcome =>
              have hidle : t.applied.session.work.items = [] := by
                rw [(Engine.path_onRegistration hreceives).2]
                exact h.idle
              rw [(ht.drains.of_idle hidle).2] at hafter
              exact hunset (Engine.settings_of_unregistered hreceives hafter)
          | setTesting on =>
              obtain ⟨-, hsettings⟩ | ⟨-, hsettings⟩ := Engine.settings_setTesting hreceives
              · exact hunset hsettings
              · cases on with
                | true =>
                    have hfind := hopening.find? hsound .report
                    rw [hsettings] at hfind
                    exact hfind
                | false =>
                    rw [if_neg Bool.false_ne_true, if_neg hbefore] at hsettings
                    exact hunset hsettings
          | commandReceived request =>
              obtain ⟨hsettings, -⟩ | ⟨-, command, action, running, -, -, -, hsettings, hasks⟩ :=
                Engine.settings_onCommand hreceives
              · exact hunset hsettings
              · exact Action.find?_report_eq_none hopening hsound hsettings hasks hnone
          | _ => cases hsets

/-- A node that stays connected stays registered. -/
theorem AtRest.registered (h : AtRest turns t.before) (ht : t.Happens)
    (hstart : t.input = .start → t.before.state ≠ .connected)
    (hbefore : t.before.state = .connected) (hafter : t.after.state = .connected)
    (hregistered : t.before.session.registration.state = .registered) :
    t.after.session.registration.state = .registered := by
  have hregisters := h.registers ht hstart fun hconnects => hconnects.1 hbefore
  rw [hregistered] at hregisters
  exact hregisters.registered fun hended => hended hafter

/-- The report timer does not run, and none of its expiries waits. -/
structure Silent (ts : Timers) (queue : List Waiting) : Prop where
  stopped : ts.find? .report = none
  awaited : ∀ w ∈ queue, w.event ≠ .timerFired .report

/-- While the node is connected and not registered, the report timer is silent, unless it is left
over. -/
theorem Course.leftover_or_silent (course : Course config dealt e ts queue)
    (hs : e.state = .connected) (hr : e.session.registration.state ≠ .registered) :
    Leftover dealt ∨ Silent ts queue := by
  induction course with
  | start t hnew hinput ht hserves =>
      have hnone := ht.settings_of_setsTimers (by rw [hinput]; rfl)
      rw [hserves.eq_of_settings hnone]
      exact .inr ⟨Timers.find?_initial _, nofun⟩
  | push events hevents course ih =>
      refine (ih hs hr).imp_right fun hsilent => ⟨hsilent.stopped, fun w hw hexpiry => ?_⟩
      obtain hw | ⟨hmem, -⟩ := mem_enqueueAll hw
      · exact hsilent.awaited w hw hexpiry
      · rw [hexpiry] at hmem
        exact hevents _ hmem
  | tick elapsed course ih =>
      refine (ih hs hr).imp_right fun hsilent => ⟨?_, fun w hw hexpiry => ?_⟩
      · rw [Timers.find?_tick course.sound, hsilent.stopped]
        rfl
      · obtain hw | ⟨⟨a, ha, -⟩, -⟩ := mem_enqueueAll_tick hw course.sound hexpiry
        · exact hsilent.awaited w hw hexpiry
        · rw [hsilent.stopped] at ha
          cases ha
  | @deal dealt ts ts' d course hclock hinput ht hserves ih =>
      obtain ⟨turns, hrest⟩ := course.atRest
      have hstart : d.turn.input = .start → d.turn.before.state ≠ .connected :=
        fun hstart => absurd hstart (Turn.ne_start_of_event hinput)
      have hsilent : d.turn.before.session.registration.state ≠ .registered →
          Silent ts d.behind → Silent ts' d.behind := fun hbefore hsilent =>
        ⟨hrest.find?_report_eq_none ht hserves course.sound hsilent.stopped hbefore hr,
          hsilent.awaited⟩
      by_cases hconnected : d.turn.before.state = .connected
      · have hbefore : d.turn.before.session.registration.state ≠ .registered :=
          fun hregistered => hr (hrest.registered ht hstart hconnected hs hregistered)
        obtain hleft | hwas := ih hconnected hbefore
        · exact .inl (hleft.concat hs)
        · exact .inr (hsilent hbefore
            ⟨hwas.stopped, fun w hw => hwas.awaited w (List.mem_cons_of_mem _ hw)⟩)
      · by_cases hleft : ReportsOn dealt ∨ d.Awaits .report
        · exact .inl (.of_connects ⟨hconnected, hs⟩ hleft)
        · obtain ⟨hoff, hnone⟩ := not_or.1 hleft
          rw [course.reportsOn_iff, not_not] at hoff
          refine .inr (hsilent ?_ ⟨hoff, fun w hw hexpiry => hnone ⟨w, hw, hexpiry⟩⟩)
          rw [(hrest.away hconnected).registration]
          nofun

/-! ## expiries -/

/-- What an expiry of the report timer sends: nothing while there is no connection or in testing
mode, and else a report, or the question for the coordinator if that is not known. -/
theorem AtRest.requests_of_expiry (h : AtRest turns t.before) (ht : t.Happens)
    (hinput : t.input = .event (.timerFired .report)) :
    (¬(t.before.state = .connected ∧ t.before.session.testing = false) ∧ requests t.log = []) ∨
      (t.before.state = .connected ∧ t.before.session.testing = false) ∧
        ((t.before.session.peer = none ∧ requests t.log = [Provisioning.request]) ∨
          ∃ peer id readings, t.before.session.peer = some peer ∧
            requests t.log = [t.before.reportRequest peer id readings]) := by
  have hreceives : Path (t.before.onTimer .report) t.opening t.applied := by
    rw [← show t.before.receive t.input = t.before.onTimer .report by rw [hinput]; rfl]
    exact ht.receives
  obtain ⟨hopening, ⟨-, happlied⟩ | ⟨⟨group, hgroup⟩, -⟩⟩ := Engine.path_onTimer hreceives
  · have hitems : t.applied.session.work.items = [.reportStatus] := by
      rw [happlied]
      exact Engine.items_submit_of_idle _ h.idle
    obtain ⟨first, e₂, rest, htasks, hreport, hdrains⟩ := ht.drains.of_items_eq_cons hitems
    have hlog : requests t.log = requests first ++ requests (rest.flatMap Task.log) := by
      rw [Turn.log, requests_append, hopening, htasks, List.flatMap_cons, requests_append]
      rfl
    rw [happlied] at hreport
    obtain ⟨hnot, rfl, rfl⟩ | ⟨hs, ⟨hpeer, -⟩ | ⟨peer, hpeer, hsend⟩⟩ :=
      Engine.path_reportStatus hreport
    · rw [(hdrains.of_idle rfl).1] at hlog
      exact .inl ⟨hnot, hlog⟩
    · exact .inr ⟨hs, .inl ⟨hpeer, h.requests_of_needsPeer ht hinput rfl hs.1 hs.2 hpeer⟩⟩
    · obtain ⟨rfl, id, readings, hrequests⟩ := Engine.requests_sendReport hsend
      rw [(hdrains.of_idle rfl).1, hrequests] at hlog
      exact .inr ⟨hs, .inr ⟨peer, id, readings, hpeer, hlog⟩⟩
  · cases hgroup

/-- Nothing is sent early except in an episode with a report timer that is left over. -/
theorem Course.leftover_of_reportsEarly (course : Course config (past ++ d :: later) e ts queue)
    (h : d.ReportsEarly) : Leftover past := by
  obtain ⟨hexpiry, hr, request, hmem, -⟩ := h
  obtain ⟨_, _, hbefore, -, hinput, ht, -⟩ := course.split
  obtain ⟨turns, hrest⟩ := hbefore.atRest
  rw [hexpiry] at hinput
  obtain ⟨-, hnone⟩ | ⟨⟨hs, -⟩, -⟩ := hrest.requests_of_expiry ht hinput
  · rw [hnone] at hmem
    cases hmem
  · obtain hleft | hsilent := hbefore.leftover_or_silent hs hr
    · exact hleft
    · exact absurd hexpiry (hsilent.awaited _ List.mem_cons_self)

/-- The node would send a report if it was asked for one, but it is not registered. -/
structure Engine.Eager (e : Engine) : Prop where
  connected : e.state = .connected
  testing : e.session.testing = false
  peer : e.session.peer ≠ none
  unregistered : e.session.registration.state ≠ .registered

/-- An expiry leaves an engine that would send a report as it is in this. -/
theorem AtRest.eager_of_expiry {timer : Timer} (h : AtRest turns t.before) (ht : t.Happens)
    (hinput : t.input = .event (.timerFired timer)) (heager : t.before.Eager) :
    t.after.Eager := by
  have hreceives := ht.receives
  rw [hinput] at hreceives
  have happlied : Engine.SameFacts t.before t.applied := by
    obtain ⟨-, ⟨-, happlied⟩ | ⟨-, happlied⟩⟩ := Engine.path_onTimer hreceives
    · rw [happlied]
      exact Engine.sameFacts_submit _ _
    · rw [happlied]
      exact .refl _
  have hsame := happlied.trans ht.drains.sameFacts.1
  constructor
  · rw [hsame.state, heager.connected]
  · rw [hsame.testing, heager.testing]
  · rw [hsame.peer]
    exact heager.peer
  · rw [h.registration_eq ht hinput (fun _ => nofun) rfl]
    exact heager.unregistered

/-- The coordinator's answer makes a connected node ready to send reports, registered or not. -/
theorem AtRest.eager_of_reply {payload : Bytes} (h : AtRest turns t.before) (ht : t.Happens)
    (hinput : t.input = .event (.reply .provisioning payload)) (hlength : payload.length = 16)
    (hs : t.before.state = .connected) (htesting : t.before.session.testing = false)
    (hr : t.before.session.registration.state ≠ .registered) : t.after.Eager := by
  have hreceives := ht.receives
  rw [hinput] at hreceives
  have hsame := ht.drains.sameFacts.1
  obtain ⟨-, ⟨-, address, -, happlied⟩ | ⟨hnot, -⟩⟩ := Engine.path_onProvisioningReply hreceives
  · rw [happlied] at hsame
    constructor
    · rw [hsame.state]
      exact hs
    · rw [hsame.testing]
      exact htesting
    · rw [hsame.peer]
      exact Option.some_ne_none address
    · rw [h.registration_eq ht hinput (fun _ => nofun) rfl]
      exact hr
  · exact absurd ⟨hs, by simp [Octets.ofBytes?, hlength]⟩ hnot

theorem Engine.Eager.reportsEarly (heager : d.turn.before.Eager) (h : AtRest turns d.turn.before)
    (ht : d.turn.Happens) (hinput : d.turn.input = .event d.item.event)
    (hexpiry : d.item.event = .timerFired .report) : d.ReportsEarly := by
  rw [hexpiry] at hinput
  obtain ⟨hnot, -⟩ | ⟨-, ⟨hpeer, -⟩ | ⟨peer, id, readings, -, hrequests⟩⟩ :=
    h.requests_of_expiry ht hinput
  · exact absurd ⟨heager.connected, heager.testing⟩ hnot
  · exact absurd hpeer heager.peer
  · refine ⟨hexpiry, heager.unregistered, d.turn.before.reportRequest peer id readings, ?_, rfl,
      rfl⟩
    rw [hrequests]
    exact List.mem_singleton_self _

namespace Course

/-- The expiries that wait are dealt with up to that of the report timer. -/
theorem exists_reportsEarly_of_expiry {h : Host} (course : Course config dealt e h.timers queue)
    (heager : e.Eager) (hexpiries : ∀ w ∈ queue, ∃ timer, w.event = .timerFired timer)
    (hreport : ∃ w ∈ queue, w.event = .timerFired .report) :
    ∃ during d e' ts' queue', Course config (dealt ++ (during ++ [d])) e' ts' queue' ∧
      (∀ u ∈ during, u.turn.after.state = .connected) ∧ d.ReportsEarly := by
  induction queue generalizing dealt e h with
  | nil =>
      obtain ⟨w, hw, -⟩ := hreport
      cases hw
  | cons w queue ih =>
      obtain ⟨turns, hrest⟩ := course.atRest
      obtain ⟨d, hcourse, hitem, -, -, hinput, -, -, rfl, hafter⟩ :=
        course.exists_deal Host.keepsTimers
      obtain ⟨_, _, -, -, -, ht, -⟩ := hcourse.split
      by_cases hfirst : w.event = .timerFired .report
      · exact ⟨[], d, _, _, _, hcourse, fun u hu => absurd hu List.not_mem_nil,
          heager.reportsEarly hrest ht (by rw [hinput, hitem]) (by rw [hitem, hfirst])⟩
      · obtain ⟨timer, hexpiry⟩ := hexpiries w List.mem_cons_self
        rw [hexpiry] at hinput
        have hlater := hrest.eager_of_expiry ht hinput heager
        rw [hafter] at hlater
        obtain ⟨w', hw', hreport⟩ := hreport
        obtain rfl | hw' := List.mem_cons.1 hw'
        · exact absurd hreport hfirst
        · obtain ⟨during, d', e', ts', queue', hcourse, hduring, hearly⟩ :=
            ih hcourse hlater (fun v hv => hexpiries v (List.mem_cons_of_mem _ hv))
              ⟨w', hw', hreport⟩
          refine ⟨d :: during, d', e', ts', queue', by simpa using hcourse, fun u hu => ?_, hearly⟩
          obtain rfl | hu := List.mem_cons.1 hu
          · rw [hafter]
            exact hlater.connected
          · exact hduring u hu

/-- If the report timer runs, it fires once enough time has passed. -/
theorem exists_reportsEarly_of_eager {h : Host} (course : Course config dealt e h.timers [])
    (heager : e.Eager) (hon : ReportsOn dealt) :
    ∃ during d e' ts' queue', Course config (dealt ++ (during ++ [d])) e' ts' queue' ∧
      (∀ u ∈ during, u.turn.after.state = .connected) ∧ d.ReportsEarly := by
  obtain ⟨a, ha⟩ := Option.ne_none_iff_exists'.1 (course.reportsOn_iff.1 hon)
  have hfires : .report ∈ (h.timers.tick a.due).1 :=
    (Timers.mem_tick_iff course.sound).2 ⟨a, ha, Nat.le_add_left ..⟩
  have hroom : ((h.timers.tick a.due).1.map Event.timerFired).length ≤ EventQueue.capacity := by
    rw [List.length_map]
    exact Nat.le_trans (Timers.length_tick_le course.sound _) (by decide)
  have hticked : Course config dealt e
      { h with timers := (h.timers.tick a.due).2 : Host }.timers _ := course.tick a.due
  refine hticked.exists_reportsEarly_of_expiry heager (fun w hw => ?_) ⟨_,
    mem_enqueueAll_of_mem (by simpa using hroom) (List.mem_map_of_mem hfires), rfl⟩
  obtain hw | ⟨hmem, -⟩ := mem_enqueueAll hw
  · cases hw
  · obtain ⟨timer, -, hexpiry⟩ := List.mem_map.1 hmem
    exact ⟨timer, hexpiry.symm⟩

/-- The engine after the last event. -/
theorem engine_eq (course : Course config (dealt ++ [d]) e ts queue) : e = d.turn.after := by
  obtain ⟨t, run⟩ := course.timedRun
  rw [List.map_append, ← List.cons_append] at run
  exact (run.run (by simp)).last.2.1

/-- A new connection while the report timer runs: the coordinator answers, time passes, and a report
is sent before the registration has succeeded. -/
theorem exists_reportsEarly (course : Course config (past ++ [c]) e ts [])
    (hconnects : c.turn.connects) (hon : ReportsOn past) :
    ∃ during d e' ts' queue', Course config (past ++ c :: (during ++ [d])) e' ts' queue' ∧
      (∀ u ∈ during, u.turn.after.state = .connected) ∧ d.ReportsEarly := by
  obtain rfl := course.engine_eq
  obtain ⟨_, _, hbefore, -, hinput, ht, -⟩ := course.split
  obtain ⟨turns, hrest⟩ := hbefore.atRest
  have hstart : c.turn.input = .start → c.turn.before.state ≠ .connected := fun _ => hconnects.1
  have hnone : settings c.turn.log = [] := by
    refine ht.settings_of_setsTimers ?_
    obtain hrole | ⟨role, hrole⟩ := hrest.input_of_connects ht hconnects <;> rw [hrole] <;> rfl
  have htesting : c.turn.after.session.testing = false := by
    rw [ht.drains.sameFacts.1.testing, (hrest.connects ht hstart hconnects).1]
    rfl
  have hr : c.turn.after.session.registration.state ≠ .registered := by
    obtain ⟨s, rfl | rfl, -, hs⟩ := hrest.begins ht hstart hconnects <;> rw [hs] <;> nofun
  -- the coordinator answers
  obtain ⟨d, hanswered, -, -, -, hreply, -, -, hd, hafter⟩ := exists_deal Host.keepsTimers
    (show Course config (past ++ [c]) c.turn.after { Host.initial .child with timers := ts }.timers
      [⟨.reply .provisioning (List.replicate 16 0), _⟩] from course.push [_] (by simp))
  obtain ⟨_, _, -, -, -, htd, -⟩ := hanswered.split
  obtain ⟨turns', hrest'⟩ := course.atRest
  rw [← hd] at hrest' hr htesting
  have heager := hrest'.eager_of_reply htd hreply rfl (hd ▸ hconnects.2) htesting hr
  rw [hafter] at heager
  obtain ⟨during, d', e', ts', queue', hcourse, hduring, hearly⟩ :=
    hanswered.exists_reportsEarly_of_eager heager
      ((hon.concat hnone).concat (htd.settings_of_setsTimers (by rw [hreply]; rfl)))
  refine ⟨d :: during, d', e', ts', queue', by simpa using hcourse, fun u hu => ?_, hearly⟩
  obtain rfl | hu := List.mem_cons.1 hu
  · rw [hafter]
    exact heager.connected
  · exact hduring u hu

/-- Within an episode, a report that the timer asks for is sent before the registration has
succeeded only if the timer or one of its expiries was left over when the episode began. If it was
the timer, and nothing else waited then, such a report can indeed be sent. -/
theorem reports_early (course : Course config dealt e ts queue) :
    (∀ past d later, dealt = past ++ d :: later → d.ReportsEarly → Leftover past) ∧
    ∀ past c, dealt = past ++ [c] → c.turn.connects → ReportsOn past → queue = [] →
      ∃ during d e' ts' queue', Course config (past ++ c :: (during ++ [d])) e' ts' queue' ∧
        (∀ u ∈ during, u.turn.after.state = .connected) ∧ d.ReportsEarly := by
  refine ⟨fun past d later hdealt hearly => ?_, fun past c hdealt hconnects hon hqueue => ?_⟩
  · rw [hdealt] at course
    exact course.leftover_of_reportsEarly hearly
  · rw [hdealt, hqueue] at course
    exact course.exists_reportsEarly hconnects hon

/-- A simulated node that was registered, lost its connection and is connected again. -/
def reconnected : Engine × Host :=
  afterEvent (.roleChanged .child) (afterEvent (.roleChanged .detached)
    (afterEvent (.registrationCompleted .registered) (afterEvent (.roleChanged .child) started)))

theorem reconnected_course :
    ∃ past c, Course .default (past ++ [c]) reconnected.1 reconnected.2.timers [] ∧
      (past ++ [c]).map (fun d => d.item.event) = [.roleChanged .child,
        .registrationCompleted .registered, .roleChanged .detached, .roleChanged .child] ∧
      c.turn.connects ∧ ReportsOn past := by
  obtain ⟨d₁, hdealt₁, hitem₁, -⟩ :=
    exists_afterEvent (started_course.push [.roleChanged .child] (by simp))
  obtain ⟨d₂, hdealt₂, hitem₂, -⟩ :=
    exists_afterEvent (hdealt₁.push [.registrationCompleted .registered] (by simp))
  obtain ⟨d₃, hdealt₃, hitem₃, -⟩ :=
    exists_afterEvent (hdealt₂.push [.roleChanged .detached] (by simp))
  obtain ⟨d₄, hdealt₄, hitem₄, -, -, -, -, -, hbefore, hafter⟩ :=
    exists_deal Host.keepsTimers (hdealt₃.push [.roleChanged .child] (by simp))
  refine ⟨[d₁, d₂, d₃], d₄, hdealt₄, by simp [hitem₁, hitem₂, hitem₃, hitem₄], ?_,
    hdealt₃.reportsOn_iff.2 (by decide +kernel)⟩
  rw [Turn.connects, hbefore, hafter]
  exact ⟨by decide +kernel, show reconnected.1.state = .connected by decide +kernel⟩

/-- The coordinator's answer, with an address of zeros. -/
def answerOfZeros : Event := .reply .provisioning (List.replicate 16 0)

/-- The second connection of a simulated node, with the report timer of the first. -/
theorem reports_early_simulated :
    ∃ past c during d e ts queue, Course .default (past ++ c :: (during ++ [d])) e ts queue ∧
      c.turn.connects ∧ ReportsOn past ∧ d.ReportsEarly ∧ Leftover (past ++ c :: during) := by
  obtain ⟨past, c, course, -, hconnects, hon⟩ := reconnected_course
  obtain ⟨during, d, e, ts, queue, hcourse, -, hearly⟩ :=
    course.reports_early.2 past c rfl hconnects hon rfl
  have hleft := hcourse.reports_early.1 (past ++ c :: during) d [] (by simp) hearly
  exact ⟨past, c, during, d, e, ts, queue, hcourse, hconnects, hon, hearly, hleft⟩

/-- The coordinator answers a simulated node on its second connection. Three seconds later the
report timer of the first fires, and a report is sent while the registration is in progress. -/
theorem reported_while_registering :
    ∃ past d e ts queue, Course .default (past ++ [d]) e ts queue ∧
      (past ++ [d]).map (fun d => d.item.event) = [.roleChanged .child,
        .registrationCompleted .registered, .roleChanged .detached, .roleChanged .child,
        answerOfZeros, .timerFired .report] ∧
      d.turn.before.state = .connected ∧
      d.turn.before.session.registration.state = .inProgress ∧ d.ReportsEarly := by
  obtain ⟨past, c, hdealt, hevents, -⟩ := reconnected_course
  obtain ⟨u, hanswered, hanswer, -⟩ :=
    exists_afterEvent (hdealt.push [answerOfZeros] (by simp [answerOfZeros]))
  have hfires : ((afterEvent answerOfZeros reconnected).2.timers.tick 3000).1 = [.report] := by
    decide +kernel
  have hticked := hanswered.tick 3000
  rw [hfires] at hticked
  obtain ⟨d, hreported, hexpiry, -, -, hinput, -, -, hbefore, -⟩ :=
    exists_deal Host.keepsTimers (show Course .default _ (afterEvent answerOfZeros reconnected).1
      { (afterEvent answerOfZeros reconnected).2 with
        timers := ((afterEvent answerOfZeros reconnected).2.timers.tick 3000).2 : Host }.timers
      [⟨.timerFired .report, _⟩] from hticked)
  obtain ⟨_, _, -, -, -, ht, -⟩ := hreported.split
  obtain ⟨turns, hrest⟩ := hticked.atRest
  rw [← hbefore] at hrest
  have hstate : d.turn.before.state = .connected ∧
      d.turn.before.session.registration.state = .inProgress := by
    rw [hbefore]
    decide +kernel
  have heager : d.turn.before.Eager := by
    refine ⟨hstate.1, ?_, ?_, by rw [hstate.2]; nofun⟩ <;> rw [hbefore] <;> decide +kernel
  refine ⟨_, d, _, _, _, hreported, ?_, hstate.1, hstate.2,
    heager.reportsEarly hrest ht (by rw [hinput, hexpiry]) (by rw [hexpiry])⟩
  rw [List.map_append, List.map_append, hevents]
  simp [hanswer, hexpiry]

end Course

end MeshLight
