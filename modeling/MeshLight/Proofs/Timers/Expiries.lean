import MeshLight.Proofs.Timers.Course

/-!
# MeshLight.Proofs.Timers.Expiries

A timer that fires only queues an event. The expiry takes effect when its turn comes, and by then
the timer may have been stopped or started again. Every expiry is traced back to the event that had
started its timer when it was queued (`StartedBy`). Stopping or restarting a timer calls off the
expiries of its earlier starts exactly if none of them waits in the queue at that moment
(`Course.calls_off_iff`).
-/

namespace MeshLight

open Prog

variable {queue : List Waiting}

/-! ## starts -/

/-- A turn that starts or stops the timer. -/
def Turn.Sets (timer : Timer) (t : Turn) : Prop := lastSetting timer (settings t.log) ≠ none

/-- The entry of the timer right after an event that started it. -/
def Dealt.leaves? (timer : Timer) (d : Dealt) : Option Armed :=
  (lastSetting timer (settings d.turn.log)).bind (TimerCall.leaves? d.clock)

/-- What an event leaves of a timer. -/
theorem Dealt.find?_after (timer : Timer) {d : Dealt} {ts ts' : Timers}
    (hserves : ts.Serves d.turn.log ts') (hsound : ts.Sound) (hclock : d.clock = ts.now) :
    (d.turn.Sets timer → ts'.find? timer = d.leaves? timer) ∧
      (¬d.turn.Sets timer → ts'.find? timer = ts.find? timer) := by
  rw [hserves.find? hsound, Dealt.leaves?, Turn.Sets, hclock]
  cases lastSetting timer (settings d.turn.log) <;> simp

/-- The last of the events that started or stopped the timer is `d`, which comes after `past`. It
started the timer with the entry `a`. -/
def StartedBy (timer : Timer) (dealt past : List Dealt) (d : Dealt) (a : Armed) : Prop :=
  d.leaves? timer = some a ∧
    ∃ later, dealt = past ++ d :: later ∧ ∀ u ∈ later, ¬u.turn.Sets timer

theorem startedBy_concat {timer : Timer} {dealt past : List Dealt} {d u : Dealt} {a : Armed} :
    StartedBy timer (dealt ++ [u]) past d a ↔
      (u.leaves? timer = some a ∧ past = dealt ∧ d = u) ∨
        ¬u.turn.Sets timer ∧ StartedBy timer dealt past d a := by
  constructor
  · intro h
    obtain ⟨hleaves, later, hdealt, hlater⟩ := h
    obtain ⟨rfl, rfl, -⟩ | ⟨rest, rfl, rfl⟩ := append_cons_eq_concat_iff.1 hdealt.symm
    · exact .inl ⟨hleaves, rfl, rfl⟩
    · exact .inr ⟨hlater u (by simp), hleaves, rest, rfl, fun v hv => hlater v (by simp [hv])⟩
  · intro h
    obtain ⟨hleaves, rfl, rfl⟩ | ⟨hnot, hleaves, later, rfl, hlater⟩ := h
    · exact ⟨hleaves, [], rfl, fun v hv => absurd hv List.not_mem_nil⟩
    · refine ⟨hleaves, later ++ [u], by simp, fun v hv => ?_⟩
      obtain hv | hv := List.mem_append.1 hv
      · exact hlater v hv
      · rw [List.mem_singleton.1 hv]
        exact hnot

namespace StartedBy

variable {timer : Timer} {dealt past more before : List Dealt} {d s : Dealt} {a : Armed}

/-- The start comes after the first events, or else it is the last word on the timer among these and
none of the others sets it. -/
theorem of_append (h : StartedBy timer (past ++ more) before s a) :
    past.length ≤ before.length ∨
      StartedBy timer past before s a ∧ ∀ u ∈ more, ¬u.turn.Sets timer := by
  obtain ⟨hleaves, rest, hsplit, hrest⟩ := h
  obtain ⟨as, rfl, -⟩ | ⟨bs, rfl, hbs⟩ := List.append_eq_append_iff.1 hsplit
  · exact .inl (by simp)
  · cases bs with
    | nil => exact .inl (by simp)
    | cons b bs =>
        obtain ⟨rfl, rfl⟩ := List.cons.inj hbs
        exact .inr ⟨⟨hleaves, bs, rfl, fun u hu => hrest u (List.mem_append_left _ hu)⟩,
          fun u hu => hrest u (List.mem_append_right _ hu)⟩

/-- The same of the events up to some later one. -/
theorem of_take {n : Nat} (h : StartedBy timer ((past ++ d :: more).take n) before s a)
    (hn : past.length < n) :
    past.length ≤ before.length ∨ StartedBy timer past before s a ∧ ¬d.turn.Sets timer := by
  obtain ⟨k, rfl⟩ := Nat.exists_eq_add_of_lt hn
  rw [Nat.add_assoc, List.take_length_add_append, List.take_succ_cons] at h
  obtain hle | ⟨hpast, hnone⟩ := h.of_append
  · exact .inl hle
  · exact .inr ⟨hpast, hnone d (List.mem_cons_self ..)⟩

theorem length_lt {n : Nat} (h : StartedBy timer (dealt.take n) before s a) :
    before.length < n := by
  obtain ⟨-, rest, hsplit, -⟩ := h
  have hlength := congrArg List.length hsplit
  simp only [List.length_take, List.length_append, List.length_cons] at hlength
  omega

theorem exists_append {n : Nat} (h : StartedBy timer (dealt.take n) before s a) :
    ∃ rest, dealt = before ++ s :: rest := by
  obtain ⟨-, rest, hsplit, -⟩ := h
  exact ⟨rest ++ dealt.drop n, by rw [← List.cons_append, ← List.append_assoc, ← hsplit,
    List.take_append_drop]⟩

end StartedBy

namespace Course

variable {config : Config} {dealt past later : List Dealt} {d : Dealt} {e : Engine} {ts : Timers}
variable {timer : Timer} {a : Armed}

/-- A timer that runs was started, and is not due before it first was. -/
theorem startedBy_of_find? (course : Course config dealt e ts queue)
    (ha : ts.find? timer = some a) :
    ∃ past d first, StartedBy timer dealt past d first ∧ first.due ≤ a.due := by
  induction course generalizing a with
  | start t hnew hinput ht hserves =>
      have hnone := ht.settings_of_setsTimers (by rw [hinput]; rfl)
      rw [hserves.eq_of_settings hnone, Timers.find?_initial] at ha
      cases ha
  | push events hevents course ih => exact ih ha
  | tick elapsed course ih =>
      rw [Timers.find?_tick course.sound, Option.bind_eq_some_iff] at ha
      obtain ⟨b, hb, hrenew⟩ := ha
      obtain ⟨past, d, first, hstarted, hdue⟩ := ih hb
      exact ⟨past, d, first, hstarted, Nat.le_trans hdue (Timers.le_due_renewSlot hrenew)⟩
  | deal u course hclock hinput ht hserves ih =>
      obtain ⟨hsets, hkeeps⟩ := Dealt.find?_after timer hserves course.sound hclock
      by_cases hset : u.turn.Sets timer
      · rw [hsets hset] at ha
        exact ⟨_, u, a, startedBy_concat.2 (.inl ⟨ha, rfl, rfl⟩), Nat.le_refl _⟩
      · rw [hkeeps hset] at ha
        obtain ⟨past, d, first, hstarted, hdue⟩ := ih ha
        exact ⟨past, d, first, startedBy_concat.2 (.inr ⟨hset, hstarted⟩), hdue⟩

/-- Every expiry that waits comes from a start of its timer, and not before that was due. -/
theorem startedBy_of_mem (course : Course config dealt e ts queue) :
    ∀ w ∈ queue, w.event = .timerFired timer →
      ∃ past d first, StartedBy timer (dealt.take w.stamp) past d first ∧ first.due ≤ ts.now := by
  induction course with
  | start => exact nofun
  | push events hevents course ih =>
      intro w hw hexpiry
      obtain hw | ⟨hmem, -⟩ := mem_enqueueAll hw
      · exact ih w hw hexpiry
      · rw [hexpiry] at hmem
        exact absurd hmem (hevents timer)
  | tick elapsed course ih =>
      intro w hw hexpiry
      obtain hw | ⟨⟨a, ha, hdue⟩, hstamp⟩ := mem_enqueueAll_tick hw course.sound hexpiry
      · obtain ⟨past, d, first, hstarted, hdue⟩ := ih w hw hexpiry
        exact ⟨past, d, first, hstarted, Nat.le_add_right_of_le hdue⟩
      · obtain ⟨past, d, first, hstarted, hfirst⟩ := course.startedBy_of_find? ha
        refine ⟨past, d, first, ?_, Nat.le_trans hfirst hdue⟩
        rwa [hstamp, List.take_length]
  | deal u course hclock hinput ht hserves ih =>
      intro w hw hexpiry
      have hw := List.mem_cons_of_mem u.item hw
      obtain ⟨past, d, first, hstarted, hdue⟩ := ih w hw hexpiry
      refine ⟨past, d, first, ?_, ?_⟩
      · rwa [List.take_append_of_le_length (course.stamp_le w hw)]
      · rwa [hserves.now]

/-- The report timer goes on once it was started, until it is stopped. -/
theorem find?_report_of_startedBy (course : Course config dealt e ts queue)
    (h : StartedBy .report dealt past d a) : ts.find? .report ≠ none := by
  induction course generalizing past d a with
  | start =>
      obtain ⟨-, later, hnil, -⟩ := h
      simp at hnil
  | push events hevents course ih => exact ih h
  | tick elapsed course ih =>
      obtain ⟨t, run⟩ := course.timedRun
      obtain ⟨hsound, hreports⟩ := run.reports_session
      obtain ⟨b, hb⟩ := Option.ne_none_iff_exists'.1 (ih h)
      obtain ⟨b', hb', -⟩ := Timers.find?_tick_of_every hsound hb (hreports.periodic b hb) elapsed
      rw [hb']
      nofun
  | deal u course hclock hinput ht hserves ih =>
      obtain ⟨hsets, hkeeps⟩ := Dealt.find?_after .report hserves course.sound hclock
      obtain ⟨hleaves, -, -⟩ | ⟨hnot, hstarted⟩ := startedBy_concat.1 h
      · have hset : u.turn.Sets .report := by
          intro hnone
          rw [Dealt.leaves?, hnone] at hleaves
          cases hleaves
        rw [hsets hset, hleaves]
        nofun
      · rw [hkeeps hnot]
        exact ih hstarted

end Course

/-! ## calling off -/

/-- An expiry of the timer waits while the event is dealt with. -/
def Dealt.Awaits (timer : Timer) (d : Dealt) : Prop := ∃ w ∈ d.behind, w.event = .timerFired timer

/-- The expiry comes from a start that one of the events after the first `n` made. -/
def StartedSince (timer : Timer) (dealt : List Dealt) (n : Nat) (w : Waiting) : Prop :=
  ∃ before s a, StartedBy timer (dealt.take w.stamp) before s a ∧ n ≤ before.length

namespace Course

variable {config : Config} {dealt past later : List Dealt} {d : Dealt} {e : Engine} {ts : Timers}
variable {timer : Timer} {a : Armed}

/-- Every expiry comes from a start of its timer. -/
theorem exists_startedBy (course : Course config (past ++ d :: later) e ts queue) {w : Waiting}
    (hw : w ∈ later.map Dealt.item ++ queue) (hexpiry : w.event = .timerFired timer) :
    ∃ before s a, StartedBy timer ((past ++ d :: later).take w.stamp) before s a := by
  obtain hw | hw := List.mem_append.1 hw
  · obtain ⟨b, hb, rfl⟩ := List.mem_map.1 hw
    obtain ⟨between, last, rfl⟩ := List.append_of_mem hb
    rw [← List.cons_append, ← List.append_assoc] at course ⊢
    obtain ⟨_, _, hbefore, -⟩ := course.split
    obtain ⟨before, s, a, hstarted, -⟩ :=
      hbefore.startedBy_of_mem _ (List.mem_cons_self ..) hexpiry
    rw [List.take_append_of_le_length (hbefore.stamp_le _ (List.mem_cons_self ..))]
    exact ⟨before, s, a, hstarted⟩
  · obtain ⟨before, s, a, hstarted, -⟩ := course.startedBy_of_mem w hw hexpiry
    exact ⟨before, s, a, hstarted⟩

/-- If no expiry of the timer waits, all that are dealt with from then on were queued later. -/
theorem length_lt_stamp (course : Course config (past ++ d :: later) e ts queue)
    (hnone : ¬d.Awaits timer) {w : Waiting} (hw : w ∈ later.map Dealt.item ++ queue)
    (hexpiry : w.event = .timerFired timer) : past.length < w.stamp := by
  obtain ⟨new, hnew, hstamps⟩ := course.fifo
  rw [hnew] at hw
  obtain hw | hw := List.mem_append.1 hw
  · exact absurd ⟨w, hw, hexpiry⟩ hnone
  · exact hstamps w hw

/-- An expiry that waits is dealt with later, although it was queued before. -/
theorem exists_stamp_le (course : Course config (past ++ d :: later) e ts queue)
    (h : d.Awaits timer) :
    ∃ w ∈ later.map Dealt.item ++ queue, w.event = .timerFired timer ∧ w.stamp ≤ past.length := by
  obtain ⟨w, hw, hexpiry⟩ := h
  obtain ⟨new, hnew, -⟩ := course.fifo
  obtain ⟨_, _, hbefore, -⟩ := course.split
  refine ⟨w, ?_, hexpiry, hbefore.stamp_le w (List.mem_cons_of_mem _ hw)⟩
  rw [hnew]
  exact List.mem_append_left _ hw

/-- Once an event has set a timer, the expiries of its earlier starts are called off exactly if none
waits at that moment. -/
theorem startedSince_iff (course : Course config (past ++ d :: later) e ts queue)
    (hsets : d.turn.Sets timer) :
    (∀ w ∈ later.map Dealt.item ++ queue, w.event = .timerFired timer →
        StartedSince timer (past ++ d :: later) past.length w) ↔ ¬d.Awaits timer := by
  constructor
  · intro h hawaits
    obtain ⟨w, hw, hexpiry, hstamp⟩ := course.exists_stamp_le hawaits
    obtain ⟨before, s, a, hstarted, hle⟩ := h w hw hexpiry
    have hlt := hstarted.length_lt
    omega
  · intro hnone w hw hexpiry
    obtain ⟨before, s, a, hstarted⟩ := course.exists_startedBy hw hexpiry
    obtain hle | ⟨-, hnot⟩ := hstarted.of_take (course.length_lt_stamp hnone hw hexpiry)
    · exact ⟨before, s, a, hstarted, hle⟩
    · exact absurd hsets hnot

/-- The start that an expiry comes from, as a call of a turn. -/
theorem exists_setting_of_startedBy (course : Course config dealt e ts queue) {n : Nat}
    {before : List Dealt} {s : Dealt} (h : StartedBy timer (dealt.take n) before s a) :
    s.turn.Happens ∧ s.turn.before.config = config ∧
      ∃ c, lastSetting timer (settings s.turn.log) = some c ∧ c.leaves? s.clock = some a := by
  obtain ⟨rest, rfl⟩ := h.exists_append
  obtain ⟨_, _, hbefore, -, -, hs, -⟩ := course.split
  exact ⟨hs, hbefore.config_eq, Option.bind_eq_some_iff.1 h.1⟩

/-- A start that comes with an event or after it comes no earlier. -/
theorem clock_le_of_startedBy (course : Course config (past ++ d :: later) e ts queue) {n : Nat}
    {before : List Dealt} {s : Dealt}
    (h : StartedBy timer ((past ++ d :: later).take n) before s a)
    (hle : past.length ≤ before.length) : d.clock ≤ s.clock := by
  obtain ⟨rest, hsplit⟩ := h.exists_append
  obtain ⟨-, rfl⟩ | hd := eq_or_mem_of_append_cons_eq hsplit hle
  · exact Nat.le_refl _
  · rw [hsplit] at course
    obtain ⟨ts', _, hbefore, hclock, -⟩ := course.split
    rw [hclock]
    exact hbefore.clock_le d hd

/-- A command without delay stops the switch-off of its group. -/
theorem leaves?_of_setPower (ht : d.turn.Happens) {group : LightGroup} {on : Bool}
    (h : d.turn.Accepts (.setPower group on 0)) :
    d.turn.Sets (.lightOff group) ∧ d.leaves? (.lightOff group) = none := by
  obtain ⟨running, hsettings, -⟩ := ht.settings_of_accepts h
  have hlast : lastSetting (.lightOff group) (settings d.turn.log) =
      some (.stop (.lightOff group)) := by
    rw [hsettings]
    simp [Action.timerCalls, lastSetting, TimerCall.sets?]
  rw [Turn.Sets, Dealt.leaves?, hlast]
  exact ⟨Option.some_ne_none _, rfl⟩

/-- After a command without delay a group is switched off only by commands with a delay that came
later, exactly if no switch-off of the group waits at that moment. -/
theorem switchedOff_iff (course : Course config (past ++ d :: later) e ts queue)
    {group : LightGroup} {on : Bool} (h : d.turn.Accepts (.setPower group on 0)) :
    (∀ w ∈ later.map Dealt.item ++ queue, w.event = .timerFired (.lightOff group) →
        ∃ before s a, StartedBy (.lightOff group) ((past ++ d :: later).take w.stamp) before s a ∧
          past.length < before.length ∧
          ∃ on delaySecs, s.turn.Accepts (.setPower group on delaySecs) ∧ 0 < delaySecs) ↔
      ¬d.Awaits (.lightOff group) := by
  obtain ⟨_, _, -, -, -, ht, -⟩ := course.split
  obtain ⟨hsets, hleaves⟩ := leaves?_of_setPower ht h
  rw [← course.startedSince_iff hsets]
  refine forall₃_congr fun w hw hexpiry => ⟨fun hfirst => ?_, fun hsince => ?_⟩
  · obtain ⟨before, s, a, hstarted, hlt, -⟩ := hfirst
    exact ⟨before, s, a, hstarted, Nat.le_of_lt hlt⟩
  · obtain ⟨before, s, a, hstarted, hle⟩ := hsince
    obtain ⟨rest, hsplit⟩ := hstarted.exists_append
    refine ⟨before, s, a, hstarted, ?_, ?_⟩
    · -- the command itself has stopped the timer, so it is not the start
      refine Nat.lt_of_le_of_ne hle fun heq => ?_
      obtain ⟨-, hs⟩ := List.append_inj hsplit heq
      obtain ⟨rfl, -⟩ := List.cons.inj hs
      rw [hstarted.1] at hleaves
      cases hleaves
    · obtain ⟨hs, -, c, hc, ha⟩ := course.exists_setting_of_startedBy hstarted
      exact hs.accepts_of_starts_lightOff hc ha

/-- After a new interval was accepted, the report timer was started by that command or later. -/
theorem le_of_setReportInterval (course : Course config (past ++ d :: later) e ts queue)
    {interval : ReportInterval} (h : d.turn.Accepts (.setReportInterval interval)) {n : Nat}
    (hn : past.length < n) {before : List Dealt} {s : Dealt}
    (hstarted : StartedBy .report ((past ++ d :: later).take n) before s a) :
    past.length ≤ before.length := by
  obtain hle | ⟨hpast, hnot⟩ := hstarted.of_take hn
  · exact hle
  · -- the timer has run since the earlier start, so the command has started it again
    refine absurd ?_ hnot
    obtain ⟨ts₀, ts₁, hbefore, -, -, ht, hserves, -⟩ := course.split
    obtain ⟨running, hsettings, hasks⟩ := ht.settings_of_accepts h
    obtain ⟨rest, hopening⟩ := hasks interval rfl
    rw [Turn.log, hopening] at hserves
    have hrunning : running = true := by
      rw [show running = ts₀.isRunning .report from hserves.1, Timers.isRunning_eq_isSome]
      exact Option.isSome_iff_ne_none.2 (hbefore.find?_report_of_startedBy hpast)
    rw [Turn.Sets, hsettings, hrunning]
    simp [Action.timerCalls, lastSetting, TimerCall.sets?]

/-- After a new interval was accepted while no expiry of the report timer waited, the first report
that the timer asks for comes no earlier than the initial delay. -/
theorem initialDelay_le (course : Course config (past ++ d :: later) e ts queue)
    {interval : ReportInterval} (h : d.turn.Accepts (.setReportInterval interval))
    (hnone : ¬d.Awaits .report) {b : Dealt} (hb : b ∈ later)
    (hexpiry : b.item.event = .timerFired .report) :
    d.clock + config.reportInitialDelayMs.toNat ≤ b.clock := by
  have hstamp : past.length < b.item.stamp :=
    course.length_lt_stamp hnone (List.mem_append_left _ (List.mem_map_of_mem hb)) hexpiry
  obtain ⟨between, last, rfl⟩ := List.append_of_mem hb
  have hcourse := course
  rw [← List.cons_append, ← List.append_assoc] at hcourse
  obtain ⟨ts₀, _, hbefore, hclock, -⟩ := hcourse.split
  obtain ⟨before, s, a, hstarted, hdue⟩ :=
    hbefore.startedBy_of_mem _ (List.mem_cons_self ..) hexpiry
  have hle := hbefore.le_of_setReportInterval h hstamp hstarted
  have hstart := hbefore.clock_le_of_startedBy hstarted hle
  obtain ⟨hs, hconfig, c, hc, ha⟩ := hbefore.exists_setting_of_startedBy hstarted
  have hfirst := hs.due_of_starts_report hc ha
  rw [hconfig] at hfirst
  omega

/-! ## simulated courses -/

/-- A command that switches the left half on, and off again a second later. -/
def delayedLeft : Event := .commandReceived
  ⟨1, .put, utf8 "\x7b\"cmd\":\"onoff\",\"obj\":\"led_left\",\"val\":1,\"delay\":1\x7d"⟩

/-- A command that switches the left half on. -/
def steadyLeft : Event := .commandReceived
  ⟨2, .put, utf8 "\x7b\"cmd\":\"onoff\",\"obj\":\"led_left\",\"val\":1\x7d"⟩

/-- A simulated node after it started. -/
def started : Engine × Host := Engine.default.start.run Host.answer (.initial .disabled)

/-- A simulated node after an event was dealt with. -/
def afterEvent (event : Event) (n : Engine × Host) : Engine × Host :=
  (n.1.handle event).run Host.answer n.2

/-- A simulated node after a second has passed. -/
def afterSecond (n : Engine × Host) : Engine × Host :=
  (n.1, { n.2 with timers := (n.2.timers.tick 1000).2 })

variable {n : Engine × Host}

theorem started_course : Course .default [] started.1 started.2.timers [] :=
  exists_start Engine.new_default Host.keepsTimers (s := .initial .disabled) rfl

theorem exists_afterEvent {event : Event} {stamp : Nat}
    (course : Course config dealt n.1 n.2.timers (⟨event, stamp⟩ :: queue)) :
    ∃ d, Course config (dealt ++ [d]) (afterEvent event n).1 (afterEvent event n).2.timers queue ∧
      d.item = ⟨event, stamp⟩ ∧ d.behind = queue ∧ d.clock = n.2.timers.now ∧
      d.turn.input = .event event ∧
      d.turn.opening = (n.1.apply event).exchanges Host.answer n.2 ∧
      d.turn.log = (n.1.handle event).exchanges Host.answer n.2 := by
  obtain ⟨d, hcourse, hitem, hbehind, hclock, hinput, hopening, hlog, -⟩ :=
    exists_deal Host.keepsTimers course
  exact ⟨d, hcourse, hitem, hbehind, hclock, hinput, hopening, hlog⟩

theorem afterSecond_course {fired : List Timer} (hfired : (n.2.timers.tick 1000).1 = fired)
    (course : Course config dealt n.1 n.2.timers queue) :
    Course config dealt (afterSecond n).1 (afterSecond n).2.timers
      (enqueueAll dealt.length queue (fired.map .timerFired)) := by
  rw [← hfired]
  exact course.tick 1000

/-! ## what is called off -/

/-- Stopping or restarting a timer calls off the expiries of its earlier starts exactly if none of
them waits in the queue at that moment. In particular a command without delay calls off an earlier
delayed switch-off of its group, and a new interval puts off the next report by the initial delay,
unless the timer has fired already. -/
theorem calls_off_iff (course : Course config (past ++ d :: later) e ts queue) :
    (∀ timer, d.turn.Sets timer →
      ((∀ w ∈ later.map Dealt.item ++ queue, w.event = .timerFired timer →
          StartedSince timer (past ++ d :: later) past.length w) ↔ ¬d.Awaits timer)) ∧
    (∀ group on, d.turn.Accepts (.setPower group on 0) →
      ((∀ w ∈ later.map Dealt.item ++ queue, w.event = .timerFired (.lightOff group) →
          ∃ before s a, StartedBy (.lightOff group) ((past ++ d :: later).take w.stamp) before s a ∧
            past.length < before.length ∧
            ∃ on delaySecs, s.turn.Accepts (.setPower group on delaySecs) ∧ 0 < delaySecs) ↔
        ¬d.Awaits (.lightOff group))) ∧
    ∀ interval, d.turn.Accepts (.setReportInterval interval) → ¬d.Awaits .report →
      ∀ b ∈ later, b.item.event = .timerFired .report →
        d.clock + config.reportInitialDelayMs.toNat ≤ b.clock :=
  ⟨fun _ hsets => course.startedSince_iff hsets, fun _ _ h => course.switchedOff_iff h,
    fun _ h hnone _ hb hexpiry => course.initialDelay_le h hnone hb hexpiry⟩

/-- The left half is switched on with a delay, without one, and with one again. Only the last of the
three commands switches it off in the end. -/
theorem calls_off_iff_simulated :
    ∃ past d later e ts, Course .default (past ++ d :: later) e ts [] ∧
      d.turn.Accepts (.setPower .left true 0) ∧ ¬d.Awaits (.lightOff .left) ∧
      ∃ b ∈ later, b.item.event = .timerFired (.lightOff .left) ∧
        ∃ before s a, StartedBy (.lightOff .left) ((past ++ d :: later).take b.item.stamp) before s a ∧
          past.length < before.length := by
  obtain ⟨d₁, hdealt₁, -⟩ :=
    exists_afterEvent (started_course.push [delayedLeft] (by simp [delayedLeft]))
  obtain ⟨d₂, hdealt₂, -, hbehind₂, -, hinput₂, hopening₂, -⟩ :=
    exists_afterEvent (hdealt₁.push [steadyLeft] (by simp [steadyLeft]))
  obtain ⟨d₃, hdealt₃, -⟩ :=
    exists_afterEvent (hdealt₂.push [delayedLeft] (by simp [delayedLeft]))
  have hfires : ((afterEvent delayedLeft (afterEvent steadyLeft
      (afterEvent delayedLeft started))).2.timers.tick 1000).1 = [.lightOff .left] := by
    decide +kernel
  obtain ⟨d₄, hdealt₄, hitem₄, -⟩ := exists_afterEvent (afterSecond_course hfires hdealt₃)
  have haccepts : d₂.turn.Accepts (.setPower .left true 0) := by
    refine ⟨_, .onOff, hinput₂, rfl, by decide +kernel, ?_⟩
    rw [hopening₂]
    decide +kernel
  have hnone : ¬d₂.Awaits (.lightOff .left) := by
    rw [Dealt.Awaits, hbehind₂]
    simp
  have hcourse : Course .default ([d₁] ++ d₂ :: [d₃, d₄]) _ _ [] := hdealt₄
  have hexpiry : d₄.item.event = .timerFired (.lightOff .left) := by rw [hitem₄]
  obtain ⟨-, hpower, -⟩ := hcourse.calls_off_iff
  obtain ⟨before, s, a, hstarted, hlt, -⟩ :=
    (hpower .left true haccepts).2 hnone d₄.item (by simp) hexpiry
  exact ⟨[d₁], d₂, [d₃, d₄], _, _, hcourse, haccepts, hnone, d₄, by simp, hexpiry, before, s, a,
    hstarted, hlt⟩

/-- The left half is to be switched off a second after it was switched on. While the second command
waits, the timer fires; the command does not call that off. -/
theorem switched_off_after_command :
    ∃ past d later e ts, Course .default (past ++ d :: later) e ts [] ∧
      d.turn.Accepts (.setPower .left true 0) ∧
      ∃ b ∈ later, b.item.event = .timerFired (.lightOff .left) ∧
        Call.board (.setGroupPower .left false) ∈ b.turn.opening.map Exchange.call ∧
        ∃ before s a, StartedBy (.lightOff .left) ((past ++ d :: later).take b.item.stamp) before s a ∧
          before.length < past.length := by
  obtain ⟨d₁, hdealt₁, -, -, hclock₁, -, -, hlog₁⟩ :=
    exists_afterEvent (started_course.push [delayedLeft] (by simp [delayedLeft]))
  have hfires : ((afterEvent delayedLeft started).2.timers.tick 1000).1 = [.lightOff .left] := by
    decide +kernel
  obtain ⟨d₂, hdealt₂, -, -, -, hinput₂, hopening₂, -⟩ := exists_afterEvent
    (afterSecond_course hfires (hdealt₁.push [steadyLeft] (by simp [steadyLeft])))
  obtain ⟨d₃, hdealt₃, hitem₃, -, -, -, hopening₃, -⟩ := exists_afterEvent hdealt₂
  have haccepts : d₂.turn.Accepts (.setPower .left true 0) := by
    refine ⟨_, .onOff, hinput₂, rfl, by decide +kernel, ?_⟩
    rw [hopening₂]
    decide +kernel
  have hcall : Call.board (.setGroupPower .left false) ∈ d₃.turn.opening.map Exchange.call := by
    rw [hopening₃]
    decide +kernel
  have hleaves : d₁.leaves? (.lightOff .left) = some ⟨.lightOff .left, .once, 1000⟩ := by
    rw [Dealt.leaves?, hlog₁, hclock₁]
    decide +kernel
  have hstarted : StartedBy (.lightOff .left) (([d₁] ++ d₂ :: [d₃]).take d₃.item.stamp) [] d₁
      ⟨.lightOff .left, .once, 1000⟩ :=
    ⟨hleaves, [], by rw [hitem₃]; rfl, by simp⟩
  exact ⟨[d₁], d₂, [d₃], _, _, hdealt₃, haccepts, d₃, by simp, by rw [hitem₃], hcall, [], d₁, _,
    hstarted, by simp⟩

end Course

end MeshLight
