import Mathlib.Algebra.Group.Int.Defs
import MeshLight.Proofs.Session.Registering
import MeshLight.Proofs.Timers.Reports

/-!
# MeshLight.Proofs.Timers.Durations

How long an accepted command has a timer run. Commands give their durations in seconds, up to the
largest number of 32 bits; timers take milliseconds, up to the same number. A longer duration is
accepted and cut, so a command is kept to exactly if its duration fits 32 bits in milliseconds
(`durations_kept_iff`).
-/

namespace MeshLight

open Prog

/-! ## fields -/

namespace Action

variable {envelope : Envelope} {action : Action} {secs : Int}

/-- The action of a body that holds an envelope. -/
theorem ofEnvelope_of_readCommand {body : Bytes} {command command' : Command}
    (hparse : Envelope.parse body = .ok envelope)
    (hname : Command.ofName? envelope.cmd = some command)
    (hread : readCommand body = .ok (command', action)) :
    ofEnvelope envelope command = .ok action := by
  simp only [readCommand, hparse, hname] at hread
  split at hread
  · cases hread
  · next haction =>
    cases hread
    exact haction

theorem eq_of_ofInt? {interval : ReportInterval} (h : ReportInterval.ofInt? secs = some interval) :
    (interval.secs.toNat : Int) = secs := by
  unfold ReportInterval.ofInt? ReportInterval.ofSecs? at h
  split at h
  · next hrange =>
    split at h
    · cases h
      rw [UInt32.toNat_ofNat_of_lt' (by omega), Int.toNat_of_nonneg hrange.1]
    · cases h
  · cases h

/-- The interval that a command asks for. -/
theorem exists_interval (h : ofEnvelope envelope .setReportInterval = .ok action)
    (hval : envelope.int "val" = .ok secs) :
    ∃ interval, action = .setReportInterval interval ∧ (interval.secs.toNat : Int) = secs := by
  obtain ⟨interval, hinterval, h⟩ := exists_of_bind_eq_ok h
  cases h
  obtain ⟨secs', hsecs, hinterval⟩ := exists_of_bind_eq_ok hinterval
  rw [hval] at hsecs
  cases hsecs
  split at hinterval
  · next hofInt =>
    cases hinterval
    exact ⟨_, rfl, eq_of_ofInt? hofInt⟩
  · cases hinterval

/-- The group that a command switches, and the delay after which it is to be switched off. -/
theorem exists_setPower {group : LightGroup} (h : ofEnvelope envelope .onOff = .ok action)
    (hgroup : lightGroup envelope = .ok group)
    (hdelay : envelope.optionalInt "delay" = .ok (some secs)) :
    ∃ on delaySecs, action = .setPower group on delaySecs ∧ (delaySecs : Int) = secs := by
  obtain ⟨group', hgroup', h⟩ := exists_of_bind_eq_ok h
  obtain ⟨on, -, h⟩ := exists_of_bind_eq_ok h
  obtain ⟨delaySecs, hsecs, h⟩ := exists_of_bind_eq_ok h
  cases h
  rw [hgroup] at hgroup'
  cases hgroup'
  obtain ⟨found, hfound, hsecs⟩ := exists_of_bind_eq_ok hsecs
  rw [hdelay] at hfound
  cases hfound
  simp only [Option.getD_some] at hsecs
  split at hsecs
  · next hrange =>
    cases hsecs
    exact ⟨on, _, rfl, Int.toNat_of_nonneg hrange.1⟩
  · cases hsecs

end Action

/-! ## timers -/

namespace Timers

variable {config : Config} {log : List Exchange} {ts ts' : Timers}

/-- A new interval starts the report timer again. -/
theorem Serves.find?_of_setReportInterval (hserves : ts.Serves log ts') (hsound : ts.Sound)
    {interval : ReportInterval}
    (hsettings : settings log = (Action.setReportInterval interval).timerCalls config true) :
    ts'.find? .report = some
      ⟨.report, .every interval.period, ts.now + config.reportInitialDelayMs.toNat⟩ := by
  rw [hserves.find? hsound, hsettings]
  rfl

/-- A command with a delay starts the switch-off of its group. -/
theorem Serves.find?_of_setPower (hserves : ts.Serves log ts') (hsound : ts.Sound)
    {group : LightGroup} {on running : Bool} {delaySecs : Nat} (hdelay : 0 < delaySecs)
    (hsettings : settings log = (Action.setPower group on delaySecs).timerCalls config running) :
    ts'.find? (.lightOff group) = some
      ⟨.lightOff group, .once, ts.now + Action.delayMs delaySecs⟩ := by
  rw [hserves.find? hsound, hsettings, Action.timerCalls, if_pos hdelay]
  simp [lastSetting, TimerCall.sets?, TimerCall.leaves?]

end Timers

/-! ## durations -/

/-- A body that holds the envelope is dispatched and acknowledged with code zero. The timers are
`ts` before that and `ts'` after it. -/
def Acknowledges (config : Config) (s : Session) (envelope : Envelope) (ts ts' : Timers) : Prop :=
  ∃ body log s' outcome, Envelope.parse body = .ok envelope ∧
    Path (dispatch config body s) log (s', outcome) ∧ outcome.code = 0 ∧ ts.Serves log ts'

/-- What an acknowledged command starts and stops. A new interval asks first whether the report
timer runs. -/
theorem Acknowledges.settings {config : Config} {s : Session} {envelope : Envelope}
    {ts ts' : Timers} (h : Acknowledges config s envelope ts ts') {command : Command}
    (hname : Command.ofName? envelope.cmd = some command) :
    ∃ action running log, Action.ofEnvelope envelope command = .ok action ∧ ts.Serves log ts' ∧
      settings log = action.timerCalls config running ∧
      ∀ interval, action = .setReportInterval interval → running = ts.isRunning .report := by
  obtain ⟨body, log, s', outcome, hparse, hpath, hcode, hserves⟩ := h
  obtain ⟨hrejected, -⟩ | ⟨_, action, running, hread, -, -, -, hsettings, hasks⟩ :=
    settings_dispatch hpath
  · exact absurd hcode hrejected
  · refine ⟨action, running, log, Action.ofEnvelope_of_readCommand hparse hname hread, hserves,
      hsettings, fun interval haction => ?_⟩
    obtain ⟨rest, rfl⟩ := hasks interval haction
    exact hserves.1

/-- After a new interval was acknowledged while the report timer ran, the timer's period is the
interval that the command gave, exactly if that fits 32 bits in milliseconds. After a command with a
delay was acknowledged, the group is to be switched off after that delay under the same condition.
-/
theorem durations_kept_iff {config : Config} {s : Session} {envelope : Envelope} {ts ts' : Timers}
    (hsound : ts.Sound) (h : Acknowledges config s envelope ts ts') :
    (∀ secs, Command.ofName? envelope.cmd = some .setReportInterval →
      envelope.int "val" = .ok secs → ts.isRunning .report = true →
      ∃ period, ts'.find? .report = some
          ⟨.report, .every period, ts.now + config.reportInitialDelayMs.toNat⟩ ∧
        ((period : Int) = 1000 * secs ↔ 1000 * secs < 2 ^ 32)) ∧
    ∀ group secs, Command.ofName? envelope.cmd = some .onOff →
      Action.lightGroup envelope = .ok group → envelope.optionalInt "delay" = .ok (some secs) →
      0 < secs →
      ∃ due, ts'.find? (.lightOff group) = some ⟨.lightOff group, .once, due⟩ ∧
        ((due : Int) = ts.now + 1000 * secs ↔ 1000 * secs < 2 ^ 32) := by
  constructor
  · intro secs hname hval hrunning
    obtain ⟨action, running, log, haction, hserves, hsettings, hasks⟩ := h.settings hname
    obtain ⟨interval, rfl, rfl⟩ := Action.exists_interval haction hval
    rw [hasks interval rfl, hrunning] at hsettings
    refine ⟨_, hserves.find?_of_setReportInterval hsound hsettings, ?_⟩
    rw [ReportInterval.period, ReportInterval.longestPeriod, UInt32.size]
    omega
  · intro group secs hname hgroup hdelay hpos
    obtain ⟨action, running, log, haction, hserves, hsettings, -⟩ := h.settings hname
    obtain ⟨on, delaySecs, rfl, rfl⟩ := Action.exists_setPower haction hgroup hdelay
    refine ⟨_, hserves.find?_of_setPower hsound (by omega) hsettings, ?_⟩
    rw [Action.delayMs, Action.longestDelay, UInt32.size]
    omega

/-! ### short and long durations -/

/-- A simulated host whose report timer runs. -/
def reportingHost : Host :=
  { Host.initial .child with timers := Timers.initial.startPeriodic .report 3000 300000 }

/-- That host after a body was dispatched, with the outcome. -/
def afterBody (body : Bytes) : (Session × Outcome) × Host :=
  (dispatch .default body (.initial .default)).run Host.answer reportingHost

/-- A body whose fields are read as given, and that is answered with code zero. -/
theorem exists_acknowledges {body : Bytes} {read : Envelope → α} {fields : α}
    (hread : (Envelope.parse body).map read = .ok fields) (hcode : (afterBody body).1.2.code = 0) :
    ∃ envelope, read envelope = fields ∧ Acknowledges .default (.initial .default) envelope
      reportingHost.timers (afterBody body).2.timers := by
  cases hparse : Envelope.parse body with
  | error fault =>
      rw [hparse] at hread
      cases hread
  | ok envelope =>
      rw [hparse] at hread
      cases hread
      exact ⟨envelope, rfl, body, _, _, _, hparse, path_run Host.answer _ reportingHost, hcode,
        Host.keepsTimers.serves _ reportingHost⟩

/-- A command for reports at an interval. -/
def intervalBody (secs : String) : Bytes :=
  utf8 ("\x7b\"cmd\":\"set_report_interval\",\"val\":" ++ secs ++ "\x7d")

/-- A command to switch the left half on, and off again after a delay. -/
def delayBody (secs : String) : Bytes :=
  utf8 ("\x7b\"cmd\":\"onoff\",\"obj\":\"led_left\",\"val\":1,\"delay\":" ++ secs ++ "\x7d")

/-- What a command for reports at an interval says. -/
def readInterval (e : Envelope) : Option Command × Except CommandFault Int :=
  (Command.ofName? e.cmd, e.int "val")

/-- What a command to switch a group with a delay says. -/
def readDelay (e : Envelope) :
    Option Command × Except CommandFault LightGroup × Except CommandFault (Option Int) :=
  (Command.ofName? e.cmd, Action.lightGroup e, e.optionalInt "delay")

/-- A minute is kept, between reports as well as until the left half is switched off. -/
theorem durations_kept_iff_minute :
    reportingHost.timers.Sound ∧ reportingHost.timers.isRunning .report = true ∧
    (∃ envelope, readInterval envelope = (some .setReportInterval, .ok 60) ∧
      Acknowledges .default (.initial .default) envelope reportingHost.timers
        (afterBody (intervalBody "60")).2.timers ∧
      ∃ period, (afterBody (intervalBody "60")).2.timers.find? .report =
        some ⟨.report, .every period, 3000⟩ ∧ (period : Int) = 1000 * 60) ∧
    ∃ envelope, readDelay envelope = (some .onOff, .ok .left, .ok (some 60)) ∧
      Acknowledges .default (.initial .default) envelope reportingHost.timers
        (afterBody (delayBody "60")).2.timers ∧
      ∃ due, (afterBody (delayBody "60")).2.timers.find? (.lightOff .left) =
        some ⟨.lightOff .left, .once, due⟩ ∧ (due : Int) = 0 + 1000 * 60 := by
  have hsound : reportingHost.timers.Sound := Timers.sound_initial.arm _
  have hrunning : reportingHost.timers.isRunning .report = true := by decide
  refine ⟨hsound, hrunning, ?_, ?_⟩
  · have hfields : (Envelope.parse (intervalBody "60")).map readInterval =
        .ok (some .setReportInterval, .ok 60) := by
      decide +kernel
    obtain ⟨envelope, hread, hack⟩ := exists_acknowledges hfields (by decide +kernel)
    obtain ⟨hname, hval⟩ := Prod.mk.inj hread
    obtain ⟨period, hfind, hkept⟩ := (durations_kept_iff hsound hack).1 60 hname hval hrunning
    exact ⟨envelope, hread, hack, period, hfind, hkept.2 (by decide)⟩
  · have hfields : (Envelope.parse (delayBody "60")).map readDelay =
        .ok (some .onOff, .ok .left, .ok (some 60)) := by
      decide +kernel
    obtain ⟨envelope, hread, hack⟩ := exists_acknowledges hfields (by decide +kernel)
    obtain ⟨hname, hrest⟩ := Prod.mk.inj hread
    obtain ⟨hgroup, hdelay⟩ := Prod.mk.inj hrest
    obtain ⟨due, hfind, hkept⟩ :=
      (durations_kept_iff hsound hack).2 .left 60 hname hgroup hdelay (by decide)
    exact ⟨envelope, hread, hack, due, hfind, hkept.2 (by decide)⟩

/-- Fifty days are acknowledged and cut short, between reports as well as until the left half is
switched off. -/
theorem fifty_days_cut_short :
    reportingHost.timers.isRunning .report = true ∧ reportingHost.timers.now = 0 ∧
    (∃ envelope, readInterval envelope = (some .setReportInterval, .ok 4320000) ∧
      Acknowledges .default (.initial .default) envelope reportingHost.timers
        (afterBody (intervalBody "4320000")).2.timers ∧
      (afterBody (intervalBody "4320000")).2.timers.find? .report =
        some ⟨.report, .every 4294967295, 3000⟩) ∧
    (∃ envelope, readDelay envelope = (some .onOff, .ok .left, .ok (some 4320000)) ∧
      Acknowledges .default (.initial .default) envelope reportingHost.timers
        (afterBody (delayBody "4320000")).2.timers ∧
      (afterBody (delayBody "4320000")).2.timers.find? (.lightOff .left) =
        some ⟨.lightOff .left, .once, 4294967295⟩) ∧
    4294967295 < 1000 * 4320000 := by
  refine ⟨by decide, rfl, ?_, ?_, by decide⟩
  · have hfields : (Envelope.parse (intervalBody "4320000")).map readInterval =
        .ok (some .setReportInterval, .ok 4320000) := by
      decide +kernel
    obtain ⟨envelope, hread, hack⟩ := exists_acknowledges hfields (by decide +kernel)
    exact ⟨envelope, hread, hack, by decide +kernel⟩
  · have hfields : (Envelope.parse (delayBody "4320000")).map readDelay =
        .ok (some .onOff, .ok .left, .ok (some 4320000)) := by
      decide +kernel
    obtain ⟨envelope, hread, hack⟩ := exists_acknowledges hfields (by decide +kernel)
    exact ⟨envelope, hread, hack, by decide +kernel⟩

end MeshLight
