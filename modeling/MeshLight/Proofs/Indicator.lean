import Mathlib.Algebra.Group.Nat.Even
import Mathlib.Algebra.Ring.Nat
import Mathlib.Data.List.Induction
import Mathlib.Logic.Basic
import MeshLight.Indicator

/-!
# MeshLight.Proofs.Indicator

What the presence light shows after any calls. Its two layers never meet: the base mode and its
phase follow from the base modes that are set (`Indicator.after_of_steady`), the rest of a pulse
from the pulses (`Indicator.pulseLeft_after`), and neither asks for the other. So the level is that
of the base mode for the time since it last changed (`Based`), inverted while the latest pulse lasts
(`Pulses`), whatever else was set in between (`Indicator.shows_layers`).
-/

namespace MeshLight

/-! ## calls -/

/-- A mode is set, or the level is shown and time passes. -/
inductive IndicatorCall where
  | setMode (mode : IndicatorMode)
  | tick (elapsed : UInt32)
  deriving DecidableEq

namespace IndicatorMode

def isPulse : IndicatorMode → Bool
  | pulse _ => true
  | _ => false

/-- Whether a base mode is high some time after it was set. -/
def IsHigh : IndicatorMode → Nat → Prop
  | off, _ | pulse _, _ => False
  | on, _ => True
  | blink period, time => Even (time / max period.toNat 1)

theorem pulse_or_base (mode : IndicatorMode) :
    (∃ duration, mode = pulse duration) ∨ mode.isPulse = false := by
  cases mode with
  | pulse duration => exact .inl ⟨duration, rfl⟩
  | off | on | blink => exact .inr rfl

end IndicatorMode

namespace IndicatorCall

/-- The time that passes. -/
def elapsed : IndicatorCall → Nat
  | setMode _ => 0
  | tick elapsed => elapsed.toNat

/-- The base mode that is set. -/
def base? : IndicatorCall → Option IndicatorMode
  | setMode mode => if mode.isPulse then none else some mode
  | tick _ => none

theorem base?_setMode {mode : IndicatorMode} (hbase : mode.isPulse = false) :
    (setMode mode).base? = some mode := by
  rw [base?, hbase]
  rfl

theorem base?_eq_some_iff {c : IndicatorCall} {mode : IndicatorMode} :
    c.base? = some mode ↔ c = setMode mode ∧ mode.isPulse = false := by
  constructor
  · intro h
    cases c with
    | tick => cases h
    | setMode m =>
        obtain ⟨d, rfl⟩ | hbase := m.pulse_or_base
        · cases h
        · rw [base?_setMode hbase] at h
          cases h
          exact ⟨rfl, hbase⟩
  · rintro ⟨rfl, hbase⟩
    exact base?_setMode hbase

end IndicatorCall

variable {calls : List IndicatorCall} {mode : IndicatorMode} {time : Nat}

/-- The time that passes in all calls. -/
def ticked (calls : List IndicatorCall) : Nat := (calls.map IndicatorCall.elapsed).sum

/-- The base modes that are set, one after the other. -/
def baseModes (calls : List IndicatorCall) : List IndicatorMode :=
  calls.filterMap IndicatorCall.base?

/-- The base mode is the one that was set last. At first it is off. -/
def baseMode (calls : List IndicatorCall) : IndicatorMode := (baseModes calls).getLast?.getD .off

/-- The base mode after some calls, and the time that has passed since it last changed to another
one, or since the start. -/
inductive Based : List IndicatorCall → IndicatorMode → Nat → Prop
  | unchanged {calls : List IndicatorCall} (hsame : ∀ m ∈ baseModes calls, m = .off) :
      Based calls .off (ticked calls)
  | changed {before after : List IndicatorCall} {mode : IndicatorMode}
      (hbase : mode.isPulse = false) (hchange : baseMode before ≠ mode)
      (hsame : ∀ m ∈ baseModes after, m = mode) :
      Based (before ++ .setMode mode :: after) mode (ticked after)

/-- A pulse has been set, and the latest one lasts longer than the time that has passed since. -/
def Pulses (calls : List IndicatorCall) : Prop :=
  ∃ before duration after, calls = before ++ .setMode (.pulse duration) :: after ∧
    (∀ d, .setMode (.pulse d) ∉ after) ∧ ticked after < duration.toNat

theorem ticked_append (calls calls' : List IndicatorCall) :
    ticked (calls ++ calls') = ticked calls + ticked calls' := by
  rw [ticked, List.map_append, List.sum_append]
  rfl

theorem baseModes_append (calls calls' : List IndicatorCall) :
    baseModes (calls ++ calls') = baseModes calls ++ baseModes calls' :=
  List.filterMap_append ..

/-! ## one call -/

namespace Indicator

variable {i j : Indicator}

/-- Answers a call. -/
def step (i : Indicator) : IndicatorCall → Indicator
  | .setMode mode => i.setMode mode
  | .tick elapsed => i.tick elapsed

/-- The level that is shown in a call. -/
def shownBy (i : Indicator) : IndicatorCall → List Bool
  | .setMode _ => []
  | .tick _ => [i.level]

theorem setMode_base (hbase : mode.isPulse = false) (i : Indicator) :
    i.setMode mode = if mode = i.base then i else { i with base := mode, phase := 0 } := by
  cases mode with
  | off | on | blink => rfl
  | pulse => cases hbase

/-- Another base mode starts anew. -/
theorem setMode_of_ne (hbase : mode.isPulse = false) (hne : i.base ≠ mode) :
    (i.setMode mode).base = mode ∧ (i.setMode mode).phase = 0 := by
  rw [setMode_base hbase, if_neg hne.symm]
  exact ⟨rfl, rfl⟩

/-- The base mode is not changed by setting it again. -/
theorem setMode_self (hbase : i.base.isPulse = false) : i.setMode i.base = i := by
  rw [setMode_base hbase, if_pos rfl]

/-- Setting a base mode does not touch a pulse that lasts. -/
theorem pulseLeft_setMode (hbase : mode.isPulse = false) (i : Indicator) :
    (i.setMode mode).pulseLeft = i.pulseLeft := by
  rw [setMode_base hbase]
  split <;> rfl

/-- Setting a mode shows nothing yet. -/
theorem lit_setMode (mode : IndicatorMode) (i : Indicator) : (i.setMode mode).lit = i.lit := by
  obtain ⟨d, rfl⟩ | hbase := mode.pulse_or_base
  · rfl
  · rw [setMode_base hbase]
    split <;> rfl

theorem base_step (i : Indicator) (c : IndicatorCall) : (i.step c).base = c.base?.getD i.base := by
  cases c with
  | tick => rfl
  | setMode mode =>
      obtain ⟨d, rfl⟩ | hbase := mode.pulse_or_base
      · rfl
      · rw [step, setMode_base hbase, IndicatorCall.base?_setMode hbase, Option.getD_some]
        split
        · next hsame => exact hsame.symm
        · rfl

/-- The time since the base mode changed goes on, unless another one is set. -/
theorem phase_step {c : IndicatorCall} (hsame : ∀ m ∈ c.base?, m = i.base) :
    (i.step c).phase = i.phase + UInt32.ofNat c.elapsed := by
  cases c with
  | tick elapsed =>
      show i.phase + elapsed = i.phase + UInt32.ofNat elapsed.toNat
      rw [UInt32.ofNat_toNat]
  | setMode mode =>
      show (i.setMode mode).phase = i.phase + 0
      rw [UInt32.add_zero]
      obtain ⟨d, rfl⟩ | hbase := mode.pulse_or_base
      · rfl
      · rw [setMode_base hbase, if_pos (hsame mode (IndicatorCall.base?_setMode hbase))]

/-- The rest of a pulse only goes down by the time that passes, unless one is set. -/
theorem pulseLeft_step {c : IndicatorCall} (hnone : ∀ d, c ≠ .setMode (.pulse d)) :
    (i.step c).pulseLeft.toNat = i.pulseLeft.toNat - c.elapsed := by
  cases c with
  | tick elapsed =>
      show (if elapsed ≤ i.pulseLeft then i.pulseLeft - elapsed else 0).toNat = _
      split
      · next hle => exact UInt32.toNat_sub_of_le _ _ hle
      · next hgt =>
          rw [UInt32.le_iff_toNat_le] at hgt
          exact (Nat.sub_eq_zero_of_le (Nat.le_of_not_le hgt)).symm
  | setMode mode =>
      obtain ⟨d, rfl⟩ | hbase := mode.pulse_or_base
      · exact absurd rfl (hnone d)
      · exact congrArg UInt32.toNat (pulseLeft_setMode hbase i)

/-- What a call makes of the base mode and its phase does not depend on the pulse. -/
theorem step_base_congr (hbase : i.base = j.base) (hphase : i.phase = j.phase) (c : IndicatorCall) :
    (i.step c).base = (j.step c).base ∧ (i.step c).phase = (j.step c).phase := by
  refine ⟨by rw [base_step, base_step, hbase], ?_⟩
  cases c with
  | tick elapsed => exact congrArg (· + elapsed) hphase
  | setMode mode =>
      obtain ⟨d, rfl⟩ | hmode := mode.pulse_or_base
      · exact hphase
      · rw [step, step, setMode_base hmode, setMode_base hmode, ← hbase]
        split
        · exact hphase
        · rfl

/-- What a call makes of a pulse does not depend on the base mode. -/
theorem step_pulse_congr (hpulse : i.pulseLeft = j.pulseLeft) (c : IndicatorCall) :
    (i.step c).pulseLeft = (j.step c).pulseLeft := by
  by_cases hset : ∃ d, c = .setMode (.pulse d)
  · obtain ⟨d, rfl⟩ := hset
    rfl
  · have hnone : ∀ d, c ≠ .setMode (.pulse d) := fun d hd => hset ⟨d, hd⟩
    rw [← UInt32.toNat_inj, pulseLeft_step hnone, pulseLeft_step hnone, hpulse]

/-! ## any calls -/

/-- Answers calls one after the other. -/
def after : List IndicatorCall → Indicator → Indicator
  | [], i => i
  | c :: calls, i => after calls (i.step c)

/-- The levels that are shown, one after the other. -/
def shown : List IndicatorCall → Indicator → List Bool
  | [], _ => []
  | c :: calls, i => i.shownBy c ++ shown calls (i.step c)

theorem after_append (calls calls' : List IndicatorCall) (i : Indicator) :
    i.after (calls ++ calls') = (i.after calls).after calls' := by
  induction calls generalizing i with
  | nil => rfl
  | cons c calls ih => exact ih (i.step c)

theorem base_after (calls : List IndicatorCall) (i : Indicator) :
    (i.after calls).base = (baseModes calls).getLast?.getD i.base := by
  induction calls generalizing i with
  | nil => rfl
  | cons c calls ih =>
      rw [after, ih, base_step]
      cases hc : c.base? <;> simp [baseModes, hc, List.getLast?_cons]

/-- While no other base mode is set, it stays and its phase follows the time. -/
theorem after_of_steady (hsame : ∀ m ∈ baseModes calls, m = i.base) :
    (i.after calls).base = i.base ∧
    (i.after calls).phase = i.phase + UInt32.ofNat (ticked calls) := by
  induction calls generalizing i with
  | nil => exact ⟨rfl, (UInt32.add_zero _).symm⟩
  | cons c calls ih =>
      have hcall : ∀ m ∈ c.base?, m = i.base := fun m hm =>
        hsame m (List.mem_filterMap.2 ⟨c, List.mem_cons_self, hm⟩)
      have hbase : (i.step c).base = i.base := by
        rw [base_step]
        cases hc : c.base? with
        | none => rfl
        | some mode => exact hcall mode hc
      have hrest : ∀ m ∈ baseModes calls, m = (i.step c).base := fun m hm => by
        obtain ⟨c', hc', hm⟩ := List.mem_filterMap.1 hm
        rw [hbase]
        exact hsame m (List.mem_filterMap.2 ⟨c', List.mem_cons_of_mem c hc', hm⟩)
      obtain ⟨hlast, hphase⟩ := ih hrest
      refine ⟨hlast.trans hbase, ?_⟩
      rw [after, hphase, phase_step hcall, ticked, ticked, List.map_cons, List.sum_cons,
        UInt32.ofNat_add, UInt32.add_assoc]

/-- While no pulse is set, what is left of one goes down by the time. -/
theorem pulseLeft_after (hnone : ∀ d, .setMode (.pulse d) ∉ calls) :
    (i.after calls).pulseLeft.toNat = i.pulseLeft.toNat - ticked calls := by
  induction calls generalizing i with
  | nil => rfl
  | cons c calls ih =>
      have hcall : ∀ d, c ≠ .setMode (.pulse d) := fun d hd => hnone d (hd ▸ List.mem_cons_self)
      rw [after, ih fun d hd => hnone d (List.mem_cons_of_mem c hd), pulseLeft_step hcall,
        Nat.sub_sub]
      rfl

theorem baseLevel_after_congr (hbase : i.base = j.base) (hphase : i.phase = j.phase)
    (calls : List IndicatorCall) : (i.after calls).baseLevel = (j.after calls).baseLevel := by
  induction calls generalizing i j with
  | nil => rw [after, after, baseLevel, baseLevel, hbase, hphase]
  | cons c calls ih =>
      obtain ⟨hbase, hphase⟩ := step_base_congr hbase hphase c
      exact ih hbase hphase

theorem pulseLeft_after_congr (hpulse : i.pulseLeft = j.pulseLeft) (calls : List IndicatorCall) :
    (i.after calls).pulseLeft = (j.after calls).pulseLeft := by
  induction calls generalizing i j with
  | nil => exact hpulse
  | cons c calls ih => exact ih (step_pulse_congr hpulse c)

/-- The light keeps the level that was shown last. -/
theorem lit_after (calls : List IndicatorCall) (i : Indicator) :
    (i.after calls).lit = (i.shown calls).getLast?.getD i.lit := by
  induction calls generalizing i with
  | nil => rfl
  | cons c calls ih =>
      rw [after, ih, shown]
      cases c with
      | tick elapsed => simp [shownBy, step, tick, List.getLast?_cons]
      | setMode mode =>
          rw [step, lit_setMode]
          rfl

/-! ## from the start -/

theorem base_initial_after (calls : List IndicatorCall) :
    (initial.after calls).base = baseMode calls := base_after calls initial

theorem isPulse_baseMode (calls : List IndicatorCall) : (baseMode calls).isPulse = false := by
  rw [baseMode]
  cases hlast : (baseModes calls).getLast? with
  | none => rfl
  | some mode =>
      obtain ⟨c, -, hc⟩ := List.mem_filterMap.1 (List.mem_of_getLast? hlast)
      exact (IndicatorCall.base?_eq_some_iff.1 hc).2

end Indicator

namespace Based

open Indicator

theorem concat (h : Based calls mode time) {c : IndicatorCall} (hsame : ∀ m ∈ c.base?, m = mode) :
    Based (calls ++ [c]) mode (time + c.elapsed) := by
  have hticked (calls : List IndicatorCall) : ticked calls + c.elapsed = ticked (calls ++ [c]) := by
    rw [ticked_append]
    simp [ticked]
  have hmodes {calls : List IndicatorCall} {mode : IndicatorMode}
      (hcalls : ∀ m ∈ baseModes calls, m = mode) (hsame : ∀ m ∈ c.base?, m = mode) :
      ∀ m ∈ baseModes (calls ++ [c]), m = mode := by
    intro m hm
    rw [baseModes_append, List.mem_append] at hm
    obtain hm | hm := hm
    · exact hcalls m hm
    · exact hsame m (by simpa [baseModes] using hm)
  cases h with
  | unchanged hcalls =>
      rw [hticked]
      exact .unchanged (hmodes hcalls hsame)
  | changed hbase hchange hcalls =>
      rw [hticked, List.append_assoc, List.cons_append]
      exact .changed hbase hchange (hmodes hcalls hsame)

/-- The light knows its base mode and, on its clock, the time since that last changed. -/
theorem base_phase (h : Based calls mode time) :
    (initial.after calls).base = mode ∧ (initial.after calls).phase = UInt32.ofNat time := by
  cases h with
  | unchanged hsame =>
      obtain ⟨hbase, hphase⟩ := after_of_steady (i := initial) hsame
      exact ⟨hbase, hphase.trans (UInt32.zero_add _)⟩
  | @changed before after _ hmode hchange hsame =>
      rw [← base_initial_after] at hchange
      obtain ⟨hset, hstart⟩ := setMode_of_ne hmode hchange
      obtain ⟨hbase, hphase⟩ := after_of_steady (i := (initial.after before).setMode mode)
        fun m hm => (hsame m hm).trans hset.symm
      rw [after_append]
      exact ⟨hbase.trans hset, hphase.trans (by rw [hstart, UInt32.zero_add])⟩

end Based

theorem exists_based (calls : List IndicatorCall) : ∃ mode time, Based calls mode time := by
  induction calls using List.reverseRecOn with
  | nil => exact ⟨_, _, .unchanged (by simp [baseModes])⟩
  | append_singleton calls c ih =>
      obtain ⟨mode, time, h⟩ := ih
      by_cases hsame : ∀ m ∈ c.base?, m = mode
      · exact ⟨mode, _, h.concat hsame⟩
      · obtain ⟨m, hm, hne⟩ : ∃ m, c.base? = some m ∧ m ≠ mode := by simpa using hsame
        have hchange : baseMode calls ≠ m := by
          rw [← Indicator.base_initial_after, h.base_phase.1]
          exact hne.symm
        obtain ⟨hset, hbase⟩ := IndicatorCall.base?_eq_some_iff.1 hm
        rw [hset]
        exact ⟨m, _, .changed hbase hchange (by simp [baseModes])⟩

/-! ## pulses -/

/-- Either no pulse is set or there is a last one. -/
theorem exists_last_pulse (calls : List IndicatorCall) :
    (∀ d, .setMode (.pulse d) ∉ calls) ∨
    ∃ before duration after, calls = before ++ .setMode (.pulse duration) :: after ∧
      ∀ d, .setMode (.pulse d) ∉ after := by
  induction calls using List.reverseRecOn with
  | nil => exact .inl (by simp)
  | append_singleton calls c ih =>
      by_cases hset : ∃ d, c = .setMode (.pulse d)
      · obtain ⟨d, rfl⟩ := hset
        exact .inr ⟨calls, d, [], rfl, by simp⟩
      · have hnone : ∀ d, .setMode (.pulse d) ≠ c := fun d hd => hset ⟨d, hd.symm⟩
        obtain hcalls | ⟨before, duration, after, rfl, hafter⟩ := ih
        · exact .inl (by simpa [hnone] using hcalls)
        · exact .inr ⟨before, duration, after ++ [c], by simp, by simpa [hnone] using hafter⟩

namespace Indicator

/-- Something is left of a pulse exactly if the latest one lasts on. -/
theorem pulseLeft_pos_iff (calls : List IndicatorCall) :
    0 < (initial.after calls).pulseLeft ↔ Pulses calls := by
  have hleft {before after : List IndicatorCall} {duration : UInt32}
      (hnone : ∀ d, .setMode (.pulse d) ∉ after) :
      0 < (initial.after (before ++ .setMode (.pulse duration) :: after)).pulseLeft ↔
        ticked after < duration.toNat := by
    rw [UInt32.lt_iff_toNat_lt, after_append, Indicator.after, pulseLeft_after hnone]
    exact Nat.sub_pos_iff_lt
  constructor
  · intro hpos
    obtain hnone | ⟨before, duration, after, rfl, hnone⟩ := exists_last_pulse calls
    · rw [UInt32.lt_iff_toNat_lt, pulseLeft_after hnone] at hpos
      exact absurd hpos (by simp [initial])
    · exact ⟨before, duration, after, rfl, hnone, (hleft hnone).1 hpos⟩
  · rintro ⟨before, duration, after, rfl, hnone, hlast⟩
    exact (hleft hnone).2 hlast

/-! ## the level -/

theorem baseLevel_eq_true_iff {i : Indicator} (hphase : i.phase.toNat = time) :
    i.baseLevel = true ↔ i.base.IsHigh time := by
  rw [baseLevel]
  cases i.base with
  | off | on | pulse => simp [IndicatorMode.IsHigh]
  | blink period =>
      rw [hphase, decide_eq_true_iff]
      exact Nat.even_iff.symm

/-- A pulse inverts the level of the base mode. -/
theorem level_eq_true_iff (i : Indicator) :
    i.level = true ↔ Xor (i.baseLevel = true) (0 < i.pulseLeft) := by
  rw [level]
  by_cases hpulse : 0 < i.pulseLeft <;> cases i.baseLevel <;> simp [hpulse, Xor]

/-- After any calls the base mode is the one that was set last, and a tick shows its level for the
time since it last changed, inverted while the latest pulse lasts. The light keeps the level that it
showed last. Setting the base mode again changes nothing, a pulse never shifts the base mode, and a
base mode never ends a pulse. -/
theorem shows_layers (calls : List IndicatorCall) :
    let i := initial.after calls
    (∃ mode time, Based calls mode time) ∧
    (∀ mode time, Based calls mode time → i.base = mode ∧ (time < 2 ^ 32 → ∀ elapsed,
      (i.tick elapsed).lit = true ↔ Xor (mode.IsHigh time) (Pulses calls))) ∧
    i.lit = (initial.shown calls).getLast?.getD false ∧
    (∀ later, (i.setMode i.base).after later = i.after later) ∧
    (∀ duration later,
      ((i.setMode (.pulse duration)).after later).baseLevel = (i.after later).baseLevel) ∧
    ∀ mode later, mode.isPulse = false →
      ((i.setMode mode).after later).pulseLeft = (i.after later).pulseLeft := by
  intro i
  refine ⟨exists_based calls, fun mode time hbased => ?_, lit_after calls initial,
    fun later => ?_, fun duration later => ?_, fun mode later hbase => ?_⟩
  · obtain ⟨hbase, hphase⟩ := hbased.base_phase
    refine ⟨hbase, fun hshort elapsed => ?_⟩
    have htime : i.phase.toNat = time := by
      rw [hphase, UInt32.toNat_ofNat_of_lt' hshort]
    show i.level = true ↔ _
    rw [level_eq_true_iff, baseLevel_eq_true_iff htime, hbase, pulseLeft_pos_iff]
  · have hbase : i.base.isPulse = false := by
      rw [base_initial_after]
      exact isPulse_baseMode calls
    rw [setMode_self hbase]
  · exact baseLevel_after_congr (i := i.setMode (.pulse duration)) (j := i) rfl rfl later
  · exact pulseLeft_after_congr (pulseLeft_setMode hbase i) later

/-- A blink of 200 ms that is set again, under a pulse of 100 ms. -/
def flicker : List IndicatorCall :=
  [.setMode .on, .tick 70, .setMode (.blink 200), .tick 300, .setMode (.pulse 100),
    .setMode (.blink 200), .tick 50]

theorem shows_layers_flicker :
    Based flicker (.blink 200) 350 ∧ 350 < 2 ^ 32 ∧
    ((initial.after flicker).tick 10).lit = true := by
  have hbased : Based flicker (.blink 200) 350 :=
    @Based.changed [.setMode .on, .tick 70]
      [.tick 300, .setMode (.pulse 100), .setMode (.blink 200), .tick 50] (.blink 200) rfl
      (by decide) (by decide)
  have hpulses : Pulses flicker :=
    ⟨[.setMode .on, .tick 70, .setMode (.blink 200), .tick 300], 100,
      [.setMode (.blink 200), .tick 50], rfl, by simp, by decide⟩
  refine ⟨hbased, by decide, ?_⟩
  rw [((shows_layers flicker).2.1 _ _ hbased).2 (by decide)]
  exact .inr ⟨hpulses, by simp [IndicatorMode.IsHigh]⟩

end Indicator

end MeshLight
