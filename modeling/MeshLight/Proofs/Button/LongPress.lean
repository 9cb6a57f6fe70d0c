import Mathlib.Data.List.Induction
import MeshLight.Event
import MeshLight.Proofs.Button.Touches

/-!
# MeshLight.Proofs.Button.LongPress

When a press is reported as long. The driver subtracts the recorded time of the press from the time
at which it looks, on a clock that wraps, and so takes a press that was recorded after that time was
read for one that has lasted for weeks. It looks at releases the other way: one that was recorded
before the press counts for nothing. Apart from that a long press has lasted long enough
(`Key.long_only_if_held_iff`).
-/

namespace MeshLight

/-! ## what the driver tracks -/

namespace ButtonDriver

/-- A driver that tracks a press tracks the last one that it has noted. -/
def TracksLast (d : ButtonDriver) : Prop :=
  ∀ since, d.tracking = .pressed since → since = d.lastPress

theorem TracksLast.notePress {d : ButtonDriver} (h : d.TracksLast) (press : UInt32) :
    (d.notePress press).TracksLast := by
  intro since htracking
  unfold ButtonDriver.notePress at htracking ⊢
  split at htracking
  · next hnew =>
      rw [if_pos hnew]
      cases htracking
      rfl
  · next hold =>
      rw [if_neg hold]
      exact h since htracking

/-- Once it has looked, the last press that a driver has noted is the recorded one. -/
theorem lastPress_notePress {press : UInt32} (d : ButtonDriver) (h : press ≠ 0) :
    (d.notePress press).lastPress = press := by
  unfold notePress
  split
  · rfl
  · next hold => exact (Decidable.not_not.1 fun hne => hold ⟨h, Ne.symm hne⟩)

/-- The recorded time of the press that a driver waits for to end, when it looks at the edges. -/
def awaited? (edges : Edges) (d : ButtonDriver) : Option UInt32 :=
  match (d.notePress edges.press).tracking with
  | .pressed since =>
    if (d.notePress edges.press).isNewRelease edges.release then none else some since
  | .idle | .held => none

/-- A press is reported as long if the driver waits for its end and it has lasted long enough on
the clock. -/
theorem tick_eq_long_iff (edges : Edges) (now : UInt32) (d : ButtonDriver) :
    (d.tick edges now).1 = some .long ↔
      ∃ since, d.awaited? edges = some since ∧ longLimit ≤ now - since := by
  simp only [tick, awaited?]
  cases hrelease : (d.notePress edges.press).isNewRelease edges.release with
  | true =>
      cases htracking : (d.notePress edges.press).tracking with
      | pressed since => simp only [if_true]; split <;> simp
      | idle | held => simp
  | false =>
      cases htracking : (d.notePress edges.press).tracking with
      | pressed since => by_cases hlong : longLimit ≤ now - since <;> simp [hlong]
      | idle | held => simp

/-- A driver that still tracks a press after it has looked has changed nothing but to note it. -/
theorem tick_of_pressed {edges : Edges} {now : UInt32} {d : ButtonDriver} {since : UInt32}
    (h : (d.tick edges now).2.tracking = .pressed since) :
    (d.tick edges now).2 = d.notePress edges.press := by
  simp only [tick] at h ⊢
  cases hrelease : (d.notePress edges.press).isNewRelease edges.release with
  | true =>
      cases htracking : (d.notePress edges.press).tracking with
      | pressed since => simp [hrelease, htracking] at h
      | idle | held => simp [hrelease, htracking] at h
  | false =>
      cases htracking : (d.notePress edges.press).tracking with
      | pressed since =>
          by_cases hlong : longLimit ≤ now - since
          · simp [hrelease, htracking, hlong] at h
          · simp [hlong]
      | idle | held => simp

/-- The press that a driver waits for is the one that is recorded. -/
theorem TracksLast.awaited {edges : Edges} {d : ButtonDriver} {since : UInt32} (h : d.TracksLast)
    (hpress : edges.press ≠ 0) (hawaited : d.awaited? edges = some since) :
    since = edges.press := by
  unfold awaited? at hawaited
  split at hawaited
  · next since' htracking =>
      split at hawaited
      · cases hawaited
      · cases hawaited
        rw [h.notePress edges.press since htracking, lastPress_notePress d hpress]
  · cases hawaited
  · cases hawaited

end ButtonDriver

/-! ## histories -/

namespace Key

/-- What holds of a key after touches: the latest press is recorded, and the driver tracks no other
than the last that it has noted, and none if there never was one. -/
structure Records (touches : List Touch) (k : Key) : Prop where
  press : k.edges.press =
    ((latestPress touches).map fun time => UInt32.ofNat (recordedTime time)).getD 0
  tracks : k.driver.TracksLast
  untouched : latestPress touches = none → ∀ since, k.driver.tracking ≠ .pressed since

theorem records_untouched (button : Button) : Records [] (untouched button) where
  press := rfl
  tracks since h := by cases h
  untouched _ since h := by cases h

/-- On a key that was never pressed a driver notes nothing. -/
theorem Records.notePress_of_none {touches : List Touch} {k : Key} (h : Records touches k)
    (hnone : latestPress touches = none) : k.driver.notePress k.edges.press = k.driver := by
  have hpress := h.press
  rw [hnone] at hpress
  unfold ButtonDriver.notePress
  rw [if_neg fun hnew => hnew.1 hpress]

/-- Each touch keeps the records in order. -/
theorem Records.touch {touches : List Touch} {k : Key} (h : Records touches k) (t : Touch) :
    Records (touches ++ [t]) (k.touch t) := by
  cases t with
  | press time =>
      refine ⟨?_, h.tracks, fun hnone => ?_⟩
      · rw [latestPress_concat]
        exact stamp_ofNat time
      · rw [latestPress_concat] at hnone
        cases hnone
  | release time =>
      refine ⟨?_, h.tracks, fun hnone => ?_⟩
      · rw [latestPress_concat]
        exact h.press
      · rw [latestPress_concat] at hnone
        exact h.untouched hnone
  | look now =>
      refine ⟨?_, fun since htracking => ?_, fun hnone since htracking => ?_⟩
      · rw [latestPress_concat]
        exact h.press
      · have hnoted : (k.driver.tick k.edges (UInt32.ofNat now)).2 =
            k.driver.notePress k.edges.press := ButtonDriver.tick_of_pressed htracking
        have htracks := h.tracks.notePress k.edges.press
        rw [← hnoted] at htracks
        exact htracks since htracking
      · rw [latestPress_concat] at hnone
        have hnoted : (k.driver.tick k.edges (UInt32.ofNat now)).2 =
            k.driver.notePress k.edges.press := ButtonDriver.tick_of_pressed htracking
        refine h.untouched hnone since ?_
        rw [← h.notePress_of_none hnone, ← hnoted]
        exact htracking

theorem records_after (button : Button) (touches : List Touch) :
    Records touches ((untouched button).after touches) := by
  induction touches using List.reverseRecOn with
  | nil => exact records_untouched button
  | append_singleton touches t ih =>
      rw [after_concat]
      exact ih.touch t

/-- A key that was never pressed waits for nothing. -/
theorem Records.awaited?_of_none {touches : List Touch} {k : Key} (h : Records touches k)
    (hnone : latestPress touches = none) : k.driver.awaited? k.edges = none := by
  unfold ButtonDriver.awaited?
  rw [h.notePress_of_none hnone]
  cases htracking : k.driver.tracking with
  | pressed since => exact absurd htracking (h.untouched hnone since)
  | idle | held => rfl

/-- A recorded time on the clock is not zero. -/
theorem ofNat_recordedTime_ne_zero (time : Nat) : UInt32.ofNat (recordedTime time) ≠ 0 := by
  rw [← stamp_ofNat]
  exact Edges.stamp_ne_zero _

/-- What a driver waits for is the end of the latest press. -/
theorem Records.awaited?_of_some {touches : List Touch} {k : Key} {time : Nat}
    {since : UInt32} (h : Records touches k) (hlatest : latestPress touches = some time)
    (hawaited : k.driver.awaited? k.edges = some since) :
    since = UInt32.ofNat (recordedTime time) := by
  have hpress := h.press
  rw [hlatest] at hpress
  rw [← show k.edges.press = UInt32.ofNat (recordedTime time) from hpress]
  refine h.tracks.awaited ?_ hawaited
  rw [hpress]
  exact ofNat_recordedTime_ne_zero time

/-! ## long presses -/

/-- The clock shows at least the long limit between the recorded time of a press and the time of a
look if that much time has passed, and also if the look is earlier. -/
theorem longLimit_le_sub_iff {now time : Nat} (hafter : now < time + 2 ^ 31)
    (hbefore : time < now + 2 ^ 31) :
    ButtonDriver.longLimit ≤ UInt32.ofNat now - UInt32.ofNat (recordedTime time) ↔
      recordedTime time + 3000 ≤ now ∨ now < recordedTime time := by
  have hle := le_recordedTime time
  have hge := recordedTime_le time
  rw [UInt32.le_iff_toNat_le, show ButtonDriver.longLimit.toNat = 3000 from rfl]
  obtain hlt | hge' := Nat.lt_or_ge now (recordedTime time)
  · rw [toNat_ofNat_sub_of_lt hlt (by omega)]
    omega
  · rw [toNat_ofNat_sub hge' (by omega)]
    omega

/-- Whether the driver, if it looks now, waits for the end of a press. -/
def awaits (k : Key) : Bool := (k.driver.awaited? k.edges).isSome

/-- A press is reported as long if the driver waits for its end and the clock shows that it has
lasted long enough. -/
theorem Records.tick_eq_long_iff {touches : List Touch} {k : Key} {time : Nat}
    (h : Records touches k) (hlatest : latestPress touches = some time) (now : UInt32) :
    (k.tick now).1 = some .long ↔
      k.awaits = true ∧ ButtonDriver.longLimit ≤ now - UInt32.ofNat (recordedTime time) := by
  show (k.driver.tick k.edges now).1 = some .long ↔ _
  rw [ButtonDriver.tick_eq_long_iff, awaits, Option.isSome_iff_exists]
  constructor
  · intro hlong
    obtain ⟨since, hawaited, hlong⟩ := hlong
    rw [h.awaited?_of_some hlatest hawaited] at hlong
    exact ⟨⟨since, hawaited⟩, hlong⟩
  · intro hlong
    obtain ⟨⟨since, hawaited⟩, hlong⟩ := hlong
    refine ⟨since, hawaited, ?_⟩
    rwa [h.awaited?_of_some hlatest hawaited]

variable {touches : List Touch} {now : Nat} (button : Button)

/-- When a press is reported as long: the driver waits for the end of the latest press, and that was
recorded at least three seconds before the look, or after it. -/
theorem tick_eq_long_iff
    (hnear : ∀ time ∈ latestPress touches, now < time + 2 ^ 31 ∧ time < now + 2 ^ 31) :
    (((untouched button).after touches).tick (UInt32.ofNat now)).1 = some .long ↔
      ((untouched button).after touches).awaits = true ∧ ∃ time ∈ latestPress touches,
        recordedTime time + 3000 ≤ now ∨ now < recordedTime time := by
  have hrecords := records_after button touches
  cases hlatest : latestPress touches with
  | none =>
      have hnone := hrecords.awaited?_of_none hlatest
      have hlong : (((untouched button).after touches).tick (UInt32.ofNat now)).1 = some .long ↔ _ :=
        ButtonDriver.tick_eq_long_iff _ _ _
      rw [hnone] at hlong
      simpa using hlong
  | some time =>
      obtain ⟨hafter, hbefore⟩ := hnear time hlatest
      rw [hrecords.tick_eq_long_iff hlatest, longLimit_le_sub_iff hafter hbefore]
      simp

/-- When no press is reported as long that has not lasted for three seconds. It is so whatever
happened to the button, except if the driver waits for the end of a press that is recorded for a
time later than the one at which it looks. -/
theorem long_only_if_held_iff
    (hnear : ∀ time ∈ latestPress touches, now < time + 2 ^ 31 ∧ time < now + 2 ^ 31) :
    ((((untouched button).after touches).tick (UInt32.ofNat now)).1 = some .long →
        ∃ time ∈ latestPress touches, time + 3000 ≤ now) ↔
      ¬(((untouched button).after touches).awaits = true ∧
        ∃ time ∈ latestPress touches, now < recordedTime time) := by
  rw [tick_eq_long_iff button hnear]
  constructor
  · intro hheld hspurious
    obtain ⟨hawaits, time, hlatest, hearly⟩ := hspurious
    obtain ⟨time', hlatest', hlong⟩ := hheld ⟨hawaits, time, hlatest, .inr hearly⟩
    have hsame : time' = time := Option.some.inj (hlatest'.symm.trans hlatest)
    have hle := recordedTime_le time
    omega
  · intro hnot hlong
    obtain ⟨hawaits, time, hlatest, hlong | hearly⟩ := hlong
    · have hle := le_recordedTime time
      exact ⟨time, hlatest, by omega⟩
    · exact absurd ⟨hawaits, time, hlatest, hearly⟩ hnot

/-- A press that lasts for three seconds. -/
theorem long_only_if_held_iff_three_seconds :
    (((untouched .join).after [.press 1000, .look 1010]).tick (UInt32.ofNat 4000)).1 = some .long ∧
      ∃ time ∈ latestPress [.press 1000, .look 1010], time + 3000 ≤ 4000 := by
  have hnear : ∀ time ∈ latestPress [.press 1000, .look 1010],
      4000 < time + 2 ^ 31 ∧ time < 4000 + 2 ^ 31 := by
    decide
  have hlong : (((untouched .join).after [.press 1000, .look 1010]).tick
      (UInt32.ofNat 4000)).1 = some .long := by
    decide
  exact ⟨hlong, (long_only_if_held_iff .join hnear).2 (by decide) hlong⟩

/-- A press that is recorded one millisecond after the time at which the driver looks is reported as
long at once. On the join button that resets the node. -/
theorem long_at_once :
    (((untouched .join).after [.press 1001]).tick (UInt32.ofNat 1000)).1 = some .long ∧
      latestPress [.press 1001] = some 1001 ∧ (1000 < 1001 + 2 ^ 31 ∧ 1001 < 1000 + 2 ^ 31) ∧
      ¬1001 + 3000 ≤ 1000 ∧
      Button.join.event? false .long = some .factoryResetRequested := by
  decide

end Key

end MeshLight
