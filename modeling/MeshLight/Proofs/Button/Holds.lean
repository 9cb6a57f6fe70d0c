import MeshLight.Proofs.Button.Gestures

/-!
# MeshLight.Proofs.Button.Holds

How often a press is reported as long, up to the first look after its release. It is at most once,
since the driver is done with a press that it has reported (`Key.IsDone`). It is once exactly if the
driver looked while it waited for the end of the press and the press had lasted three seconds on the
clock; so one that is released before the driver looks is lost (`Key.long_once_iff`).
-/

namespace MeshLight

/-! ## looks -/

namespace ButtonDriver

variable {edges : Edges} {d : ButtonDriver}

/-- A look at a press that is waited for. -/
theorem tick_of_awaited {since : UInt32} (now : UInt32) (h : d.awaited? edges = some since) :
    d.tick edges now =
      if longLimit ≤ now - since then
        (some .long, { d.notePress edges.press with tracking := .held })
      else (none, d.notePress edges.press) := by
  unfold awaited? at h
  split at h
  · next since' htracking =>
      split at h
      · cases h
      · next hrelease =>
          cases h
          simp only [tick, hrelease, htracking]
          rfl
  · cases h
  · cases h

/-- After a look at none, no press is tracked. -/
theorem tick_of_unawaited (now : UInt32) (h : d.awaited? edges = none) :
    (d.tick edges now).2.lastPress = (d.notePress edges.press).lastPress ∧
      ∀ since, (d.tick edges now).2.tracking ≠ .pressed since := by
  unfold awaited? at h
  cases hrelease : (d.notePress edges.press).isNewRelease edges.release with
  | true =>
      cases htracking : (d.notePress edges.press).tracking <;>
        simp [tick, hrelease, htracking]
  | false =>
      cases htracking : (d.notePress edges.press).tracking with
      | pressed since => simp [hrelease, htracking] at h
      | idle | held => simp [tick, hrelease, htracking]

end ButtonDriver

namespace Key

/-- What is reported at a touch. -/
def report? (k : Key) : Touch → Option Gesture
  | .look now => (k.tick (UInt32.ofNat now)).1
  | _ => none

/-- The driver has noted the recorded press and does not track it any more. -/
def IsDone (k : Key) : Prop :=
  k.driver.lastPress = k.edges.press ∧ ∀ since, k.driver.tracking ≠ .pressed since

variable {k : Key}

/-- What is done with is not waited for, whatever is recorded as its release. -/
theorem IsDone.awaits (h : k.IsDone) : k.awaits = false := by
  obtain ⟨hnoted, htracking⟩ := h
  rw [Key.awaits, ButtonDriver.awaited?, ButtonDriver.notePress_of_eq hnoted]
  cases hcase : k.driver.tracking with
  | pressed since => exact absurd hcase (htracking since)
  | idle | held => rfl

theorem IsDone.release (h : k.IsDone) (time : Nat) : (k.touch (.release time)).IsDone := h

/-- A press that is not waited for is not reported as long, and done with once the driver has
looked. -/
theorem report_of_not_awaits (hpress : k.edges.press ≠ 0) (h : k.awaits = false) (now : Nat) :
    k.report? (.look now) ≠ some .long ∧ (k.touch (.look now)).IsDone := by
  have hnone : k.driver.awaited? k.edges = none := by
    simpa [awaits] using h
  obtain ⟨hnoted, htracking⟩ := ButtonDriver.tick_of_unawaited (UInt32.ofNat now) hnone
  rw [ButtonDriver.lastPress_notePress _ hpress] at hnoted
  refine ⟨fun hlong => ?_, hnoted, htracking⟩
  obtain ⟨since, hawaited, -⟩ := (ButtonDriver.tick_eq_long_iff _ _ _).1 hlong
  rw [hnone] at hawaited
  cases hawaited

/-- One that is waited for is reported as long and done with, or still waited for. -/
theorem report_of_awaits (hpress : k.edges.press ≠ 0) (h : k.awaits = true) (now : Nat) :
    k.report? (.look now) = some .long ∧ (k.touch (.look now)).IsDone ∨
      k.report? (.look now) = none ∧ (k.touch (.look now)).awaits = true := by
  obtain ⟨since, hawaited⟩ := Option.isSome_iff_exists.1 h
  have hlast := ButtonDriver.lastPress_notePress k.driver hpress
  have htick : k.tick (UInt32.ofNat now) = ((k.driver.tick k.edges (UInt32.ofNat now)).1,
      { k with driver := (k.driver.tick k.edges (UInt32.ofNat now)).2 }) := rfl
  rw [report?, touch, htick, ButtonDriver.tick_of_awaited _ hawaited]
  split
  · exact .inl ⟨rfl, hlast, nofun⟩
  · refine .inr ⟨rfl, ?_⟩
    rw [awaits, ButtonDriver.awaited?, ButtonDriver.notePress_of_eq hlast]
    exact h

/-! ## counting reports -/

/-- What is reported over touches. -/
def reports (k : Key) : List Touch → List Gesture
  | [] => []
  | t :: touches => (k.report? t).toList ++ reports (k.touch t) touches

/-- How many presses are reported as long over touches. -/
def longs (k : Key) (touches : List Touch) : Nat := (k.reports touches).count .long

theorem longs_cons (k : Key) (t : Touch) (touches : List Touch) :
    k.longs (t :: touches) =
      (if k.report? t = some .long then 1 else 0) + (k.touch t).longs touches := by
  rw [longs, reports, List.count_append, longs]
  cases hreport : k.report? t with
  | none => rfl
  | some g => cases g <;> rfl

theorem longs_append (k : Key) (first rest : List Touch) :
    k.longs (first ++ rest) = k.longs first + (k.after first).longs rest := by
  induction first generalizing k with
  | nil => exact (Nat.zero_add _).symm
  | cons t first ih =>
      rw [List.cons_append, longs_cons, longs_cons, ih, Nat.add_assoc]
      rfl

/-- A press that is done with is not reported again. -/
theorem longs_of_isDone (h : k.IsDone) (hpress : k.edges.press ≠ 0) (looks : List Nat) :
    k.longs (looks.map .look) = 0 ∧ (k.after (looks.map .look)).IsDone := by
  induction looks generalizing k with
  | nil => exact ⟨rfl, h⟩
  | cons t looks ih =>
      obtain ⟨hquiet, hdone⟩ := report_of_not_awaits hpress h.awaits t
      rw [List.map_cons, longs_cons, if_neg hquiet, Nat.zero_add]
      exact ih hdone hpress

/-- The clock shows three seconds since a press was recorded: they have passed, or the press was
recorded for a time that is yet to come. -/
def SeemsLong (p now : Nat) : Prop := recordedTime p + 3000 ≤ now ∨ now < recordedTime p

theorem Records.press_ne_zero {touches : List Touch} {p : Nat} (h : Records touches k)
    (hlatest : latestPress touches = some p) : k.edges.press ≠ 0 := by
  rw [h.press, hlatest]
  exact ofNat_recordedTime_ne_zero p

/-- While a press is held, it is reported once if it is waited for and a look finds it long, and
otherwise not at all. -/
theorem longs_of_looks {touches : List Touch} {p : Nat} {looks : List Nat}
    (h : Records touches k) (hlatest : latestPress touches = some p)
    (hnear : ∀ t ∈ looks, p ≤ t ∧ t < p + 2 ^ 31) :
    (k.awaits = true ∧ ∃ t ∈ looks, SeemsLong p t) ∧ k.longs (looks.map .look) = 1 ∧
        (k.after (looks.map .look)).IsDone ∨
      ¬(k.awaits = true ∧ ∃ t ∈ looks, SeemsLong p t) ∧ k.longs (looks.map .look) = 0 := by
  induction looks generalizing k touches with
  | nil => exact .inr ⟨by simp, rfl⟩
  | cons t looks ih =>
      obtain ⟨hle, hlt⟩ := hnear t List.mem_cons_self
      have hpress := h.press_ne_zero hlatest
      have hlong : k.report? (.look t) = some .long ↔ k.awaits = true ∧ SeemsLong p t := by
        rw [report?, h.tick_eq_long_iff hlatest, longLimit_le_sub_iff hlt (by omega)]
        rfl
      have hafter : k.after ((t :: looks).map .look) =
          (k.touch (.look t)).after (looks.map .look) := rfl
      rw [hafter, List.map_cons, longs_cons]
      cases hawaits : k.awaits with
      | false =>
          obtain ⟨hquiet, hdone⟩ := report_of_not_awaits hpress hawaits t
          rw [if_neg hquiet, Nat.zero_add]
          exact .inr ⟨by simp, (longs_of_isDone hdone hpress looks).1⟩
      | true =>
          obtain ⟨hreport, hdone⟩ | ⟨hreport, hawaits'⟩ := report_of_awaits hpress hawaits t
          · obtain ⟨hnone, hdone⟩ := longs_of_isDone hdone hpress looks
            rw [if_pos hreport, hnone]
            exact .inl ⟨⟨rfl, t, List.mem_cons_self, (hlong.1 hreport).2⟩, rfl, hdone⟩
          · have hquiet : k.report? (.look t) ≠ some .long := by
              rw [hreport]
              exact nofun
            have hyoung : ¬SeemsLong p t := fun hseems => hquiet (hlong.2 ⟨hawaits, hseems⟩)
            have hlatest' : latestPress (touches ++ [.look t]) = some p := by
              rw [latestPress_concat]
              exact hlatest
            have hrest := ih (h.touch (.look t)) hlatest' fun t' ht' =>
              hnear t' (List.mem_cons_of_mem t ht')
            rw [if_neg hquiet, Nat.zero_add]
            simpa [hawaits', hyoung] using hrest

/-! ## a whole press -/

/-- In an orderly history a driver waits for the end of a press that was just recorded. -/
theorem awaits_of_press {before : List Touch} {p : Nat} (h : Stands (before ++ [.press p]) k) :
    k.awaits = true ∧ p % 2 ^ 32 ≠ 0 := by
  generalize htouches : before ++ [.press p] = touches at h
  cases h with
  | rest _ _ hlooked =>
      have hedge := hlooked (.press p) (by rw [← htouches]; exact List.getLast?_concat)
      cases hedge
  | @down earlier p' looks _ hclock _ _ _ hdriver =>
      have hsame : before ++ .press p :: ([] : List Nat).map .look =
          earlier ++ .press p' :: looks.map .look := htouches
      obtain ⟨hpress, rfl⟩ := looks_unique rfl rfl hsame
      cases hpress
      refine ⟨?_, hclock⟩
      simp [awaits, ButtonDriver.awaited?, hdriver, trackingOf, ButtonDriver.isNewRelease_self]
  | up =>
      obtain ⟨-, hlast⟩ := List.append_inj' htouches rfl
      cases hlast

/-- It waits no longer once the release is recorded. -/
theorem awaits_of_release {before : List Touch} {r : Nat} (h : Stands (before ++ [.release r]) k) :
    k.awaits = false := by
  generalize htouches : before ++ [.release r] = touches at h
  cases h with
  | rest _ _ hlooked =>
      have hedge := hlooked (.release r) (by rw [← htouches]; exact List.getLast?_concat)
      cases hedge
  | down =>
      have hlatest := congrArg latestEdge? htouches
      rw [latestEdge?_looks rfl, latestEdge?_of_edge _ rfl] at hlatest
      cases hlatest
  | @up earlier p r looks _ last _ _ _ _ hdriver hnew =>
      rw [awaits, ButtonDriver.awaited?, hdriver]
      cases htracking : trackingOf p looks with
      | pressed since =>
          rw [htracking] at hnew
          simp [hnew]
      | idle | held => rfl

section

variable (button : Button) (before : List Touch) (p : Nat) (looks : List Nat) (r now : Nat)

/-- A press, some looks, its release, and another look. -/
def hold : List Touch := .press p :: looks.map .look ++ [.release r, .look now]

/-- The key once the press is recorded. -/
def pressed : Key := (untouched button).after (before ++ [.press p])

/-- The key once the release is recorded as well. -/
def released : Key :=
  (untouched button).after (before ++ .press p :: looks.map .look ++ [.release r])

theorem released_eq : released button before p looks r =
    ((pressed button before p).after (looks.map .look)).touch (.release r) := by
  rw [released, after_concat, List.append_cons, after, List.foldl_append]
  rfl

/-- A press is reported while it is held or at the look after its release. -/
theorem longs_hold : ((untouched button).after before).longs (hold p looks r now) =
    (pressed button before p).longs (looks.map .look) +
      if (released button before p looks r).report? (.look now) = some .long then 1 else 0 := by
  have hquiet (k : Key) : k.longs [.release r, .look now] =
      if (k.touch (.release r)).report? (.look now) = some .long then 1 else 0 := by
    rw [longs_cons, longs_cons]
    exact Nat.zero_add _
  rw [released_eq, pressed, after_concat, hold, List.cons_append, longs_cons, longs_append, hquiet]
  exact Nat.zero_add _

theorem latestPress_hold :
    latestPress (before ++ .press p :: looks.map .look ++ [.release r]) = some p := by
  rw [latestPress_append (by simp [Touch.press?]), List.append_cons,
    latestPress_append (by simp [Touch.press?])]
  exact latestPress_concat before (.press p)

end

variable (button : Button) (before : List Touch) {p : Nat} {looks : List Nat} (r now : Nat)

/-- A press is reported as long at most once: while it is held, or at the look after its release. -/
theorem longs_hold_le_one (hnear : ∀ t ∈ looks, p ≤ t ∧ t < p + 2 ^ 31) :
    ((untouched button).after before).longs (hold p looks r now) ≤ 1 ∧
    (((untouched button).after before).longs (hold p looks r now) = 1 ↔
      (pressed button before p).awaits = true ∧ (∃ t ∈ looks, SeemsLong p t) ∨
      (released button before p looks r).awaits = true ∧
        ButtonDriver.longLimit ≤ UInt32.ofNat now - UInt32.ofNat (recordedTime p)) := by
  have hpressed : Records (before ++ [.press p]) (pressed button before p) := records_after button _
  have hreleased : Records (before ++ .press p :: looks.map .look ++ [.release r])
      (released button before p looks r) := records_after button _
  have hlast : (released button before p looks r).report? (.look now) = some .long ↔
      (released button before p looks r).awaits = true ∧
        ButtonDriver.longLimit ≤ UInt32.ofNat now - UInt32.ofNat (recordedTime p) :=
    hreleased.tick_eq_long_iff (latestPress_hold before p looks r) (UInt32.ofNat now)
  rw [longs_hold]
  obtain ⟨hheld, hone, hdone⟩ | ⟨hheld, hnone⟩ :=
    longs_of_looks hpressed (latestPress_concat before (.press p)) hnear
  · have hup : (released button before p looks r).awaits = false := by
      rw [released_eq]
      exact (hdone.release r).awaits
    have hquiet : (released button before p looks r).report? (.look now) ≠ some .long := by
      intro hlong
      rw [(hlast.1 hlong).1] at hup
      cases hup
    rw [if_neg hquiet, hone]
    exact ⟨Nat.le_refl 1, fun _ => .inl hheld, fun _ => rfl⟩
  · rw [hnone]
    by_cases hlong : (released button before p looks r).report? (.look now) = some .long
    · rw [if_pos hlong]
      exact ⟨Nat.le_refl 1, fun _ => .inr (hlast.1 hlong), fun _ => rfl⟩
    · rw [if_neg hlong]
      refine ⟨Nat.zero_le 1, nofun, fun hseen => ?_⟩
      exact (hseen.elim hheld fun hafter => hlong (hlast.2 hafter)).elim

/-- How often a press is reported as long, up to the first look after its release and whatever
happened to the button before: at most once. It is once if a look finds the press long on the clock
while the driver waits for its end, and otherwise only if the driver, when it looks after the
release, still waits for one. In an orderly history this means a look that comes before the release
and three seconds or more after the press. -/
theorem long_once_iff (hnear : ∀ t ∈ looks, p ≤ t ∧ t < p + 2 ^ 31) :
    ((untouched button).after before).longs (hold p looks r now) ≤ 1 ∧
    (((untouched button).after before).longs (hold p looks r now) = 1 ↔
      (pressed button before p).awaits = true ∧ (∃ t ∈ looks, SeemsLong p t) ∨
      (released button before p looks r).awaits = true ∧
        ButtonDriver.longLimit ≤ UInt32.ofNat now - UInt32.ofNat (recordedTime p)) ∧
    (Orderly (before ++ hold p looks r now) →
      (((untouched button).after before).longs (hold p looks r now) = 1 ↔
        ∃ t ∈ looks, p + 3000 ≤ t)) := by
  obtain ⟨hle, hiff⟩ := longs_hold_le_one button before r now hnear
  refine ⟨hle, hiff, fun horderly => ?_⟩
  have hreleased : before ++ hold p looks r now =
      before ++ .press p :: looks.map .look ++ [.release r] ++ [.look now] := by
    simp [hold]
  have hpressed : before ++ hold p looks r now =
      before ++ [.press p] ++ (looks.map .look ++ [.release r, .look now]) := by
    simp [hold]
  obtain ⟨hdown, hclock⟩ := awaits_of_press ((hpressed ▸ horderly).of_append.stands button)
  have hup : (released button before p looks r).awaits = false :=
    awaits_of_release ((hreleased ▸ horderly).of_append.stands button)
  rw [hiff, pressed, hdown, hup]
  simp only [true_and, Bool.false_eq_true, false_and, or_false, SeemsLong, recordedTime_eq hclock]
  refine exists_congr fun t => and_congr_right fun ht => ?_
  have hle := (hnear t ht).1
  omega

/-- A press of four seconds that the driver finds three seconds old. -/
theorem long_once_iff_four_seconds :
    (∀ t ∈ [1010, 4000], 1000 ≤ t ∧ t < 1000 + 2 ^ 31) ∧
      Orderly ([] ++ hold 1000 [1010, 4000] 5000 5010) ∧
      (untouched .join).longs (hold 1000 [1010, 4000] 5000 5010) = 1 := by
  have hnear : ∀ t ∈ [1010, 4000], 1000 ≤ t ∧ t < 1000 + 2 ^ 31 := by decide
  have h := @Orderly.press _ 1000 .nil ⟨by decide, by decide⟩ (by decide) (fun _ he => by cases he)
    (by decide)
  have h := @Orderly.look _ 1010 h ⟨by decide, by decide⟩
  have h := @Orderly.look _ 4000 h ⟨by decide, by decide⟩
  have h := @Orderly.release _ 5000 h ⟨by decide, by decide⟩ (by decide) ⟨_, by decide, rfl⟩
  have h : Orderly ([] ++ hold 1000 [1010, 4000] 5000 5010) :=
    @Orderly.look _ 5010 h ⟨by decide, by decide⟩
  exact ⟨hnear, h, ((long_once_iff .join [] 5000 5010 hnear).2.2 h).2 ⟨4000, by decide, by decide⟩⟩

/-- One at which it looks only when it is over is not reported. -/
theorem long_lost_between_looks :
    Orderly (hold 1000 [] 5000 5000) ∧ 1000 + 3000 ≤ 5000 ∧ 5000 < 1000 + 2 ^ 31 ∧
      (untouched .join).longs (hold 1000 [] 5000 5000) = 0 := by
  have h := @Orderly.press _ 1000 .nil ⟨by decide, by decide⟩ (by decide) (fun _ he => by cases he)
    (by decide)
  have h := @Orderly.release _ 5000 h ⟨by decide, by decide⟩ (by decide) ⟨_, by decide, rfl⟩
  exact ⟨@Orderly.look _ 5000 h ⟨by decide, by decide⟩, by decide, by decide, by decide⟩

end Key

end MeshLight
