import Mathlib.Algebra.BigOperators.Group.List.Basic
import Mathlib.Algebra.Order.BigOperators.Group.List
import Mathlib.Algebra.Order.Group.Nat
import Mathlib.Algebra.Ring.Int.Defs
import Mathlib.Algebra.Ring.Nat
import Mathlib.Data.List.DropRight
import Mathlib.Data.List.Induction
import MeshLight.Encoder

/-!
# MeshLight.Proofs.Rotation

Steps that are fed one after the other. What is gathered is the sum of the last run, the steps of
one direction since the last report (`lastRun`, `unreported`). It is reported once it reaches the
threshold, and a step in the other direction cuts it off (`cutOffs`). So no step is lost and none
counts twice: reports, what is gathered, and runs that were cut off make up all steps
(`Rotation.reports_runs`).
-/

namespace MeshLight

/-! ## runs -/

/-- Steps without those that do not turn the encoder. -/
def moves (steps : List Int) : List Int := steps.filter (· ≠ 0)

/-- Steps that all have one sign. -/
def OneWay (steps : List Int) : Prop := ∀ s ∈ steps, ∀ t ∈ steps, s.sign = t.sign

/-- The last steps in one direction. -/
def lastRun (steps : List Int) : List Int :=
  (moves steps).rtakeWhile fun s => s.sign = ((moves steps).getLast?.getD 0).sign

/-- Whether steps go against a run. -/
def Turns (run : List Int) (s : Int) : Prop := s ≠ 0 ∧ ∃ t ∈ run, t.sign ≠ s.sign

instance (run : List Int) (s : Int) : Decidable (Turns run s) :=
  inferInstanceAs (Decidable (_ ∧ _))

/-- How far all steps turn the encoder, in whichever direction. -/
def magnitude (steps : List Int) : Nat := (steps.map Int.natAbs).sum

/-- Steps that follow each other in one direction never add up to 2^31 or more. -/
def RunsFit (steps : List Int) : Prop :=
  ∀ run, run <:+: moves steps → OneWay run → run.sum.natAbs < 2 ^ 31

variable {steps run : List Int} {s : Int}

theorem magnitude_append (steps steps' : List Int) :
    magnitude (steps ++ steps') = magnitude steps + magnitude steps' := by
  rw [magnitude, List.map_append, List.sum_append]
  rfl

theorem moves_concat_zero (steps : List Int) : moves (steps ++ [0]) = moves steps := by
  simp [moves]

theorem moves_concat (steps : List Int) (hs : s ≠ 0) :
    moves (steps ++ [s]) = moves steps ++ [s] := by
  simp [moves, hs]

theorem lastRun_suffix (steps : List Int) : lastRun steps <:+ moves steps :=
  List.rtakeWhile_suffix _ _

theorem ne_zero_of_mem_lastRun (hs : s ∈ lastRun steps) : s ≠ 0 := by
  have hmem := (lastRun_suffix steps).mem hs
  simpa using (List.mem_filter.1 hmem).2

theorem sign_of_mem_lastRun (hs : s ∈ lastRun steps) :
    s.sign = ((moves steps).getLast?.getD 0).sign := by
  simpa using List.mem_rtakeWhile_imp hs

theorem oneWay_lastRun (steps : List Int) : OneWay (lastRun steps) := fun _ hs _ ht =>
  (sign_of_mem_lastRun hs).trans (sign_of_mem_lastRun ht).symm

theorem lastRun_concat_zero (steps : List Int) : lastRun (steps ++ [0]) = lastRun steps := by
  rw [lastRun, moves_concat_zero, lastRun]

theorem lastRun_concat (hs : s ≠ 0) : lastRun (steps ++ [s]) =
    ((moves steps).rtakeWhile fun t => t.sign = s.sign) ++ [s] := by
  rw [lastRun, moves_concat steps hs, List.getLast?_concat, Option.getD_some,
    List.rtakeWhile_concat_pos _ _ _ (by simp)]

/-- Steps in the direction of the last run go on with it, others start a new one. -/
theorem lastRun_concat_eq (hs : s ≠ 0) : lastRun (steps ++ [s]) =
    (if Turns (lastRun steps) s then [] else lastRun steps) ++ [s] := by
  rw [lastRun_concat hs]
  congr 1
  obtain hnil | ⟨init, last, hinit⟩ := List.eq_nil_or_concat' (moves steps)
  · simp [lastRun, hnil]
  · have hrun : lastRun steps = (init ++ [last]).rtakeWhile fun t => t.sign = last.sign := by
      rw [lastRun, hinit, List.getLast?_concat, Option.getD_some]
    have hlast : last ∈ lastRun steps := by
      rw [hrun, List.rtakeWhile_concat_pos _ _ _ (by simp)]
      exact List.mem_concat_self
    by_cases hsame : last.sign = s.sign
    · have hgoes : ¬Turns (lastRun steps) s := by
        rintro ⟨-, t, ht, hne⟩
        exact hne ((oneWay_lastRun steps t ht last hlast).trans hsame)
      rw [if_neg hgoes, hrun, hinit, hsame]
    · rw [if_pos ⟨hs, last, hlast, hsame⟩, hinit,
        List.rtakeWhile_concat_neg _ _ _ (by simpa using hsame)]

/-! ## sums of runs -/

theorem RunsFit.of_prefix {steps' : List Int} (h : RunsFit steps) (hstarts : steps' <+: steps) :
    RunsFit steps' := fun run hrun => h run (hrun.trans (hstarts.filter _).isInfix)

theorem natAbs_sum_le (steps : List Int) : steps.sum.natAbs ≤ magnitude steps := by
  induction steps with
  | nil => exact Nat.le_refl 0
  | cons s steps ih =>
      rw [List.sum_cons]
      exact (Int.natAbs_add_le _ _).trans (Nat.add_le_add_left ih _)

/-- Few steps always fit. -/
theorem runsFit_of_magnitude_lt (h : magnitude steps < 2 ^ 31) : RunsFit steps := by
  intro run hrun _
  have hsub : run.Sublist steps := hrun.sublist.trans List.filter_sublist
  have hle : magnitude run ≤ magnitude steps :=
    (hsub.map _).sum_le_sum fun _ _ => Nat.zero_le _
  exact ((natAbs_sum_le run).trans hle).trans_lt h

/-- The sum of steps in one direction has that direction. -/
theorem sign_sum (hway : OneWay run) (hs : s ∈ run) : run.sum.sign = s.sign := by
  induction run generalizing s with
  | nil => cases hs
  | cons t rest ih =>
      rw [hway s hs t List.mem_cons_self, List.sum_cons]
      cases rest with
      | nil => rw [List.sum_nil, Int.add_zero]
      | cons u rest =>
          have hrest : (u :: rest).sum.sign = t.sign :=
            (ih (fun a ha b hb => hway a (List.mem_cons_of_mem t ha) b (List.mem_cons_of_mem t hb))
              List.mem_cons_self).trans (hway _ (by simp) _ List.mem_cons_self)
          rw [Int.sign_add_eq_of_sign_eq hrest.symm, hrest]

theorem sum_lastRun_eq_zero_iff (steps : List Int) :
    (lastRun steps).sum = 0 ↔ lastRun steps = [] := by
  constructor
  · intro hsum
    by_contra hne
    obtain ⟨t, ht⟩ := List.exists_mem_of_ne_nil _ hne
    have hsign := sign_sum (oneWay_lastRun steps) ht
    rw [hsum, Int.sign_zero, eq_comm, Int.sign_eq_zero_iff_zero] at hsign
    exact ne_zero_of_mem_lastRun ht hsign
  · intro hnil
    rw [hnil, List.sum_nil]

/-- A step goes against a run if it goes against the sum of the run. -/
theorem turns_lastRun_iff (hs : s ≠ 0) : Turns (lastRun steps) s ↔
    (lastRun steps).sum ≠ 0 ∧ (lastRun steps).sum.sign ≠ s.sign := by
  constructor
  · rintro ⟨-, t, ht, hne⟩
    rw [sign_sum (oneWay_lastRun steps) ht, Ne, sum_lastRun_eq_zero_iff]
    exact ⟨List.ne_nil_of_mem ht, hne⟩
  · rintro ⟨hsum, hne⟩
    obtain ⟨t, ht⟩ := List.exists_mem_of_ne_nil _ (mt (sum_lastRun_eq_zero_iff steps).2 hsum)
    rw [sign_sum (oneWay_lastRun steps) ht] at hne
    exact ⟨hs, t, ht, hne⟩

theorem natAbs_add_of_sign_eq {a b : Int} (h : a.sign = b.sign) :
    (a + b).natAbs = a.natAbs + b.natAbs := by
  obtain hneg | rfl | hpos := Int.lt_trichotomy a 0
  · rw [Int.sign_eq_neg_one_of_neg hneg, eq_comm, Int.sign_eq_neg_one_iff_neg] at h
    omega
  · omega
  · rw [Int.sign_eq_one_of_pos hpos, eq_comm, Int.sign_eq_one_iff_pos] at h
    omega

/-- A step adds to the run, or it cuts the run off. -/
theorem natAbs_sum_lastRun_concat (steps : List Int) (s : Int) :
    (lastRun (steps ++ [s])).sum.natAbs +
      (if Turns (lastRun steps) s then (lastRun steps).sum.natAbs else 0) =
    (lastRun steps).sum.natAbs + s.natAbs := by
  by_cases hs : s = 0
  · rw [hs, lastRun_concat_zero, if_neg fun h => h.1 rfl]
    rfl
  · rw [lastRun_concat_eq hs]
    by_cases hturns : Turns (lastRun steps) s
    · rw [if_pos hturns, if_pos hturns, List.nil_append, List.sum_singleton, Nat.add_comm]
    · rw [if_neg hturns, if_neg hturns, List.sum_append, List.sum_singleton, Nat.add_zero]
      rw [turns_lastRun_iff hs, not_and_or, not_not, not_not] at hturns
      obtain hzero | hsame := hturns
      · rw [hzero, Int.zero_add, Int.natAbs_zero, Nat.zero_add]
      · exact natAbs_add_of_sign_eq hsame

/-! ## one feeding -/

/-- Steps that were fed, and what was reported for them. -/
structure Feeding where
  steps : Int
  report : Option Int
  deriving DecidableEq

/-- The steps that were fed since the last report. -/
def unreported (fed : List Feeding) : List Int :=
  (fed.rtakeWhile (·.report.isNone)).map Feeding.steps

/-- What was reported. -/
def reports (fed : List Feeding) : List Int := fed.filterMap Feeding.report

/-- The run that more steps cut off. -/
def cutOffBy (fed : List Feeding) (s : Int) : List (List Int) :=
  if Turns (lastRun (unreported fed)) s then [lastRun (unreported fed)] else []

/-- The runs that were cut off after some feedings. -/
def cutOffsAfter (fed : List Feeding) : List Feeding → List (List Int)
  | [] => []
  | f :: later => cutOffBy fed f.steps ++ cutOffsAfter (fed ++ [f]) later

/-- The runs that were cut off. -/
def cutOffs (fed : List Feeding) : List (List Int) := cutOffsAfter [] fed

section

variable {fed : List Feeding}

theorem unreported_concat_none (fed : List Feeding) (s : Int) :
    unreported (fed ++ [⟨s, none⟩]) = unreported fed ++ [s] := by
  rw [unreported, List.rtakeWhile_concat_pos _ _ _ rfl, List.map_append]
  rfl

theorem unreported_concat_some (fed : List Feeding) (s v : Int) :
    unreported (fed ++ [⟨s, some v⟩]) = [] := by
  rw [unreported, List.rtakeWhile_concat_neg _ _ _ (by simp), List.map_nil]

theorem unreported_suffix (fed : List Feeding) : unreported fed <:+ fed.map Feeding.steps :=
  (List.rtakeWhile_suffix _ _).map _

theorem cutOffs_concat (fed : List Feeding) (f : Feeding) :
    cutOffs (fed ++ [f]) = cutOffs fed ++ cutOffBy fed f.steps := by
  have hafter (later earlier : List Feeding) : cutOffsAfter earlier (later ++ [f]) =
      cutOffsAfter earlier later ++ cutOffBy (earlier ++ later) f.steps := by
    induction later generalizing earlier with
    | nil => simp [cutOffsAfter]
    | cons g later ih => simp [cutOffsAfter, ih]
  exact hafter fed []

theorem magnitude_steps_concat (fed : List Feeding) (f : Feeding) :
    magnitude ((fed ++ [f]).map Feeding.steps) =
      magnitude (fed.map Feeding.steps) + f.steps.natAbs := by
  rw [List.map_append, magnitude_append]
  rfl

theorem magnitude_reports_concat (fed : List Feeding) (f : Feeding) :
    magnitude (reports (fed ++ [f])) = magnitude (reports fed) + magnitude f.report.toList := by
  rw [reports, List.filterMap_append, magnitude_append, reports]
  cases hf : f.report <;> simp [hf]

theorem magnitude_cutOffs_concat (fed : List Feeding) (f : Feeding) :
    magnitude ((cutOffs (fed ++ [f])).map List.sum) = magnitude ((cutOffs fed).map List.sum) +
      if Turns (lastRun (unreported fed)) f.steps then (lastRun (unreported fed)).sum.natAbs
      else 0 := by
  rw [cutOffs_concat, List.map_append, magnitude_append, cutOffBy]
  split <;> simp [magnitude]

end

namespace Rotation

variable {r : Rotation} {threshold : Int} {fed : List Feeding}

/-- Feeding steps gathers the run that they belong to, and reports all of it if that is enough. -/
theorem feed_eq (hpending : r.pending = (lastRun steps).sum)
    (hbelow : r.pending.natAbs < r.threshold)
    (hfits : (lastRun (steps ++ [s])).sum.natAbs < 2 ^ 31) :
    r.feed s =
      if r.threshold ≤ (lastRun (steps ++ [s])).sum.natAbs then
        (some (lastRun (steps ++ [s])).sum, { r with pending := 0 })
      else (none, { r with pending := (lastRun (steps ++ [s])).sum }) := by
  by_cases hs : s = 0
  · rw [hs, lastRun_concat_zero, ← hpending, if_neg (Int.not_le.2 hbelow)]
    rfl
  · have hkept : (if r.pending ≠ 0 ∧ r.pending.sign ≠ s.sign then 0 else r.pending) + s =
        (lastRun (steps ++ [s])).sum := by
      rw [hpending, lastRun_concat_eq hs, List.sum_append, List.sum_singleton]
      simp only [← turns_lastRun_iff hs]
      split <;> rfl
    have hclamp : clamp32 (lastRun (steps ++ [s])).sum = (lastRun (steps ++ [s])).sum := by
      rw [clamp32]
      omega
    rw [feed, if_neg hs]
    simp only [hkept, hclamp]

/-! ## any feedings -/

/-- Feeds steps one after the other. -/
def after : List Int → Rotation → Rotation
  | [], r => r
  | s :: deltas, r => after deltas (r.feed s).2

/-- The steps that are fed, with what is reported for each. -/
def feedings : List Int → Rotation → List Feeding
  | [], _ => []
  | s :: deltas, r => ⟨s, (r.feed s).1⟩ :: feedings deltas (r.feed s).2

variable {deltas : List Int}

theorem after_concat (deltas : List Int) (s : Int) (r : Rotation) :
    r.after (deltas ++ [s]) = ((r.after deltas).feed s).2 := by
  induction deltas generalizing r with
  | nil => rfl
  | cons d deltas ih => exact ih (r.feed d).2

theorem feedings_concat (deltas : List Int) (s : Int) (r : Rotation) :
    r.feedings (deltas ++ [s]) = r.feedings deltas ++ [⟨s, ((r.after deltas).feed s).1⟩] := by
  induction deltas generalizing r with
  | nil => rfl
  | cons d deltas ih => exact congrArg (⟨d, (r.feed d).1⟩ :: ·) (ih (r.feed d).2)

theorem map_steps_feedings (deltas : List Int) (r : Rotation) :
    (r.feedings deltas).map Feeding.steps = deltas := by
  induction deltas generalizing r with
  | nil => rfl
  | cons d deltas ih => exact congrArg (d :: ·) (ih (r.feed d).2)

/-- What is gathered after some feedings. -/
structure Gathers (threshold : Int) (fed : List Feeding) (r : Rotation) : Prop where
  threshold_eq : r.threshold = threshold
  pending_eq : r.pending = (lastRun (unreported fed)).sum
  pending_lt : r.pending.natAbs < threshold
  conserved : magnitude (reports fed) + r.pending.natAbs + magnitude ((cutOffs fed).map List.sum) =
    magnitude (fed.map Feeding.steps)

theorem gathers_initial (hthreshold : 1 ≤ threshold) : Gathers threshold [] (initial threshold) :=
  ⟨rfl, rfl, Int.lt_of_lt_of_le Int.zero_lt_one hthreshold, rfl⟩

/-- Whether it is reported or not, the run with the new steps takes the place of what was gathered,
and what it leaves behind was cut off. -/
theorem Gathers.conserved_concat (h : Gathers threshold fed r) {report : Option Int} {pending : Int}
    (hrun : magnitude report.toList + pending.natAbs =
      (lastRun (unreported fed ++ [s])).sum.natAbs) :
    magnitude (reports (fed ++ [⟨s, report⟩])) + pending.natAbs +
      magnitude ((cutOffs (fed ++ [⟨s, report⟩])).map List.sum) =
    magnitude (List.map Feeding.steps (fed ++ [⟨s, report⟩])) := by
  have hbefore := h.conserved
  have hjoins := natAbs_sum_lastRun_concat (unreported fed) s
  rw [← h.pending_eq] at hjoins
  rw [magnitude_reports_concat, magnitude_cutOffs_concat, magnitude_steps_concat, ← h.pending_eq]
  dsimp only
  omega

/-- More steps, if the run that they belong to fits. -/
theorem Gathers.feed (h : Gathers threshold fed r) (hthreshold : 1 ≤ threshold)
    (hfits : (lastRun (unreported fed ++ [s])).sum.natAbs < 2 ^ 31) :
    (r.feed s).1 = (if threshold ≤ (lastRun (unreported fed ++ [s])).sum.natAbs then
      some (lastRun (unreported fed ++ [s])).sum else none) ∧
    Gathers threshold (fed ++ [⟨s, (r.feed s).1⟩]) (r.feed s).2 := by
  have hfeed := feed_eq h.pending_eq (h.threshold_eq.symm ▸ h.pending_lt) hfits
  rw [h.threshold_eq] at hfeed
  by_cases hreached : threshold ≤ (lastRun (unreported fed ++ [s])).sum.natAbs
  · rw [if_pos hreached] at hfeed ⊢
    rw [hfeed]
    refine ⟨rfl, rfl, ?_, Int.lt_of_lt_of_le Int.zero_lt_one hthreshold, h.conserved_concat ?_⟩
    · rw [unreported_concat_some]
      rfl
    · simp [magnitude]
  · rw [if_neg hreached] at hfeed ⊢
    rw [hfeed]
    refine ⟨rfl, rfl, ?_, Int.not_le.1 hreached, h.conserved_concat ?_⟩
    · rw [unreported_concat_none]
    · simp [magnitude]

/-- The run that steps belong to is one of all steps. -/
theorem lastRun_unreported_infix (fed : List Feeding) (s : Int) :
    lastRun (unreported fed ++ [s]) <:+: moves (fed.map Feeding.steps ++ [s]) := by
  obtain ⟨earlier, hearlier⟩ := unreported_suffix fed
  have hsuffix : unreported fed ++ [s] <:+ fed.map Feeding.steps ++ [s] :=
    ⟨earlier, by rw [← List.append_assoc, hearlier]⟩
  exact ((lastRun_suffix _).trans (hsuffix.filter _)).isInfix

theorem natAbs_sum_lastRun_lt (hfit : RunsFit (deltas ++ [s])) (r : Rotation) :
    (lastRun (unreported (r.feedings deltas) ++ [s])).sum.natAbs < 2 ^ 31 := by
  have hinfix := lastRun_unreported_infix (r.feedings deltas) s
  rw [map_steps_feedings] at hinfix
  exact hfit _ hinfix (oneWay_lastRun _)

theorem gathers_after (hthreshold : 1 ≤ threshold) (hfit : RunsFit deltas) :
    Gathers threshold ((initial threshold).feedings deltas) ((initial threshold).after deltas) := by
  induction deltas using List.reverseRecOn with
  | nil => exact gathers_initial hthreshold
  | append_singleton deltas s ih =>
      rw [feedings_concat, after_concat]
      exact ((ih (hfit.of_prefix (List.prefix_append _ _))).feed hthreshold
        (natAbs_sum_lastRun_lt hfit _)).2

/-- Steps whose runs fit are neither lost nor counted twice. The run that they belong to is reported
as a whole as soon as it reaches the threshold, less than that stays, and what was reported, what
stays, and the runs that were cut off add up to all steps. -/
theorem reports_runs (hthreshold : 1 ≤ threshold) (hfit : RunsFit deltas) :
    (∀ before s, before ++ [s] <+: deltas →
      let run := lastRun (unreported ((initial threshold).feedings before) ++ [s])
      let (report, r) := ((initial threshold).after before).feed s
      report = (if threshold ≤ run.sum.natAbs then some run.sum else none) ∧
      r.pending.natAbs < threshold) ∧
    let fed := (initial threshold).feedings deltas
    magnitude (reports fed) + ((initial threshold).after deltas).pending.natAbs +
      magnitude ((cutOffs fed).map List.sum) = magnitude deltas := by
  constructor
  · intro before s hstarts
    have hfit := hfit.of_prefix hstarts
    have hbefore := gathers_after hthreshold (hfit.of_prefix (List.prefix_append _ _))
    obtain ⟨hreport, hafter⟩ := hbefore.feed hthreshold (natAbs_sum_lastRun_lt hfit _)
    exact ⟨hreport, hafter.pending_lt⟩
  · intro fed
    have hconserved := (gathers_after hthreshold hfit).conserved
    rwa [map_steps_feedings] at hconserved

/-- Turned back and forth, with one run that is cut off and two that are reported. -/
theorem reports_runs_back_and_forth :
    (1 : Int) ≤ 24 ∧ RunsFit [20, -5, 0, -19, 30, 7] ∧
    (initial 24).feedings [20, -5, 0, -19, 30, 7] =
      [⟨20, none⟩, ⟨-5, none⟩, ⟨0, none⟩, ⟨-19, some (-24)⟩, ⟨30, some 30⟩, ⟨7, none⟩] ∧
    24 + 30 + 7 + 20 = magnitude [20, -5, 0, -19, 30, 7] := by
  have hfit : RunsFit [20, -5, 0, -19, 30, 7] := runsFit_of_magnitude_lt (by decide)
  have hthreshold : (1 : Int) ≤ 24 := by decide
  exact ⟨hthreshold, hfit, by decide, (reports_runs hthreshold hfit).2⟩

end Rotation

end MeshLight
