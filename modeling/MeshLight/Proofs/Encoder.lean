import Mathlib.Algebra.BigOperators.Group.List.Basic
import Mathlib.Algebra.Group.Int.Defs
import Mathlib.Algebra.Ring.Nat
import Mathlib.Data.Int.ModEq
import MeshLight.Encoder

/-!
# MeshLight.Proofs.Encoder

Phases that are seen one after the other, while the steps that were counted are taken now and then.
If no two levels change at once, the steps along the way (`netSteps`) lead from place to place in
the cycle of the phases, and the same way back undoes them (`netSteps_back`), so jitter counts for
nothing. All that is taken and counted is the steps along the way (`Encoder.total_eq`), modulo 2^32
if the counter overflows in between. It does not on a way of fewer than 2^31 phases and back, since
that never leaves the heights of the way there (`Encoder.fits_of_length_lt`). Both together are
`Encoder.counts_way`.
-/

namespace MeshLight

/-! ## calls -/

/-- A phase is seen, or the steps counted so far are taken. -/
inductive EncoderCall where
  | see (phase : Phase)
  | take
  deriving DecidableEq

namespace EncoderCall

def phase? : EncoderCall → Option Phase
  | see phase => some phase
  | take => none

end EncoderCall

/-- The phases that are seen. -/
def samples (calls : List EncoderCall) : List Phase := calls.filterMap EncoderCall.phase?

theorem samples_append (calls calls' : List EncoderCall) :
    samples (calls ++ calls') = samples calls ++ samples calls' := List.filterMap_append ..

/-! ## ways through the cycle -/

namespace Phase

/-- The place in the cycle. -/
def position : Phase → Int
  | ⟨false, false⟩ => 0
  | ⟨false, true⟩ => 1
  | ⟨true, true⟩ => 2
  | ⟨true, false⟩ => 3

/-- Phases that do not differ in both levels. -/
def Near (p q : Phase) : Prop := p.a = q.a ∨ p.b = q.b

instance : DecidableRel Near := fun p q => inferInstanceAs (Decidable (p.a = q.a ∨ p.b = q.b))

end Phase

open Encoder (stepBetween)

variable {p q : Phase} {phases : List Phase} {height : Int}

theorem stepBetween_modEq (h : p.Near q) : stepBetween p q ≡ q.position - p.position [ZMOD 4] := by
  rcases p with ⟨_ | _, _ | _⟩ <;> rcases q with ⟨_ | _, _ | _⟩ <;> revert h <;> decide

/-- The steps from each of 00, 01, 10, 11 to each of them. -/
example : let phases := [⟨false, false⟩, ⟨false, true⟩, ⟨true, false⟩, ⟨true, true⟩]
    phases.flatMap (fun p => phases.map (stepBetween p)) =
      [0, 1, -1, 0, -1, 0, 0, 1, 1, 0, 0, -1, 0, -1, 1, 0] := by decide

theorem stepBetween_cases (p q : Phase) : -1 ≤ stepBetween p q ∧ stepBetween p q ≤ 1 := by
  rcases p with ⟨_ | _, _ | _⟩ <;> rcases q with ⟨_ | _, _ | _⟩ <;> decide

/-- The steps along some phases, those back taken off. -/
def netSteps : Phase → List Phase → Int
  | _, [] => 0
  | p, q :: phases => stepBetween p q + netSteps q phases

/-- The net steps at each phase on the way. -/
def heights : Int → Phase → List Phase → List Int
  | height, _, [] => [height]
  | height, p, q :: phases => height :: heights (height + stepBetween p q) q phases

theorem netSteps_append (p : Phase) (phases phases' : List Phase) :
    netSteps p (phases ++ phases') = netSteps p phases + netSteps (phases.getLastD p) phases' := by
  induction phases generalizing p with
  | nil => exact (Int.zero_add _).symm
  | cons q phases ih =>
      rw [List.cons_append, netSteps, netSteps, ih, Int.add_assoc, List.getLastD_cons]

/-- The way back takes all steps back. -/
theorem netSteps_back (p : Phase) (phases : List Phase) :
    netSteps (phases.getLastD p) (phases.reverse ++ [p]) = -netSteps p phases := by
  induction phases generalizing p with
  | nil => simp [netSteps, Encoder.stepBetween_self]
  | cons q phases ih =>
      have hlast : (phases.reverse ++ [q]).getLastD (phases.getLastD q) = q := by simp
      rw [List.getLastD_cons, List.reverse_cons, netSteps_append, ih, hlast]
      simp only [netSteps, Encoder.stepBetween_swap q p]
      omega

/-- There and back makes no steps. -/
theorem netSteps_there_and_back (p : Phase) (phases : List Phase) :
    netSteps p (phases ++ (phases.reverse ++ [p])) = 0 := by
  rw [netSteps_append, netSteps_back, Int.add_right_neg]

/-- Steps that change one level at a time lead to a place in the cycle. -/
theorem netSteps_modEq (hnear : List.IsChain Phase.Near (p :: phases)) :
    netSteps p phases ≡ (phases.getLastD p).position - p.position [ZMOD 4] := by
  induction phases generalizing p with
  | nil => simp [netSteps]
  | cons q phases ih =>
      obtain ⟨hstep, hrest⟩ := List.isChain_cons_cons.1 hnear
      rw [List.getLastD_cons]
      calc stepBetween p q + netSteps q phases
          ≡ (q.position - p.position) + ((phases.getLastD q).position - q.position) [ZMOD 4] :=
            (stepBetween_modEq hstep).add (ih hrest)
        _ = (phases.getLastD q).position - p.position := by omega

theorem mem_heights_self (height : Int) (p : Phase) (phases : List Phase) :
    height ∈ heights height p phases := by
  cases phases <;> exact List.mem_cons_self

theorem mem_heights_append_iff {h : Int} (phases phases' : List Phase) :
    h ∈ heights height p (phases ++ phases') ↔ h ∈ heights height p phases ∨
      h ∈ heights (height + netSteps p phases) (phases.getLastD p) phases' := by
  induction phases generalizing p height with
  | nil =>
      have hself := mem_heights_self height p phases'
      simp only [List.nil_append, heights, List.mem_singleton, netSteps, Int.add_zero,
        List.getLastD_nil]
      exact ⟨.inr, fun h => h.elim (fun heq => heq ▸ hself) id⟩
  | cons q phases ih =>
      rw [List.cons_append, heights, heights, List.mem_cons, List.mem_cons, ih, or_assoc, netSteps,
        Int.add_assoc, List.getLastD_cons]

/-- The way back has no other heights than the way there. -/
theorem heights_back_subset (height : Int) (p : Phase) (phases : List Phase) :
    heights height p (phases ++ (phases.reverse ++ [p])) ⊆ heights height p phases := by
  induction phases generalizing height p with
  | nil => simp [heights, Encoder.stepBetween_self]
  | cons q phases ih =>
      have hway : q :: phases ++ ((q :: phases).reverse ++ [p]) =
          q :: ((phases ++ (phases.reverse ++ [q])) ++ [p]) := by simp
      have hlast : (phases ++ (phases.reverse ++ [q])).getLastD q = q := by simp
      have hreturn : height + stepBetween p q + stepBetween q p = height := by
        rw [Encoder.stepBetween_swap p q]
        omega
      intro h hmem
      rw [hway, heights, List.mem_cons, mem_heights_append_iff, netSteps_there_and_back,
        hlast] at hmem
      rw [heights, List.mem_cons]
      obtain hstart | hround | hend := hmem
      · exact .inl hstart
      · exact .inr (ih _ _ hround)
      · rw [Int.add_zero, heights, heights, hreturn, List.mem_cons, List.mem_singleton] at hend
        obtain rfl | hstart := hend
        · exact .inr (mem_heights_self _ _ _)
        · exact .inl hstart

/-- So many phases stay between two heights that are no farther apart. -/
theorem exists_heights_bounds (height : Int) (p : Phase) (phases : List Phase) :
    ∃ low high : Int, high - low ≤ phases.length ∧
      ∀ h ∈ heights height p phases, low ≤ h ∧ h ≤ high := by
  induction phases generalizing height p with
  | nil => exact ⟨height, height, by simp, by simp [heights]⟩
  | cons q phases ih =>
      obtain ⟨low, high, hrange, hbounds⟩ := ih (height + stepBetween p q) q
      have hself := hbounds _ (mem_heights_self _ _ _)
      have hstep := stepBetween_cases p q
      refine ⟨min low height, max high height, ?_, fun h hmem => ?_⟩
      · rw [List.length_cons]
        omega
      · obtain rfl | hrest := List.mem_cons.1 hmem
        · omega
        · have := hbounds h hrest
          omega

/-! ## the counter -/

namespace Encoder

variable {e : Encoder} {calls : List EncoderCall}

/-- Answers a call. -/
def step (e : Encoder) : EncoderCall → Encoder
  | .see phase => e.see phase
  | .take => e.take.2

/-- Answers calls one after the other. -/
def after : List EncoderCall → Encoder → Encoder
  | [], e => e
  | c :: calls, e => after calls (e.step c)

/-- The steps that are taken, each time. -/
def taken : List EncoderCall → Encoder → List Int
  | [], _ => []
  | .see phase :: calls, e => taken calls (e.see phase)
  | .take :: calls, e => e.take.1 :: taken calls e.take.2

/-- All steps that are taken, and those that are counted then. -/
def total (calls : List EncoderCall) (e : Encoder) : Int :=
  (e.taken calls).sum + (e.after calls).steps

/-- No phase makes the counter overflow. -/
def Fits : List EncoderCall → Encoder → Prop
  | [], _ => True
  | .see phase :: calls, e =>
    wrap32 (e.steps + stepBetween e.phase phase) = e.steps + stepBetween e.phase phase ∧
      Fits calls (e.see phase)
  | .take :: calls, e => Fits calls e.take.2

theorem phase_after (calls : List EncoderCall) (e : Encoder) :
    (e.after calls).phase = (samples calls).getLastD e.phase := by
  induction calls generalizing e with
  | nil => rfl
  | cons c calls ih =>
      rw [after, ih]
      cases c with
      | take => rfl
      | see phase => exact (List.getLastD_cons ..).symm

theorem total_see (phase : Phase) (calls : List EncoderCall) (e : Encoder) :
    e.total (.see phase :: calls) = (e.see phase).total calls := rfl

theorem total_take (calls : List EncoderCall) (e : Encoder) :
    e.total (.take :: calls) = e.steps + e.take.2.total calls := by
  rw [total, taken, List.sum_cons, Int.add_assoc]
  rfl

theorem wrap32_modEq (i : Int) : wrap32 i ≡ i [ZMOD 2 ^ 32] := Int.bmod_emod

/-- Up to overflow, what is taken and counted is the steps along the way. -/
theorem total_modEq (calls : List EncoderCall) (e : Encoder) :
    e.total calls ≡ e.steps + netSteps e.phase (samples calls) [ZMOD 2 ^ 32] := by
  induction calls generalizing e with
  | nil => simp [total, taken, after, samples, netSteps]
  | cons c calls ih =>
      cases c with
      | take =>
          rw [total_take]
          calc e.steps + e.take.2.total calls
              ≡ e.steps + (0 + netSteps e.phase (samples calls)) [ZMOD 2 ^ 32] :=
                (ih e.take.2).add_left _
            _ = e.steps + netSteps e.phase (samples calls) := by rw [Int.zero_add]
      | see phase =>
          rw [total_see]
          calc (e.see phase).total calls
              ≡ wrap32 (e.steps + stepBetween e.phase phase) + netSteps phase (samples calls)
                [ZMOD 2 ^ 32] := ih (e.see phase)
            _ ≡ e.steps + stepBetween e.phase phase + netSteps phase (samples calls)
                [ZMOD 2 ^ 32] := (wrap32_modEq _).add_right _
            _ = e.steps + (stepBetween e.phase phase + netSteps phase (samples calls)) :=
                Int.add_assoc ..

/-- Without overflow it is exactly that. -/
theorem total_eq (hfits : e.Fits calls) :
    e.total calls = e.steps + netSteps e.phase (samples calls) := by
  induction calls generalizing e with
  | nil => simp [total, taken, after, samples, netSteps]
  | cons c calls ih =>
      cases c with
      | take =>
          rw [total_take, ih hfits]
          exact congrArg (e.steps + ·) (Int.zero_add _)
      | see phase =>
          obtain ⟨hstep, hrest⟩ := hfits
          rw [total_see, ih hrest]
          show wrap32 (e.steps + stepBetween e.phase phase) + netSteps phase (samples calls) = _
          rw [hstep, Int.add_assoc]
          rfl

/-- Heights that are not 2^31 apart do not make the counter overflow, whenever the steps are
taken. -/
theorem fits_of_heights {low high counted : Int} (hrange : high - low < 2 ^ 31)
    (hheights : ∀ h ∈ heights height e.phase (samples calls), low ≤ h ∧ h ≤ high)
    (hcounted : low ≤ counted ∧ counted ≤ high) (hsteps : e.steps = height - counted) :
    e.Fits calls := by
  induction calls generalizing e height counted with
  | nil => trivial
  | cons c calls ih =>
      cases c with
      | take =>
          have hself := hheights height (mem_heights_self _ _ _)
          exact ih (e := e.take.2) hheights hself (Int.sub_self _).symm
      | see phase =>
          have hrest : ∀ h ∈ heights (height + stepBetween e.phase phase) phase (samples calls),
              low ≤ h ∧ h ≤ high := fun h hmem => hheights h (List.mem_cons_of_mem _ hmem)
          have hnext := hrest _ (mem_heights_self _ _ _)
          have hwrap : wrap32 (e.steps + stepBetween e.phase phase) =
              e.steps + stepBetween e.phase phase := by
            rw [wrap32]
            apply Int.bmod_eq_of_le <;> rw [show UInt32.size = 4294967296 from rfl] <;> omega
          refine ⟨hwrap, ih (e := e.see phase) hrest hcounted ?_⟩
          show wrap32 (e.steps + stepBetween e.phase phase) = _
          rw [hwrap, hsteps]
          omega

/-- A way of fewer than 2^31 phases and back does not make the counter overflow, whenever the steps
are taken. -/
theorem fits_of_length_lt {start : Phase} {back : List EncoderCall}
    (hlength : (samples calls).length < 2 ^ 31)
    (hback : samples back = (samples calls).reverse ++ [start]) :
    (⟨start, 0⟩ : Encoder).Fits (calls ++ back) := by
  obtain ⟨low, high, hrange, hbounds⟩ := exists_heights_bounds 0 start (samples calls)
  have hself := hbounds 0 (mem_heights_self _ _ _)
  have hheights : ∀ h ∈ heights 0 start (samples (calls ++ back)), low ≤ h ∧ h ≤ high := by
    rw [samples_append, hback]
    exact fun h hmem => hbounds h (heights_back_subset _ _ _ hmem)
  exact fits_of_heights (by omega) hheights hself rfl

/-- From any phase, along phases that change one level at a time: whenever the steps are taken, all
that is taken and counted leads from place to place in the cycle. And along any phases, short enough
for the counter, and the same way back, it comes to nothing. -/
theorem counts_way {start : Phase} (hnear : List.IsChain Phase.Near (start :: samples calls)) :
    let e : Encoder := ⟨start, 0⟩
    e.total calls % 4 = ((e.after calls).phase.position - start.position) % 4 ∧
    ∀ back, samples back = (samples calls).reverse ++ [start] →
      (samples calls).length < 2 ^ 31 ∨ e.Fits (calls ++ back) → e.total (calls ++ back) = 0 := by
  intro e
  constructor
  · have hfour : e.total calls ≡ e.steps + netSteps start (samples calls) [ZMOD 4] :=
      (total_modEq calls e).of_dvd (by decide)
    rw [phase_after]
    exact (hfour.trans (by rw [Int.zero_add])).trans (netSteps_modEq hnear)
  · intro back hback hshort
    have hfits : e.Fits (calls ++ back) :=
      hshort.elim (fun hlength => fits_of_length_lt hlength hback) id
    rw [total_eq hfits, samples_append, hback]
    exact (Int.zero_add _).trans (netSteps_there_and_back start (samples calls))

/-- Three steps with a jitter among them, which are taken once on the way. -/
def jitter : List EncoderCall :=
  [.see ⟨false, false⟩, .see ⟨true, false⟩, .see ⟨false, false⟩, .see ⟨false, false⟩, .take,
    .see ⟨false, true⟩, .see ⟨true, true⟩]

/-- The same way back. The steps are taken before the last one. -/
def jitterBack : List EncoderCall :=
  (samples jitter).reverse.map .see ++ [.take, .see ⟨true, false⟩]

theorem counts_way_jitter :
    List.IsChain Phase.Near (⟨true, false⟩ :: samples jitter) ∧ (samples jitter).length < 2 ^ 31 ∧
    (⟨⟨true, false⟩, 0⟩ : Encoder).total jitter % 4 = (2 - 3) % 4 ∧
    (⟨⟨true, false⟩, 0⟩ : Encoder).total (jitter ++ jitterBack) = 0 := by
  have hnear : List.IsChain Phase.Near (⟨true, false⟩ :: samples jitter) := by decide
  have hlength : (samples jitter).length < 2 ^ 31 := by decide
  obtain ⟨hplace, hback⟩ := counts_way hnear
  exact ⟨hnear, hlength, hplace, hback jitterBack rfl (.inl hlength)⟩

end Encoder

end MeshLight
