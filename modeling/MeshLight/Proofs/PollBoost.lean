import MeshLight.Proofs.Engine.Work
import MeshLight.Proofs.Exchange

/-!
# MeshLight.Proofs.PollBoost

Boosts that are taken and given back in any order, with a stack that may refuse every new poll
period (`Cycles`). The period that a free boost stands for is the one in force, that of a held one
the one it saved; and this changes only when a restore is refused, since then the saved period is
forgotten while the faster one stays in force (`Cycles.standing_eq`). So the period from before the
first boost comes back exactly if it was in force when a restore was last refused
(`Cycles.period_eq_iff`).
-/

namespace MeshLight.PollBoost

open Prog

/-! ## steps -/

/-- What may be asked of a boost. -/
inductive Op where
  | engage (boostedMs : UInt32)
  | restore
  deriving DecidableEq

def Op.prog (b : PollBoost) : Op → Prog PollBoost
  | engage boostedMs => b.engage boostedMs
  | restore => b.restore

/-- The stack tells the poll period that it accepted last. It is `p` before the log and `p'` after
it. -/
def Tells : List Exchange → UInt32 → UInt32 → Prop
  | [], p, p' => p' = p
  | ⟨.mesh .pollPeriod, current⟩ :: rest, p, p' => current = p ∧ Tells rest p p'
  | ⟨.mesh (.setPollPeriod ms), .ok ()⟩ :: rest, _, p' => Tells rest ms p'
  | _ :: rest, p, p' => Tells rest p p'

/-- What was asked, the calls that were made for it, and the poll period after them. -/
structure Step where
  op : Op
  log : List Exchange
  period : UInt32

/-- Whether a restore was refused. -/
def Step.isLost (s : Step) : Bool := decide (s.op = .restore) && s.log.any Exchange.isRefused

/-- Steps one after the other, from a boost that is free and the poll period `before`. -/
inductive Cycles (before : UInt32) : List Step → PollBoost → UInt32 → Prop where
  | start : Cycles before [] .none before
  | step {steps : List Step} {b b' : PollBoost} {p p' : UInt32} {op : Op}
      {log : List Exchange} (hcycles : Cycles before steps b p)
      (hpath : Path (op.prog b) log b') (htells : Tells log p p') :
      Cycles before (steps ++ [⟨op, log, p'⟩]) b' p'

/-! ## the period that is stood for -/

/-- The period that comes back when the boost is given back. -/
def standing (b : PollBoost) (p : UInt32) : UInt32 := b.saved.getD p

/-- The last of the restores that were refused. -/
def lastLost? (steps : List Step) : Option Step := (steps.filter Step.isLost).getLast?

section

variable {b b' : PollBoost} {p p' boosted : UInt32} {log : List Exchange}

theorem standing_of_free (hfree : b.isHeld = false) : b.standing p = p := by
  rw [isHeld, Option.isSome_eq_false_iff, Option.isNone_iff_eq_none] at hfree
  rw [standing, hfree, Option.getD_none]

/-- Engaging saves the period that it replaces, if the new one is accepted. -/
theorem standing_of_engage (hengage : Path (b.engage boosted) log b') (htells : Tells log p p') :
    b'.standing p' = b.standing p := by
  obtain ⟨mode, ⟨rfl, -, rfl⟩ | ⟨current, answer, hneeded, rfl, hanswer⟩⟩ := path_engage hengage
  · rw [show p' = p from htells]
  · have hfree : b.isHeld = false := (Bool.or_eq_false_iff.1 hneeded).2
    obtain ⟨rfl, rfl⟩ | ⟨⟨fault, rfl⟩, rfl⟩ := hanswer
    · obtain ⟨rfl, rfl⟩ : current = p ∧ p' = boosted := htells
      rw [standing_of_free hfree]
      rfl
    · obtain ⟨-, rfl⟩ : current = p ∧ p' = p := htells
      rfl

/-- Restoring sets the saved period, if this is accepted. Otherwise the one in force stays. -/
theorem standing_of_restore (hrestore : Path b.restore log b') (htells : Tells log p p') :
    b'.standing p' = if log.any Exchange.isRefused then p' else b.standing p := by
  obtain ⟨rfl, ⟨rfl, rfl⟩ | ⟨saved, answer, hsaved, rfl⟩⟩ := path_restore hrestore
  · exact htells
  · have hnone : PollBoost.none.standing p' = p' := rfl
    cases answer with
    | ok u =>
        have hset : p' = saved := htells
        rw [hnone, standing, hsaved, hset]
        rfl
    | error fault => exact hnone

end

/-! ## cycles -/

namespace Cycles

variable {before p : UInt32} {steps : List Step} {b : PollBoost}

/-- What the boost stands for was in force when a restore was last refused, or before the first
step. -/
theorem standing_eq (h : Cycles before steps b p) :
    b.standing p = ((lastLost? steps).map Step.period).getD before := by
  induction h with
  | start => rfl
  | @step steps b b' p p' op log _ hpath htells ih =>
      have hlast : lastLost? (steps ++ [⟨op, log, p'⟩]) =
          if (Step.mk op log p').isLost then some ⟨op, log, p'⟩ else lastLost? steps := by
        rw [lastLost?, List.filter_append, List.getLast?_append]
        cases hlost : (Step.mk op log p').isLost <;> simp [hlost, lastLost?]
      cases op with
      | engage boosted =>
          rw [standing_of_engage hpath htells, ih, hlast]
          rfl
      | restore =>
          rw [standing_of_restore hpath htells, ih, hlast]
          have hlost : (Step.mk .restore log p').isLost = log.any Exchange.isRefused := rfl
          rw [hlost]
          cases log.any Exchange.isRefused <;> rfl

/-- While no boost is held, the poll period is the one from before the first boost exactly if it was
in force when a restore was last refused. -/
theorem period_eq_iff (h : Cycles before steps b p) (hfree : b.isHeld = false) :
    p = before ↔ ∀ lost ∈ lastLost? steps, lost.period = before := by
  have hstanding := h.standing_eq
  rw [standing_of_free hfree] at hstanding
  rw [hstanding]
  cases lastLost? steps <;> simp

/-! ### two short courses -/

/-- A boost of 100 ms is taken, with the answer to the new period. -/
def engaging (answer : Except NetworkFault Unit) (p : UInt32) : Step where
  op := .engage 100
  log := [⟨.mesh .linkMode, LinkMode.minimal⟩, ⟨.mesh .pollPeriod, (3000 : UInt32)⟩,
    ⟨.mesh (.setPollPeriod 100), answer⟩]
  period := p

/-- It is given back, with the answer to the period of 3000 ms. -/
def restoring (answer : Except NetworkFault Unit) (p : UInt32) : Step where
  op := .restore
  log := [⟨.mesh (.setPollPeriod 3000), answer⟩]
  period := p

theorem engaged {steps : List Step} (h : Cycles 3000 steps .none 3000) :
    Cycles 3000 (steps ++ [engaging (.ok ()) 100]) ⟨some 3000⟩ 100 :=
  .step h (.call (.mesh .linkMode) _ LinkMode.minimal <|
    .call (.mesh .pollPeriod) _ (3000 : UInt32) <|
    .call (.mesh (.setPollPeriod 100)) _ (Except.ok ()) (.done _)) ⟨rfl, rfl⟩

theorem unengaged {steps : List Step} (h : Cycles 3000 steps .none 3000) :
    Cycles 3000 (steps ++ [engaging (.error .failed) 3000]) .none 3000 :=
  .step h (.call (.mesh .linkMode) _ LinkMode.minimal <|
    .call (.mesh .pollPeriod) _ (3000 : UInt32) <|
    .call (.mesh (.setPollPeriod 100)) _ (Except.error NetworkFault.failed) (.done _)) ⟨rfl, rfl⟩

theorem restored {steps : List Step} {answer : Except NetworkFault Unit} {p' : UInt32}
    (h : Cycles 3000 steps ⟨some 3000⟩ 100) (htells : Tells (restoring answer p').log 100 p') :
    Cycles 3000 (steps ++ [restoring answer p']) .none p' :=
  .step h (.call (.mesh (.setPollPeriod 3000)) _ answer (.done _)) htells

/-- A boost that is refused, taken, and given back. -/
theorem period_eq_iff_restored :
    Cycles 3000 [engaging (.error .failed) 3000, engaging (.ok ()) 100, restoring (.ok ()) 3000]
      .none 3000 ∧ PollBoost.none.isHeld = false ∧
    ((3000 : UInt32) = 3000 ↔ ∀ lost ∈ lastLost? [engaging (.error .failed) 3000,
      engaging (.ok ()) 100, restoring (.ok ()) 3000], lost.period = 3000) := by
  have h : Cycles 3000 [engaging (.error .failed) 3000, engaging (.ok ()) 100,
      restoring (.ok ()) 3000] .none 3000 := restored (engaged (unengaged .start)) rfl
  exact ⟨h, rfl, period_eq_iff h rfl⟩

/-- One that is taken and not given back, since the stack refuses the old period. -/
theorem faster_period_after_refusal :
    Cycles 3000 [engaging (.ok ()) 100, restoring (.error .failed) 100] .none 100 ∧
    PollBoost.none.isHeld = false ∧ (100 : UInt32) ≠ 3000 :=
  ⟨restored (engaged .start) rfl, rfl, by decide⟩

end Cycles

end MeshLight.PollBoost
