import MeshLight.Prog

/-!
# MeshLight.PollBoost

A sleepy node hears nothing between polls, so while it waits for a provisioning reply it polls more
often and then goes back to the period it had. A node whose receiver is always on needs no boost.
-/

namespace MeshLight

/-- The poll period to go back to, while a boost is held. -/
structure PollBoost where
  saved : Option UInt32
  deriving DecidableEq

namespace PollBoost

def none : PollBoost := ⟨.none⟩

def isHeld (b : PollBoost) : Bool := b.saved.isSome

/-- Polls with the given period from now on, unless the receiver is always on or a boost is held
already. -/
def engage (boostedMs : UInt32) (b : PollBoost) : Prog PollBoost := do
  let mode ← Prog.mesh .linkMode
  if mode.receiverOnWhenIdle || b.isHeld then return b
  let current ← Prog.mesh .pollPeriod
  match ← Prog.mesh (.setPollPeriod boostedMs) with
  | .ok _ => return ⟨some current⟩
  | .error _ => return b

/-- Asks for the saved period and forgets it. -/
def restore (b : PollBoost) : Prog PollBoost := do
  match b.saved with
  | .none => return b
  | some saved =>
    let _ ← Prog.mesh (.setPollPeriod saved)
    return none

end PollBoost

end MeshLight
