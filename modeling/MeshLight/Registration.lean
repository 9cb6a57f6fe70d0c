import MeshLight.Fault

/-!
# MeshLight.Registration

Progress of registering the node's service: begun at most once while the node stays connected, and
from there to success or failure at most once.
-/

namespace MeshLight

inductive RegistrationState where
  | notStarted
  | inProgress
  | registered
  | failed
  deriving DecidableEq

def RegistrationState.name : RegistrationState → String
  | notStarted => "NotStarted"
  | inProgress => "InProgress"
  | registered => "Registered"
  | failed => "Failed"

/-- What the registrar answered. -/
inductive RegistrationOutcome where
  | registered
  | removed
  | failed (fault : RegistrationFault)
  deriving DecidableEq

/-- What an answer changed. -/
inductive RegistrationAdvance where
  | firstSuccess
  | unchanged
  | failed
  deriving DecidableEq

/-- The state, and whether this connection has seen a success. -/
structure Registration where
  state : RegistrationState
  succeeded : Bool
  deriving DecidableEq

namespace Registration

def initial : Registration := ⟨.notStarted, false⟩

def canBegin (r : Registration) : Bool := r.state = .notStarted

def begin (r : Registration) : Registration := { r with state := .inProgress }

def fail (r : Registration) : Registration := { r with state := .failed }

/-- Takes the registrar's answer. Only an answer to a registration in progress counts. -/
def apply (outcome : RegistrationOutcome) (r : Registration) :
    RegistrationAdvance × Registration :=
  match outcome with
  | .registered =>
    if r.state = .inProgress ∧ r.succeeded = false then (.firstSuccess, ⟨.registered, true⟩)
    else (.unchanged, r)
  | .removed => (.unchanged, r)
  | .failed _ => if r.state = .inProgress then (.failed, r.fail) else (.unchanged, r)

theorem apply_of_state_ne {outcome : RegistrationOutcome} {r : Registration}
    (h : r.state ≠ .inProgress) : r.apply outcome = (.unchanged, r) := by
  cases outcome <;> simp [apply, h]

end Registration

end MeshLight
