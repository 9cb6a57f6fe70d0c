/-!
# MeshLight.Join

Joining a network. A join, once begun, is tried again whenever an attempt ends without success, as
long as neither its deadline has passed nor its attempts are used up.
-/

namespace MeshLight

/-- A join in progress: attempts that have ended, and when it began and must end. -/
structure JoinAttempt where
  count : Nat
  startedAt : Nat
  deadline : Nat
  deriving DecidableEq

/-- An idle node remembers the attempts of its last join. -/
inductive JoinState where
  | idle (attempts : Nat)
  | joining (attempt : JoinAttempt)
  | joined
  deriving DecidableEq

inductive JoinRefusal where
  | alreadyJoined
  | alreadyJoining
  deriving DecidableEq

/-- What follows an attempt that ended without success. -/
inductive JoinDecision where
  | retry (attempt : Nat)
  | giveUp (attempts : Nat)
  | ignore
  deriving DecidableEq

/-- The state of joining, with the limits of time in milliseconds and of attempts. -/
structure Join where
  state : JoinState
  timeout : Nat
  maxAttempts : Nat
  deriving DecidableEq

namespace Join

def initial (timeoutSecs maxAttempts : Nat) : Join := ⟨.idle 0, timeoutSecs * 1000, maxAttempts⟩

def isJoining (j : Join) : Bool :=
  match j.state with
  | .joining _ => true
  | _ => false

/-- Begins a join, unless one is in progress or has succeeded. -/
def begin (now : Nat) (j : Join) : Except JoinRefusal Join :=
  match j.state with
  | .joined => .error .alreadyJoined
  | .joining _ => .error .alreadyJoining
  | .idle _ => .ok { j with state := .joining ⟨0, now, now + j.timeout⟩ }

/-- Ends a join in progress. -/
def abandon (j : Join) : Join :=
  match j.state with
  | .joining attempt => { j with state := .idle attempt.count }
  | _ => j

theorem isJoining_begin {now : Nat} {j j' : Join} (h : j.begin now = .ok j') :
    j.isJoining = false ∧ j'.isJoining = true := by
  unfold begin at h
  split at h <;> simp_all [isJoining]
  subst h
  rfl

theorem isJoining_abandon (j : Join) : j.abandon.isJoining = false := by
  unfold abandon
  split
  · rfl
  · next h =>
    unfold isJoining
    split
    · next a ha => exact absurd ha (h a)
    · rfl

/-- The largest number of attempts that is counted. -/
def countLimit : Nat := UInt32.size - 1

/-- An attempt ended without success. -/
def attemptEnded (now : Nat) (j : Join) : JoinDecision × Join :=
  match j.state with
  | .joining attempt =>
    let count := min (attempt.count + 1) countLimit
    if attempt.deadline < now ∨ j.maxAttempts ≤ count then
      (.giveUp count, { j with state := .idle count })
    else (.retry count, { j with state := .joining { attempt with count := count } })
  | _ => (.ignore, j)

/-- The node is on the network. -/
def succeed (j : Join) : Join := { j with state := .joined }

/-- The node has been taken off the network for good. -/
def reset (j : Join) : Join := { j with state := .idle 0 }

end Join

end MeshLight
