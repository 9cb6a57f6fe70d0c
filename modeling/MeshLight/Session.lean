import MeshLight.Registration
import MeshLight.Report
import MeshLight.Work

/-!
# MeshLight.Session

What the node knows about its connection, and the machine that follows it. Entering the connected
state asks for the work that a new connection needs; leaving it forgets all that was learned.
-/

namespace MeshLight

inductive SessionState where
  | disconnected
  | connecting
  | connected
  deriving DecidableEq

def SessionState.name : SessionState → String
  | disconnected => "Disconnected"
  | connecting => "Connecting"
  | connected => "Connected"

/-- The facts that drive the machine, what was learned in this connection, settings, and waiting
work. -/
structure Session where
  attached : Bool
  joinActive : Bool
  peer : Option Address
  registration : Registration
  interval : ReportInterval
  testing : Bool
  work : WorkQueue
  deriving DecidableEq

namespace Session

def initial (interval : ReportInterval) : Session where
  attached := false
  joinActive := false
  peer := none
  registration := .initial
  interval := interval
  testing := false
  work := .empty

def submit (w : Work) (s : Session) : Session := { s with work := (s.work.submit w).2 }

/-- Forgets what was learned in this connection. -/
def endEpisode (s : Session) : Session :=
  { s with peer := none, registration := .initial, testing := false }

end Session

/-! ## states -/

namespace SessionState

/-- The state that the facts call for, if it is another one. -/
def next? (s : Session) : SessionState → Option SessionState
  | disconnected =>
    if s.attached then some connected else if s.joinActive then some connecting else none
  | connecting =>
    if s.attached then some connected else if s.joinActive then none else some disconnected
  | connected => if s.attached then none else some disconnected

/-- The state that fits the facts. -/
def calledFor (s : Session) : SessionState :=
  if s.attached then connected else if s.joinActive then connecting else disconnected

/-- A state is stayed in exactly if it fits the facts. -/
theorem next?_eq_none_iff {s : Session} {state : SessionState} :
    state.next? s = none ↔ state = calledFor s := by
  cases state <;> cases ha : s.attached <;> cases hj : s.joinActive <;>
    simp [next?, calledFor, ha, hj]

/-- What entering a state asks for. -/
def enter (s : Session) : SessionState → Session
  | connected =>
    let s := (s.submit .indicateConnected).submit .sendProvisioning
    if s.registration.canBegin then s.submit .beginRegistration else s
  | disconnected | connecting => s

/-- What leaving a state undoes and asks for. -/
def leave (s : Session) : SessionState → Session
  | connected => (s.endEpisode.submit .indicateDisconnected).submit .releasePollBoost
  | disconnected | connecting => s

end SessionState

/-! ## machine -/

/-- The current state, and the number of transitions so far. -/
structure Machine where
  state : SessionState
  transitions : UInt32
  deriving DecidableEq

namespace Machine

def initial (state : SessionState) : Machine := ⟨state, 0⟩

/-- Enters the state that the machine begins in. -/
def start (m : Machine) (s : Session) : Session := m.state.enter s

/-- Leaves the current state for another one. -/
def moveTo (next : SessionState) (m : Machine) (s : Session) : Machine × Session :=
  (⟨next, m.transitions + 1⟩, next.enter (m.state.leave s))

/-- Follows the facts from state to state, at most `hops` times. -/
def settle : (hops : Nat) → Machine → Session → Machine × Session
  | 0, m, s => (m, s)
  | hops + 1, m, s =>
    match m.state.next? s with
    | none => (m, s)
    | some next =>
      let (m, s) := m.moveTo next s
      settle hops m s

/-- Follows the facts until the state fits them, at most once through each state. -/
def step (m : Machine) (s : Session) : Machine × Session := settle 3 m s

/-! ## settling -/

@[simp] theorem attached_enter (next : SessionState) (s : Session) :
    (next.enter s).attached = s.attached := by
  cases next <;> cases h : s.registration.canBegin <;>
    simp [SessionState.enter, Session.submit, h]

@[simp] theorem joinActive_enter (next : SessionState) (s : Session) :
    (next.enter s).joinActive = s.joinActive := by
  cases next <;> cases h : s.registration.canBegin <;>
    simp [SessionState.enter, Session.submit, h]

@[simp] theorem attached_leave (old : SessionState) (s : Session) :
    (old.leave s).attached = s.attached := by
  cases old <;> rfl

@[simp] theorem joinActive_leave (old : SessionState) (s : Session) :
    (old.leave s).joinActive = s.joinActive := by
  cases old <;> rfl

/-- The machine rests in the state that the facts call for. -/
theorem state_step (m : Machine) (s : Session) :
    (m.step s).1.state = SessionState.calledFor s := by
  unfold step settle
  rcases m with ⟨state, transitions⟩
  cases state <;> cases ha : s.attached <;> cases hj : s.joinActive <;>
    simp [SessionState.next?, SessionState.calledFor, settle, moveTo, ha, hj]

end Machine

end MeshLight
