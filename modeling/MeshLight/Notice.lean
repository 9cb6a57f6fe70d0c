import MeshLight.Session

/-!
# MeshLight.Notice

What the node says about itself while it runs, and the lines of the journal that record it.
-/

namespace MeshLight

inductive Notice where
  | started (state : SessionState)
  | sessionChanged (before after : SessionState)
  | peerDiscovered (address : Address)
  | statusReported (peer : Address)
  | triggerSent (kind : TriggerKind) (broadcast : Bool)
  | commandHandled (command : String) (code : Int)
  | registrationChanged (state : RegistrationState)
  | testingChanged (on : Bool)
  | joinGaveUp (attempts : Nat)
  deriving DecidableEq

/-! ## journal -/

inductive Level where
  | info
  | warn
  deriving DecidableEq

structure JournalLine where
  level : Level
  text : String
  deriving DecidableEq

namespace Notice

/-- A notice is a warning if it tells of a rejected command or a join given up. -/
def level : Notice → Level
  | commandHandled _ code => if code = 0 then .info else .warn
  | joinGaveUp _ => .warn
  | _ => .info

def text : Notice → String
  | started state => "START | initial_state=" ++ state.name
  | sessionChanged before after => "SESSION | " ++ before.name ++ " -> " ++ after.name
  | peerDiscovered address => "PEER | addr=" ++ address.text
  | statusReported peer => "STATUS | sent to=" ++ peer.text
  | triggerSent kind broadcast =>
    "TRIGGER | kind=" ++ kind.name ++ " | " ++ (if broadcast then "broadcast" else "unicast")
  | commandHandled command code => "CMD | " ++ command ++ " | err_code=" ++ decimalText code
  | registrationChanged state => "SRP | state=" ++ state.name
  | testingChanged on => "TESTING | " ++ (if on then "on" else "off")
  | joinGaveUp attempts => "JOIN | gave up after " ++ decimalText attempts ++ " attempts"

end Notice

/-- The lines written so far and how many notices were recorded. -/
structure Journal where
  lines : List JournalLine
  recorded : UInt32
  deriving DecidableEq

namespace Journal

def empty : Journal := ⟨[], 0⟩

/-- Records a notice as one line. -/
def record (n : Notice) (j : Journal) : Journal :=
  ⟨j.lines ++ [⟨n.level, n.text⟩], j.recorded + 1⟩

end Journal

end MeshLight
