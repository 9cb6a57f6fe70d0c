import MeshLight.Address

/-!
# MeshLight.Mesh

The node's standing on the mesh: its role, the progress of a join, its link mode, and the messages
it exchanges with the coordinator.
-/

namespace MeshLight

/-! ## standing -/

inductive Role where
  | disabled
  | detached
  | child
  | router
  | leader
  deriving DecidableEq

/-- Whether a node in this role belongs to a partition. -/
def Role.isAttached : Role → Bool
  | .child | .router | .leader => true
  | .disabled | .detached => false

/-- Progress of one commissioning attempt. `idle` ends it without success. -/
inductive JoinerState where
  | idle
  | discover
  | connect
  | connected
  | entrust
  | joined
  deriving DecidableEq

/-! ## link mode -/

structure LinkMode where
  receiverOnWhenIdle : Bool
  fullDevice : Bool
  fullNetworkData : Bool
  deriving DecidableEq

namespace LinkMode

/-- A sleepy end device with stable network data only. -/
def minimal : LinkMode := ⟨false, false, false⟩

/-- Sets the flag that a letter names. -/
def withFlag? (mode : LinkMode) : Char → Option LinkMode
  | 'r' => some { mode with receiverOnWhenIdle := true }
  | 'd' => some { mode with fullDevice := true }
  | 'n' => some { mode with fullNetworkData := true }
  | _ => none

/-- The mode whose flags are named by letters, in any order and number; no letter names the minimal
mode. -/
def ofFlags? (flags : String) : Option LinkMode := flags.toList.foldlM withFlag? minimal

/-- The letters of the flags that are set, a hyphen if none is. -/
def text (mode : LinkMode) : String :=
  if mode = minimal then "-"
  else
    (if mode.receiverOnWhenIdle then "r" else "") ++ (if mode.fullDevice then "d" else "") ++
      (if mode.fullNetworkData then "n" else "")

end LinkMode

/-! ## messages -/

inductive Method where
  | get
  | put
  | post
  deriving DecidableEq

inductive Destination where
  | multicast (address : Address)
  | unicast (address : Address)
  deriving DecidableEq

def Destination.address : Destination → Address
  | .multicast a | .unicast a => a

/-- The mesh-local group of all nodes, `ff03::1`. -/
def allNodes : Address := ⟨[0xff, 0x03, 0, 0, 0, 0, 0, 0, 0, 0, 0, 0, 0, 0, 0, 1], rfl⟩

/-- Which request a reply belongs to. -/
inductive ReplyKind where
  | provisioning
  | status
  | trigger
  deriving DecidableEq

namespace ReplyKind

/-- The number that travels with a request so that its reply can be recognised. -/
def context : ReplyKind → Nat
  | provisioning => 1
  | status => 2
  | trigger => 3

def ofContext? : Nat → Option ReplyKind
  | 1 => some provisioning
  | 2 => some status
  | 3 => some trigger
  | _ => none

theorem ofContext?_context (k : ReplyKind) : ofContext? k.context = some k := by
  cases k <;> rfl

end ReplyKind

/-- A message to the coordinator or to all nodes. Without a reply kind no reply is expected. -/
structure Request where
  method : Method
  destination : Destination
  resource : String
  payload : Bytes
  reply : Option ReplyKind
  deriving DecidableEq

/-- A request to this node, with the token that its response has to carry. -/
structure InboundRequest where
  token : UInt32
  method : Method
  payload : Bytes
  deriving DecidableEq

end MeshLight
