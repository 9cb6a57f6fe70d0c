import MeshLight.Fault
import MeshLight.Json.Printer
import MeshLight.Json.Record
import MeshLight.Mesh

/-!
# MeshLight.Trigger

Notifications that something was sensed or turned: what they say and where they go. In testing mode
they go to all nodes, otherwise to the peer.
-/

namespace MeshLight

open MeshLight.Json

inductive TriggerKind where
  | infraredSensor
  | encoderButton
  | encoderRotation
  deriving DecidableEq

namespace TriggerKind

def name : TriggerKind → String
  | infraredSensor => "InfraredSensor"
  | encoderButton => "QdecButton"
  | encoderRotation => "QdecRotate"

/-- The name of a kind in a notification. -/
def wireName : TriggerKind → String
  | infraredSensor => "infrared_sensor"
  | encoderButton => "qdec_button"
  | encoderRotation => "qdec_rotate"

def ofWireName? (name : String) : Option TriggerKind :=
  if name = "infrared_sensor" then some infraredSensor
  else if name = "qdec_button" then some encoderButton
  else if name = "qdec_rotate" then some encoderRotation
  else none

theorem ofWireName?_wireName (k : TriggerKind) : ofWireName? k.wireName = some k := by
  cases k <;> rfl

end TriggerKind

/-- What happened to which object. Only a rotation has a value. -/
structure TriggerEvent where
  kind : TriggerKind
  object : String
  value : Option Binary64
  deriving DecidableEq

namespace TriggerEvent

def infrared (object : String) : TriggerEvent := ⟨.infraredSensor, object, none⟩

def encoderButton (object : String) : TriggerEvent := ⟨.encoderButton, object, none⟩

def encoderRotation (object : String) (steps : Int) : TriggerEvent :=
  ⟨.encoderRotation, object, some (Binary64.ofInt steps)⟩

/-! ## text -/

/-- The fields under their names, in declared order, without a value that is absent. -/
def members (e : TriggerEvent) : Members :=
  [("trigger_type", .string e.kind.wireName), ("obj", .string e.object)] ++
    match e.value with
    | some x => [("value", .float x)]
    | none => []

def text (e : TriggerEvent) : String := (Value.object e.members).text

/-- The names of the fields, in declared order. -/
def fieldNames : List String := ["trigger_type", "obj", "value"]

/-- The value that a tree gives, `null` for none. -/
def optionalValue? (t : Tree) : Option (Option Binary64) := do
  let v ← t.value?
  if v.isNull then some none else (v.binary64?).map some

/-- The notification that a tree spells. A value that is not given is absent. -/
def ofTree? (t : Tree) : Option TriggerEvent := do
  let fields ← t.fields? fieldNames
  let kind ← TriggerKind.ofWireName? (← (← fields.tree? "trigger_type").choice?)
  let object ← (← fields.value? "obj").string?
  match fields.tree? "value" with
  | none => some ⟨kind, object, none⟩
  | some t => (optionalValue? t).map fun value => ⟨kind, object, value⟩

/-- The notification that a text spells. -/
def ofText? (s : String) : Option TriggerEvent := do ofTree? (← Tree.ofText? s)

/-- The body of a notification from the node with the given hardware address. -/
def notification (eui64 : String) (e : TriggerEvent) : String :=
  (Value.object [("eui64", .string eui64), ("event", .object e.members)]).text

end TriggerEvent

/-! ## route -/

/-- Where a notification goes, and whether the presence light pulses once it is sent. -/
structure Route where
  destination : Destination
  resource : String
  pulse : Bool
  deriving DecidableEq

/-- The route of notifications, which outside testing mode needs a peer. -/
def Route.choose (testing : Bool) (peer : Option Address) : Except ProvisioningFault Route :=
  if testing then .ok ⟨.multicast allNodes, "testing_light", false⟩
  else
    match peer with
    | some address => .ok ⟨.unicast address, "trigger", true⟩
    | none => .error .peerUnknown

end MeshLight
