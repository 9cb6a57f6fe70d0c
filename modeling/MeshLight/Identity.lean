import MeshLight.Mesh

/-!
# MeshLight.Identity

The addresses and versions that tell a node from others, and the service record it advertises under
a name derived from them.
-/

namespace MeshLight

structure Identity where
  eui64 : HardwareAddress
  extended : HardwareAddress
  rloc16 : UInt16
  meshLocal : Address
  /-- The global address, if the partition has a prefix. -/
  global : Option Address
  stackVersion : String
  threadVersion : UInt16
  deriving DecidableEq

/-- The address to advertise: the global one if there is one. -/
def Identity.advertised (id : Identity) : Address := id.global.getD id.meshLocal

/-- The EUI-64 of the simulated radio. -/
def simulatedEui64 : HardwareAddress := ⟨[0x74, 0x4d, 0xbd, 0xff, 0xfe, 0x60, 0x2a, 0x11], rfl⟩

/-! ## service record -/

/-- The most bytes an instance name may have. -/
def instanceNameCapacity : Nat := 48

/-- The label cut to capacity, followed by the extended address if all of its digits still fit. -/
def instanceName (label : String) (extended : HardwareAddress) : String :=
  appendFitting instanceNameCapacity
    (String.ofList (fitting instanceNameCapacity label.toList)) extended.text

/-- What the registrar is told about the node's service. -/
structure ServiceRecord where
  name : String
  type : String
  port : UInt16
  txt : List String
  deriving DecidableEq

/-- The most bytes a TXT entry may have. -/
def txtCapacity : Nat := 40

/-- A TXT entry, without its value if that does not fit. -/
def txtEntry (key value : String) : String := appendFitting txtCapacity (key ++ "=") value

def ServiceRecord.ofNode (id : Identity) (label : String) (port : UInt16) (version : String) :
    ServiceRecord where
  name := instanceName label id.extended
  type := "_coap._udp"
  port := port
  txt := [txtEntry "eui64" id.eui64.text, txtEntry "sw" version]

end MeshLight
