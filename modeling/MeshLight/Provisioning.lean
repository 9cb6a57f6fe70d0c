import MeshLight.Fault
import MeshLight.Mesh

/-!
# MeshLight.Provisioning

Learning the coordinator's address: a question to all nodes, and an answer that is accepted only if
it is exactly one address.
-/

namespace MeshLight.Provisioning

/-- The question. -/
def request : Request := ⟨.get, .multicast allNodes, "provisioning", [], some .provisioning⟩

/-- The address that an answer gives. -/
def parseReply (payload : Bytes) : Except ProvisioningFault Address :=
  match Octets.ofBytes? 16 payload with
  | some address => .ok address
  | none => .error (.invalidReply payload.length)

end MeshLight.Provisioning
