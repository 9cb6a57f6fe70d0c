import MeshLight.Call

/-!
# MeshLight.Stack

A simulated mesh stack. It keeps what it was told, records what was sent, and starts a joiner
unless it is attached.
-/

namespace MeshLight

structure Stack where
  role : Role
  linkMode : LinkMode
  pollPeriod : UInt32
  joinerStarts : Nat
  factoryResets : Nat
  sent : List Request
  responses : List (UInt32 × Bytes)
  hostName : Option String
  hostAddress : Option Address
  services : List ServiceRecord
  autostart : Bool
  deriving DecidableEq

namespace Stack

def initial : Stack where
  role := .disabled
  linkMode := .minimal
  pollPeriod := 3000
  joinerStarts := 0
  factoryResets := 0
  sent := []
  responses := []
  hostName := none
  hostAddress := none
  services := []
  autostart := false

/-- The identity of the simulated node. -/
def identity : Identity where
  eui64 := simulatedEui64
  extended := ⟨[0x12, 0x34, 0x56, 0x78, 0x9a, 0xbc, 0xde, 0xf0], rfl⟩
  rloc16 := 0x4401
  meshLocal := ⟨[0xfd, 0x00, 0x0d, 0xb8, 0, 0, 0, 0, 0, 0, 0, 0, 0, 0, 0, 1], rfl⟩
  global := none
  stackVersion := "sim"
  threadVersion := 4

/-- Adds a service, unless one of that name is there already. -/
def addService (service : ServiceRecord) (s : Stack) : Stack :=
  if s.services.any (·.name = service.name) then s
  else { s with services := s.services ++ [service] }

/-- Forgets host and services. -/
def removeAll (s : Stack) : Stack :=
  { s with hostName := none, hostAddress := none, services := [], autostart := false }

/-- Answers a call. -/
def answer : (c : MeshCall) → Stack → c.Answer × Stack
  | .role, s => (s.role, s)
  | .linkMode, s => (s.linkMode, s)
  | .setLinkMode mode, s => (.ok (), { s with linkMode := mode })
  | .pollPeriod, s => (s.pollPeriod, s)
  | .setPollPeriod ms, s => (.ok (), { s with pollPeriod := ms })
  | .identity, s => (identity, s)
  | .startJoiner, s =>
    if s.role.isAttached then (.error .invalidState, s)
    else (.ok (), { s with joinerStarts := s.joinerStarts + 1 })
  | .factoryReset, s => ((), { s with factoryResets := s.factoryResets + 1, role := .disabled })
  | .setHostName name, s =>
    if name = "" then (.error .invalidName, s) else (.ok (), { s with hostName := some name })
  | .setHostAddress address, s => (.ok (), { s with hostAddress := some address })
  | .addService service, s => (.ok (), s.addService service)
  | .enableAutostart, s => (.ok (), { s with autostart := true })
  | .removeAll _, s => (.ok (), s.removeAll)
  | .send request, s => (.ok (), { s with sent := s.sent ++ [request] })
  | .respond token payload, s => (.ok (), { s with responses := s.responses ++ [(token, payload)] })

end Stack

end MeshLight
