import MeshLight.Fault
import MeshLight.Json.Value

/-!
# MeshLight.Command.Envelope

The body of a command: a JSON object with the command's name under `cmd`, the object it is about
under `obj`, and further fields. Zero bytes after it are ignored.
-/

namespace MeshLight

open MeshLight.Json

structure Envelope where
  cmd : String
  obj : Option String
  fields : Members

namespace Envelope

/-! ## parsing -/

/-- The bytes without the zero bytes at the end. -/
def trimZeros (body : Bytes) : Bytes := (body.reverse.dropWhile (· = 0)).reverse

theorem trimZeros_append_zeros (body : Bytes) (n : Nat) :
    trimZeros (body ++ List.replicate n 0) = trimZeros body := by
  unfold trimZeros
  rw [List.reverse_append, List.reverse_replicate, List.dropWhile_append_of_pos]
  intro b hb
  simp [List.eq_of_mem_replicate hb]

/-- The value that a body spells. -/
def bodyValue? (body : Bytes) : Option Value := do Value.ofText? (← ofUtf8? (trimZeros body))

/-- The command name among the members. -/
def cmdOf (members : Members) : Except CommandFault String :=
  match Members.get? "cmd" members with
  | some (.string cmd) => .ok cmd
  | _ => .error (.invalidParameter "cmd")

/-- The object among the members, which may be absent. -/
def objOf (members : Members) : Except CommandFault (Option String) :=
  match Members.get? "obj" members with
  | none => .ok none
  | some (.string obj) => .ok (some obj)
  | some _ => .error (.invalidParameter "obj")

def parse (body : Bytes) : Except CommandFault Envelope :=
  match bodyValue? body with
  | some (.object members) => do
    let cmd ← cmdOf members
    let obj ← objOf members
    return ⟨cmd, obj, Members.without "obj" (Members.without "cmd" members)⟩
  | _ => .error (.invalidParameter "body")

/-! ## fields -/

/-- The object, which has to be there. -/
def object (e : Envelope) : Except CommandFault String :=
  match e.obj with
  | some obj => .ok obj
  | none => .error .invalidObject

/-- An integer that may be missing or `null`. -/
def optionalInt (key : String) (e : Envelope) : Except CommandFault (Option Int) :=
  match e.fields.get? key with
  | none => .ok none
  | some v =>
    if v.isNull then .ok none
    else
      match v.int64? with
      | some i => .ok (some i)
      | none => .error (.invalidParameter key)

def int (key : String) (e : Envelope) : Except CommandFault Int := do
  match ← e.optionalInt key with
  | some i => .ok i
  | none => .error (.invalidParameter key)

/-- A flag, or an integer that is zero for false. -/
def boolean (key : String) (e : Envelope) : Except CommandFault Bool :=
  match e.fields.get? key with
  | some (.bool b) => .ok b
  | some v =>
    match v.int64? with
    | some i => .ok (i ≠ 0)
    | none => .error (.invalidParameter key)
  | none => .error (.invalidParameter key)

/-- A colour channel of eight bits. -/
def channel (key : String) (e : Envelope) : Except CommandFault UInt8 := do
  let i ← e.int key
  if 0 ≤ i ∧ i < 256 then .ok (UInt8.ofNat i.toNat) else .error (.invalidParameter key)

def string (key : String) (e : Envelope) : Except CommandFault String :=
  match (e.fields.get? key).bind Value.string? with
  | some s => .ok s
  | none => .error (.invalidParameter key)

end Envelope

end MeshLight
