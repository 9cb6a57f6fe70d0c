import MeshLight.Command.Envelope
import MeshLight.Proofs.Json.RoundTrip

/-!
# MeshLight.Proofs.Command.Envelope

The body of a command is read as the object that was written into it. The text of an object ends in
a brace, so the zero bytes that may follow it are all that is cut off; what is left is read back as
the object itself. Then only the members `cmd` and `obj` decide whether it is a command
(`parse_text`).
-/

namespace MeshLight

open MeshLight.Json

/-! ## the end of the text -/

theorem exists_moreEntries_eq (entries : List (String × List Char)) :
    ∃ init, moreEntries entries = init ++ ['\x7d'] := by
  induction entries with
  | nil => exact ⟨[], rfl⟩
  | cons e entries ih =>
      obtain ⟨init, hinit⟩ := ih
      exact ⟨',' :: (quoted e.1 ++ ':' :: (e.2 ++ init)), by simp [moreEntries, hinit]⟩

/-- The text of an object ends in a brace. -/
theorem exists_objectChars_eq (entries : List (String × List Char)) :
    ∃ init, objectChars entries = init ++ ['\x7d'] := by
  cases entries with
  | nil => exact ⟨['\x7b'], rfl⟩
  | cons e entries =>
      obtain ⟨init, hinit⟩ := exists_moreEntries_eq entries
      exact ⟨'\x7b' :: (quoted e.1 ++ ':' :: (e.2 ++ init)), by simp [objectChars, hinit]⟩

namespace Envelope

theorem trimZeros_utf8_objectChars (entries : List (String × List Char)) :
    trimZeros (utf8 (String.ofList (objectChars entries))) =
      utf8 (String.ofList (objectChars entries)) := by
  obtain ⟨init, hend⟩ := exists_objectChars_eq entries
  have hbrace : utf8 (String.ofList ['\x7d']) = [0x7d] := by decide
  simp [trimZeros, hend, String.ofList_append, utf8_append, hbrace]

theorem trimZeros_utf8_text (members : Members) :
    trimZeros (utf8 (Value.object members).text) = utf8 (Value.object members).text := by
  rw [Value.text, chars_object]
  exact trimZeros_utf8_objectChars _

/-- A body that spells an object, with zero bytes after it. -/
theorem bodyValue?_text {members : Members} (n : Nat)
    (h : (Value.object members).ReadsBack depthLimit) :
    bodyValue? (utf8 (Value.object members).text ++ List.replicate n 0) =
      some (.object members) := by
  rw [bodyValue?, trimZeros_append_zeros, trimZeros_utf8_text, ofUtf8?_utf8]
  exact Value.ofText?_text h

/-- What becomes of a body that spells an object. -/
theorem parse_of_bodyValue? {body : Bytes} {members : Members}
    (h : bodyValue? body = some (.object members)) : parse body = (do
      let cmd ← cmdOf members
      let obj ← objOf members
      return ⟨cmd, obj, Members.without "obj" (Members.without "cmd" members)⟩) := by
  rw [parse, h]

/-- Reading a body undoes the writing of it. However many zero bytes follow the text of an object
without doubles, nested 127 levels deep at most, it is read as a command exactly if `cmd` is a
string and `obj` is absent or a string: as their values and the members of any other name. The fault
is that of `cmd` if this is not a string, and otherwise that of `obj`. -/
theorem parse_text {members : Members} (h : (Value.object members).Plain 127) (n : Nat) :
    let fields := members.filter fun m => m.1 ≠ "cmd" ∧ m.1 ≠ "obj"
    (∀ cmd, members.get? "cmd" = some (.string cmd) →
      (members.get? "obj" = none →
        parse (utf8 (Value.object members).text ++ List.replicate n 0) =
          .ok ⟨cmd, none, fields⟩) ∧
      (∀ obj, members.get? "obj" = some (.string obj) →
        parse (utf8 (Value.object members).text ++ List.replicate n 0) =
          .ok ⟨cmd, some obj, fields⟩) ∧
      ∀ v, members.get? "obj" = some v → v.string? = none →
        parse (utf8 (Value.object members).text ++ List.replicate n 0) =
          .error (.invalidParameter "obj")) ∧
    ((∀ cmd, members.get? "cmd" ≠ some (.string cmd)) →
      parse (utf8 (Value.object members).text ++ List.replicate n 0) =
        .error (.invalidParameter "cmd")) := by
  intro fields
  have hparse := parse_of_bodyValue? (bodyValue?_text n h.readsBack)
  rw [Members.without_without] at hparse
  constructor
  · intro cmd hget
    have hcmd : cmdOf members = .ok cmd := by simp [cmdOf, hget]
    refine ⟨fun hnone => ?_, fun obj hsome => ?_, fun v hsome hv => ?_⟩
    · have hobj : objOf members = .ok none := by simp [objOf, hnone]
      rw [hparse, hcmd, hobj]
      rfl
    · have hobj : objOf members = .ok (some obj) := by simp [objOf, hsome]
      rw [hparse, hcmd, hobj]
      rfl
    · have hobj : objOf members = .error (.invalidParameter "obj") := by
        cases v <;> simp [objOf, hsome, Value.string?] at hv ⊢
      rw [hparse, hcmd, hobj]
      rfl
  · intro hget
    have hcmd : cmdOf members = .error (.invalidParameter "cmd") := by
      unfold cmdOf
      split
      · next cmd hsome => exact absurd hsome (hget cmd)
      · rfl
    rw [hparse, hcmd]
    rfl

/-- The members of a command whose text has escapes, a character of two bytes, the largest and the
smallest of the integers, and an object within a list. -/
def escapedMembers : Members := [
  ("cmd", .string "on\"off\n\u0001"),
  ("list", .array [.int 0xffffffffffffffff, .int (-0x8000000000000000),
    .object [("\u00e4", .bool true)]]),
  ("obj", .string "led")]

/-- That command, with three zero bytes after it. -/
theorem parse_text_escaped :
    (Value.object escapedMembers).Plain 127 ∧
    escapedMembers.get? "cmd" = some (.string "on\"off\n\u0001") ∧
    escapedMembers.get? "obj" = some (.string "led") ∧
    parse (utf8 (Value.object escapedMembers).text ++ List.replicate 3 0) =
      .ok ⟨"on\"off\n\u0001", some "led", [
        ("list", .array [.int 0xffffffffffffffff, .int (-0x8000000000000000),
          .object [("\u00e4", .bool true)]])]⟩ := by
  have hlist : (Value.array [.int 0xffffffffffffffff, .int (-0x8000000000000000),
      .object [("\u00e4", .bool true)]]).Plain 126 := by
    refine .array ?_
    simp only [List.forall_mem_cons]
    exact ⟨.int _ (by decide) (by decide), .int _ (by decide) (by decide),
      .object (by decide) (by simp [Value.Plain.bool]), by simp⟩
  have hplain : (Value.object escapedMembers).Plain 127 := by
    refine .object (by decide) ?_
    simp only [escapedMembers, List.forall_mem_cons]
    exact ⟨.string _ _, hlist, .string _ _, by simp⟩
  have hcmd : escapedMembers.get? "cmd" = some (.string "on\"off\n\u0001") := rfl
  have hobj : escapedMembers.get? "obj" = some (.string "led") := rfl
  exact ⟨hplain, hcmd, hobj, ((parse_text hplain 3).1 _ hcmd).2.1 _ hobj⟩

end Envelope

end MeshLight
