import MeshLight.Proofs.Command.Envelope
import MeshLight.Proofs.Command.OnBoard
import MeshLight.Proofs.Json.Literal
import MeshLight.Proofs.Json.Written
import MeshLight.Proofs.Timers.Durations

/-!
# MeshLight.Proofs.Command.Integers

Integers among the fields of a command, with however many digits they are written. On the way from
the text to the action such a field passes three types, each with its own range: integers of 64
bits, signed or unsigned, then signed ones only, then those of the field. A literal is turned down
by the first that it does not fit and never brought into range. So a command is accepted exactly if
its literals stand for integers that its fields can take, and these are what it stores
(`integers_never_wrapped`).
-/

namespace MeshLight

open Prog
open MeshLight.Json

/-! ## commands as they are written -/

/-- The string that a tree stands for. -/
def Json.Tree.string? : Tree → Option String
  | .string units => text? units
  | _ => none

/-- A command with the integers among its fields as they are written. -/
structure WrittenCommand where
  command : Command
  obj : Option String
  integers : List (String × IntegerLiteral)

namespace WrittenCommand

/-- The members of an object spell the command. `cmd` is one of its names, `obj` is there if there
is an object, the integers are under their keys, and all else can be read. -/
structure Among (c : WrittenCommand) (members : List (List StringUnit × Tree)) : Prop where
  cmd : ((written? "cmd" members).bind Tree.string?).bind Command.ofName? = some c.command
  obj : (written? "obj" members).map Tree.string? = c.obj.map some
  integers : ∀ i ∈ c.integers, written? i.1 members = some (.number i.2.written)
  readable : ∀ m ∈ members, Readable (depthLimit - 1) m ∨
    (text? m.1).isSome ∧ ∃ i ∈ c.integers, m.2 = .number i.2.written

/-- The tree of a body. -/
def bodyTree? (body : Bytes) : Option Tree := do Tree.ofText? (← ofUtf8? (Envelope.trimZeros body))

/-- The body spells the command. The text of a command is such a body (`in_text`), and others have
blanks, escapes or other members. -/
def In (c : WrittenCommand) (body : Bytes) : Prop :=
  ∃ members, bodyTree? body = some (.object members) ∧ c.Among members

/-! ## as text -/

/-- The members of a command: its name, its object and its integers. -/
def fields (c : WrittenCommand) : List (String × (String ⊕ IntegerLiteral)) :=
  ("cmd", .inl c.command.name) :: (c.obj.toList.map fun obj => ("obj", .inl obj)) ++
    c.integers.map fun i => (i.1, .inr i.2)

def fieldChars : String ⊕ IntegerLiteral → List Char
  | .inl s => quoted s
  | .inr l => l.chars

/-- The command as text. -/
def text (c : WrittenCommand) : String :=
  String.ofList (objectChars (c.fields.map fun f => (f.1, fieldChars f.2)))

/-- The tree of a field, given the units of strings. -/
def fieldTree (units : String → List StringUnit) : String ⊕ IntegerLiteral → Tree
  | .inl s => .string (units s)
  | .inr l => .number l.written

section

variable {c : WrittenCommand} {units : String → List StringUnit}

theorem nodup_fields (h : ("cmd" :: "obj" :: c.integers.map Prod.fst).Nodup) :
    (c.fields.map Prod.fst).Nodup := by
  cases hobj : c.obj with
  | none =>
      refine h.sublist ?_
      simp [fields, hobj, Function.comp_def]
  | some obj => simpa [fields, hobj, Function.comp_def] using h

theorem among_fields (hunits : ∀ key, text? (units key) = some key)
    (h : ("cmd" :: "obj" :: c.integers.map Prod.fst).Nodup) :
    c.Among (c.fields.map fun f => (units f.1, fieldTree units f.2)) := by
  have hmap : (c.fields.map fun f => (units f.1, fieldTree units f.2)) =
      (c.fields.map fun f => (f.1, fieldTree units f.2)).map fun e => (units e.1, e.2) := by
    rw [List.map_map]
    rfl
  have hdistinct : ((c.fields.map fun f => (f.1, fieldTree units f.2)).map Prod.fst).Nodup := by
    rw [List.map_map]
    exact nodup_fields h
  have hget (f : String × (String ⊕ IntegerLiteral)) (hf : f ∈ c.fields) :
      written? f.1 (c.fields.map fun f => (units f.1, fieldTree units f.2)) =
        some (fieldTree units f.2) := by
    rw [hmap]
    exact written?_of_mem hunits hdistinct (List.mem_map_of_mem hf)
  refine ⟨?_, ?_, fun i hi => ?_, fun m hm => ?_⟩
  · rw [hget ("cmd", .inl c.command.name) (by simp [fields])]
    simp [fieldTree, Tree.string?, hunits, Command.ofName?_name]
  · cases hobj : c.obj with
    | none =>
        have hnot : "obj" ∉ c.integers.map Prod.fst := by
          simp only [List.nodup_cons] at h
          exact h.2.1
        rw [hmap, written?_of_not_mem hunits (by simpa [fields, hobj] using hnot)]
        rfl
    | some obj =>
        rw [hget ("obj", .inl obj) (by simp [fields, hobj])]
        simp [fieldTree, Tree.string?, hunits]
  · exact hget (i.1, .inr i.2) (by simp [fields, hi])
  · obtain ⟨⟨key, s | l⟩, hf, rfl⟩ := List.mem_map.1 hm
    · exact .inl ⟨by simp [hunits], by simp [fieldTree, Tree.valueWithin?, hunits]⟩
    · have hi : (key, l) ∈ c.integers := by simpa [fields] using hf
      exact .inr ⟨by simp [hunits], (key, l), hi, rfl⟩

/-- The text of a command spells it, however many zero bytes follow. -/
theorem in_text (h : ("cmd" :: "obj" :: c.integers.map Prod.fst).Nodup) (n : Nat) :
    c.In (utf8 c.text ++ List.replicate n 0) := by
  choose units hlexeme hunits using exists_lexeme_quoted
  have hspells (f : String ⊕ IntegerLiteral) : Spells (fieldChars f) (fieldTree units f) := by
    cases f with
    | inl s => exact .of_lexeme (hlexeme s) fun _ => rfl
    | inr l => exact .of_lexeme l.lexeme fun _ => rfl
  have hentries : List.Forall₂ Spells.Entry (c.fields.map fun f => (f.1, fieldChars f.2))
      (c.fields.map fun f => (units f.1, fieldTree units f.2)) := by
    rw [List.forall₂_map_left_iff, List.forall₂_map_right_iff, List.forall₂_same]
    exact fun f _ => ⟨hlexeme f.1, hunits f.1, hspells f.2⟩
  have htree : bodyTree? (utf8 c.text ++ List.replicate n 0) = Tree.ofText? c.text := by
    rw [bodyTree?, Envelope.trimZeros_append_zeros, text, Envelope.trimZeros_utf8_objectChars,
      ofUtf8?_utf8, Option.bind_eq_bind, Option.bind_some]
  refine ⟨_, ?_, among_fields hunits h⟩
  rw [htree]
  exact Tree.ofText?_ofList (.objectChars hentries)

end

end WrittenCommand

/-! ## envelopes -/

namespace WrittenCommand

variable {c : WrittenCommand} {members : List (List StringUnit × Tree)} {body : Bytes}

theorem bodyValue?_eq (body : Bytes) :
    Envelope.bodyValue? body = (bodyTree? body).bind Tree.value? := by
  unfold Envelope.bodyValue? bodyTree?
  cases ofUtf8? (Envelope.trimZeros body) <;> rfl

/-- The integers are neither the name of the command nor its object. -/
theorem Among.key_ne (h : c.Among members) : ∀ i ∈ c.integers, i.1 ≠ "cmd" ∧ i.1 ≠ "obj" := by
  intro i hi
  have hwritten := h.integers i hi
  constructor
  · intro hkey
    have hcmd := h.cmd
    rw [← hkey, hwritten] at hcmd
    cases hcmd
  · intro hkey
    have hobj := h.obj
    rw [← hkey, hwritten] at hobj
    cases hc : c.obj <;> rw [hc] at hobj <;> cases hobj

/-- What is read of a command, if all of its integers can be read. -/
structure ReadAs (c : WrittenCommand) (e : Envelope) : Prop where
  command : Command.ofName? e.cmd = some c.command
  obj : e.obj = c.obj
  integers : ∀ i ∈ c.integers, ∃ n, Number.ofText? i.2.written = some n ∧
    e.fields.get? i.1 = some (.ofNumber n)

theorem valueWithin?_of_string? {t : Tree} {s : String} {levels : Nat} (h : t.string? = some s) :
    t.valueWithin? levels = some (.string s) := by
  cases t with
  | string units => simpa [Tree.valueWithin?, Tree.string?] using h
  | _ => cases h

theorem Among.readAs (h : c.Among members) {values : Members}
    (hvalues : membersWithin? (depthLimit - 1) members = some values)
    (hbody : Envelope.bodyValue? body = some (.object (Members.ofList values))) :
    ∃ e, Envelope.parse body = .ok e ∧ c.ReadAs e := by
  have hget := get?_of_membersWithin? hvalues
  obtain ⟨name, hname, hcommand⟩ := Option.bind_eq_some_iff.1 h.cmd
  obtain ⟨t, hwritten, hstring⟩ := Option.bind_eq_some_iff.1 hname
  have hcmd : Envelope.cmdOf (Members.ofList values) = .ok name := by
    simp [Envelope.cmdOf, hget, hwritten, valueWithin?_of_string? hstring]
  have hobj : Envelope.objOf (Members.ofList values) = .ok c.obj := by
    have hobj := h.obj
    cases hw : written? "obj" members <;> cases hc : c.obj <;> rw [hw, hc] at hobj <;> simp at hobj
    · simp [Envelope.objOf, hget, hw]
    · simp [Envelope.objOf, hget, hw, valueWithin?_of_string? hobj]
  refine ⟨_, by rw [Envelope.parse_of_bodyValue? hbody, hcmd, hobj]; rfl, hcommand, rfl, ?_⟩
  intro i hi
  obtain ⟨hnotCmd, hnotObj⟩ := h.key_ne i hi
  obtain ⟨m, hm, htree⟩ := exists_mem_of_written? (h.integers i hi)
  have hreadable := (isSome_membersWithin?_iff.1 (by rw [hvalues]; rfl) m hm).2
  rw [htree, Tree.valueWithin?, Option.isSome_map] at hreadable
  obtain ⟨n, hn⟩ := Option.isSome_iff_exists.1 hreadable
  refine ⟨n, hn, ?_⟩
  rw [Members.get?_without _ hnotObj, Members.get?_without _ hnotCmd, hget, h.integers i hi]
  simp [Tree.valueWithin?, hn]

/-- An integer that cannot be read spoils the body. If there is none, the command is read. -/
theorem In.parse (h : c.In body) :
    (∃ e, Envelope.parse body = .ok e ∧ c.ReadAs e) ∨
      Envelope.parse body = .error (.invalidParameter "body") ∧
        ∃ i ∈ c.integers, Number.ofText? i.2.written = none := by
  obtain ⟨members, htree, hamong⟩ := h
  have hvalue := bodyValue?_eq body
  rw [htree, Option.bind_some, Tree.value?, Tree.valueWithin?, if_neg (by decide)] at hvalue
  cases hvalues : membersWithin? (depthLimit - 1) members with
  | some values =>
      rw [hvalues] at hvalue
      exact .inl (hamong.readAs hvalues hvalue)
  | none =>
      rw [hvalues] at hvalue
      refine .inr ⟨by rw [Envelope.parse, hvalue]; rfl, ?_⟩
      by_contra hnone
      have hall : ∀ m ∈ members, Readable (depthLimit - 1) m := by
        intro m hm
        obtain hread | ⟨hkey, i, hi, htree⟩ := hamong.readable m hm
        · exact hread
        · refine ⟨hkey, ?_⟩
          rw [htree, Tree.valueWithin?, Option.isSome_map, Option.isSome_iff_ne_none]
          exact fun hn => hnone ⟨i, hi, hn⟩
      rw [← isSome_membersWithin?_iff, hvalues] at hall
      cases hall

end WrittenCommand

/-! ## fields -/

section

variable {e : Envelope} {key : String} {l : IntegerLiteral} {n : Number}

theorem Envelope.int_of_get? {v : Value} (hfield : e.fields.get? key = some v)
    (hnull : v.isNull = false) : e.int key = match v.int64? with
      | some i => .ok i
      | none => .error (.invalidParameter key) := by
  rw [int, optionalInt, hfield]
  simp only [hnull, Bool.false_eq_true, if_false]
  cases v.int64? <;> rfl

/-- A field has to be an integer of 64 bits, signed. -/
theorem Envelope.int_of_literal (hread : Number.ofText? l.written = some n)
    (hfield : e.fields.get? key = some (.ofNumber n)) :
    e.int key = if l.Within (-0x8000000000000000) 0x8000000000000000 then .ok l.value
      else .error (.invalidParameter key) := by
  cases n with
  | int i =>
      obtain ⟨rfl, hlow, -, hzero⟩ := IntegerLiteral.within_of_int hread
      rw [int_of_get? hfield rfl, Value.ofNumber, Value.int64?]
      by_cases hhigh : l.value < 0x8000000000000000
      · rw [if_pos hhigh, if_pos ⟨hlow, hhigh, hzero⟩]
      · rw [if_neg hhigh, if_neg fun h => hhigh h.2.1]
  | float x =>
      have hnot : ¬l.Within (-0x8000000000000000) 0x8000000000000000 := fun h => by
        rw [IntegerLiteral.ofText?_of_within (h.mono (by omega) (by omega))] at hread
        cases hread
      rw [if_neg hnot]
      exact int_of_get? hfield rfl

theorem Envelope.channel_of_literal (hread : Number.ofText? l.written = some n)
    (hfield : e.fields.get? key = some (.ofNumber n)) :
    e.channel key = if l.Within 0 256 then .ok (UInt8.ofNat l.value.toNat)
      else .error (.invalidParameter key) := by
  rw [channel, int_of_literal hread hfield]
  by_cases hbyte : l.Within 0 256
  · rw [if_pos hbyte, if_pos (hbyte.mono (by omega) (by omega))]
    exact if_pos ⟨hbyte.1, hbyte.2.1⟩
  · rw [if_neg hbyte]
    split
    · next h => exact if_neg fun hrange => hbyte ⟨hrange.1, hrange.2, h.2.2⟩
    · rfl

theorem ReportInterval.isSome_ofInt?_iff {secs : Int} :
    (ofInt? secs).isSome ↔ 1 ≤ secs ∧ secs < 0x100000000 := by
  constructor
  · intro h
    obtain ⟨interval, hinterval⟩ := Option.isSome_iff_exists.1 h
    have hsecs := Action.eq_of_ofInt? hinterval
    have hpos : interval.secs.toNat ≠ 0 := fun hzero =>
      interval.secs_ne_zero (UInt32.toNat_inj.1 hzero)
    have hless := interval.secs.toNat_lt
    omega
  · rintro ⟨hlow, hhigh⟩
    have hne : UInt32.ofNat secs.toNat ≠ 0 := fun hzero => by
      have hsize : UInt32.size = 0x100000000 := rfl
      have hmod := UInt32.toNat_ofNat_of_lt' (show secs.toNat < UInt32.size by omega)
      rw [hzero] at hmod
      have hzero' : (0 : UInt32).toNat = 0 := rfl
      omega
    rw [ofInt?, if_pos ⟨by omega, hhigh⟩, ofSecs?, dif_pos hne]
    rfl

/-- An interval has to be a positive number of 32 bits. -/
theorem Action.interval_of_literal (hread : Number.ofText? l.written = some n)
    (hfield : e.fields.get? "val" = some (.ofNumber n)) :
    (l.Within 1 0x100000000 ∧
        ∃ i, interval e = .ok i ∧ (i.secs.toNat : Int) = l.value) ∨
      ¬l.Within 1 0x100000000 ∧ interval e = .error (.invalidParameter "val") := by
  have hint := Envelope.int_of_literal hread hfield
  by_cases hrange : l.Within 1 0x100000000
  · obtain ⟨i, hi⟩ :=
      Option.isSome_iff_exists.1 (ReportInterval.isSome_ofInt?_iff.2 ⟨hrange.1, hrange.2.1⟩)
    rw [if_pos (hrange.mono (by omega) (by omega))] at hint
    exact .inl ⟨hrange, i, by simp [interval, hint, hi, Bind.bind, Except.bind], eq_of_ofInt? hi⟩
  · refine .inr ⟨hrange, ?_⟩
    have hnone : ReportInterval.ofInt? l.value = none := by
      rw [← Option.not_isSome_iff_eq_none, ReportInterval.isSome_ofInt?_iff,
        ← IntegerLiteral.within_iff_of_pos (by omega)]
      exact hrange
    split at hint
    · simp [interval, hint, hnone, Bind.bind, Except.bind]
    · simp [interval, hint, Bind.bind, Except.bind]

end

/-! ## actions -/

/-- The body is turned down for a field, or as a whole. -/
def Misread (body : Bytes) : Prop :=
  ∃ command field, readCommand body = .error (command, .invalidParameter field)

namespace WrittenCommand

variable {body : Bytes} {c : WrittenCommand} {l r g b : IntegerLiteral}

/-- A command of which an integer cannot be read is turned down. Of any other the fields are
checked. -/
theorem In.readCommand (h : c.In body) :
    (∃ e, c.ReadAs e ∧ readCommand body = match Action.ofEnvelope e c.command with
      | .error fault => .error (some c.command, fault)
      | .ok action => .ok (c.command, action)) ∨
    Misread body ∧ ∃ i ∈ c.integers,
      ∀ low high : Int, 0 ≤ low → high ≤ 0x100000000 → ¬i.2.Within low high := by
  obtain ⟨e, hparse, hread⟩ | ⟨hparse, i, hi, hnone⟩ := h.parse
  · refine .inl ⟨e, hread, ?_⟩
    cases haction : Action.ofEnvelope e c.command <;>
      simp only [MeshLight.readCommand, hparse, hread.command, haction]
  · refine .inr ⟨⟨none, "body", by rw [MeshLight.readCommand, hparse]⟩, i, hi, ?_⟩
    intro low high hlow hhigh hwithin
    rw [IntegerLiteral.ofText?_of_within (hwithin.mono (by omega) (by omega))] at hnone
    cases hnone

theorem readCommand_interval {obj : Option String}
    (h : In ⟨.setReportInterval, obj, [("val", l)]⟩ body) :
    (l.Within 1 0x100000000 ∧
        ∃ i, readCommand body = .ok (.setReportInterval, .setReportInterval i) ∧
          (i.secs.toNat : Int) = l.value) ∨
      ¬l.Within 1 0x100000000 ∧ Misread body := by
  obtain ⟨e, hread, hcommand⟩ | ⟨hmisread, i, hi, hnot⟩ := h.readCommand
  · obtain ⟨n, hn, hfield⟩ := hread.integers ("val", l) List.mem_cons_self
    obtain ⟨hrange, i, hi, hsecs⟩ | ⟨hrange, hi⟩ := Action.interval_of_literal hn hfield
    · refine .inl ⟨hrange, i, ?_, hsecs⟩
      rw [hcommand, Action.ofEnvelope, hi]
      rfl
    · refine .inr ⟨hrange, some .setReportInterval, "val", ?_⟩
      rw [hcommand, Action.ofEnvelope, hi]
      rfl
  · obtain rfl := List.mem_singleton.1 hi
    exact .inr ⟨hnot _ _ (by omega) (by omega), hmisread⟩

/-- A colour as it is written. -/
structure Spelled (color : Rgb) (r g b : IntegerLiteral) : Prop where
  red : (color.red.toNat : Int) = r.value
  green : (color.green.toNat : Int) = g.value
  blue : (color.blue.toNat : Int) = b.value

theorem toNat_of_within (h : l.Within 0 256) :
    ((UInt8.ofNat l.value.toNat).toNat : Int) = l.value := by
  have hsize : UInt8.size = 256 := rfl
  obtain ⟨hlow, hhigh, -⟩ := h
  rw [UInt8.toNat_ofNat_of_lt' (by omega), Int.toNat_of_nonneg hlow]

theorem readCommand_color {name : String} {group : LightGroup}
    (hgroup : LightGroup.ofName? name = some group)
    (h : In ⟨.changeColor, some name, [("r", r), ("g", g), ("b", b)]⟩ body) :
    ((r.Within 0 256 ∧ g.Within 0 256 ∧ b.Within 0 256) ∧
        ∃ color, readCommand body = .ok (.changeColor, .setColor group color) ∧
          Spelled color r g b) ∨
      ¬(r.Within 0 256 ∧ g.Within 0 256 ∧ b.Within 0 256) ∧ Misread body := by
  obtain ⟨e, hread, hcommand⟩ | ⟨hmisread, i, hi, hnot⟩ := h.readCommand
  · obtain ⟨_, hred, hredField⟩ := hread.integers ("r", r) (by simp)
    obtain ⟨_, hgreen, hgreenField⟩ := hread.integers ("g", g) (by simp)
    obtain ⟨_, hblue, hblueField⟩ := hread.integers ("b", b) (by simp)
    have hlight : Action.lightGroup e = .ok group := by
      simp [Action.lightGroup, Envelope.object, hread.obj, hgroup, Bind.bind, Except.bind]
    rw [Action.ofEnvelope, hlight, Envelope.channel_of_literal hred hredField,
      Envelope.channel_of_literal hgreen hgreenField,
      Envelope.channel_of_literal hblue hblueField] at hcommand
    by_cases hr : r.Within 0 256
    · by_cases hg : g.Within 0 256
      · by_cases hb : b.Within 0 256
        · rw [if_pos hr, if_pos hg, if_pos hb] at hcommand
          exact .inl ⟨⟨hr, hg, hb⟩, _, hcommand,
            ⟨toNat_of_within hr, toNat_of_within hg, toNat_of_within hb⟩⟩
        · rw [if_pos hr, if_pos hg, if_neg hb] at hcommand
          exact .inr ⟨fun h => hb h.2.2, _, _, hcommand⟩
      · rw [if_pos hr, if_neg hg] at hcommand
        exact .inr ⟨fun h => hg h.2.1, _, _, hcommand⟩
    · rw [if_neg hr] at hcommand
      exact .inr ⟨fun h => hr h.1, _, _, hcommand⟩
  · refine .inr ⟨fun hall => ?_, hmisread⟩
    simp only [List.mem_cons, List.not_mem_nil, or_false] at hi
    obtain rfl | rfl | rfl := hi
    · exact hnot _ _ (by omega) (by omega) hall.1
    · exact hnot _ _ (by omega) (by omega) hall.2.1
    · exact hnot _ _ (by omega) (by omega) hall.2.2

end WrittenCommand

/-! ## dispatch -/

section

variable {config : Config} {body : Bytes} {s s' : Session} {outcome : Outcome}
  {log : List Exchange}

theorem rejected_of_misread (h : Path (dispatch config body s) log (s', outcome))
    (hmisread : Misread body) : outcome.code = -1 ∧ s' = s ∧ log = [] := by
  obtain ⟨command, field, hread⟩ := hmisread
  obtain ⟨_, _, hread', rfl, rfl, rfl⟩ | ⟨_, _, r, hread', -⟩ := path_dispatch h
  · rw [hread] at hread'
    cases hread'
    exact ⟨rfl, rfl, rfl⟩
  · rw [hread] at hread'
    cases hread'

theorem accepted_of_setReportInterval {i : ReportInterval}
    (h : Path (dispatch config body s) log (s', outcome))
    (hread : readCommand body = .ok (.setReportInterval, .setReportInterval i)) :
    outcome.code = 0 ∧ s' = { s with interval := i } := by
  obtain ⟨r, hp, hr⟩ := path_dispatch_of_ok h hread
  obtain ⟨-, rfl⟩ := Action.path_perform_setReportInterval hp
  obtain ⟨_, ⟨⟩, rfl, rfl⟩ | ⟨_, ⟨⟩, -⟩ := hr
  exact ⟨rfl, rfl⟩

/-- A board that answers takes any colour. -/
theorem accepted_of_setColor {group : LightGroup} {color : Rgb} {board board' : Board}
    (h : Path (dispatch config body s) log (s', outcome))
    (hread : readCommand body = .ok (.changeColor, .setColor group color))
    (hb : Board.Serves log board board') :
    outcome.code = 0 ∧ board' = { board with strip := board.strip.setColor group color } := by
  obtain ⟨r, hp, hr⟩ := path_dispatch_of_ok h hread
  obtain ⟨answer, rfl, rfl⟩ := Action.path_perform_setColor hp
  obtain ⟨rfl, rfl⟩ := hb
  obtain ⟨_, ⟨⟩, rfl, rfl⟩ | ⟨_, ⟨⟩, -⟩ := hr
  exact ⟨rfl, rfl⟩

/-- Integers are never brought into range. A report interval is accepted exactly if its literal
stands for a number of seconds from one to the largest of 32 bits, and a colour of a group of lights
exactly if its three literals stand for numbers of eight bits and none is zero with a minus before
it. What is stored is what they stand for. Otherwise the code is that of a wrong parameter, the
session is left as it was, and no call is made, so timers and lights are left as well. -/
theorem integers_never_wrapped (h : Path (dispatch config body s) log (s', outcome)) :
    (∀ obj l, WrittenCommand.In ⟨.setReportInterval, obj, [("val", l)]⟩ body →
      (outcome.code = 0 ↔ 1 ≤ l.value ∧ l.value < 0x100000000) ∧
      (outcome.code = 0 →
        (s'.interval.secs.toNat : Int) = l.value ∧ s' = { s with interval := s'.interval }) ∧
      (outcome.code ≠ 0 → outcome.code = -1 ∧ s' = s ∧ log = [])) ∧
    ∀ name group r g b board board', LightGroup.ofName? name = some group →
      WrittenCommand.In ⟨.changeColor, some name, [("r", r), ("g", g), ("b", b)]⟩ body →
      Board.Serves log board board' →
      (outcome.code = 0 ↔ r.Within 0 256 ∧ g.Within 0 256 ∧ b.Within 0 256) ∧
      (outcome.code = 0 → ∃ color : Rgb, (color.red.toNat : Int) = r.value ∧
        (color.green.toNat : Int) = g.value ∧ (color.blue.toNat : Int) = b.value ∧
        board' = { board with strip := board.strip.setColor group color }) ∧
      (outcome.code ≠ 0 → outcome.code = -1 ∧ s' = s ∧ log = [] ∧ board' = board) := by
  constructor
  · intro obj l hin
    rw [← IntegerLiteral.within_iff_of_pos (by omega)]
    obtain ⟨hrange, i, hread, hsecs⟩ | ⟨hrange, hmisread⟩ :=
      WrittenCommand.readCommand_interval hin
    · obtain ⟨hcode, rfl⟩ := accepted_of_setReportInterval h hread
      exact ⟨iff_of_true hcode hrange, fun _ => ⟨hsecs, rfl⟩, fun hne => absurd hcode hne⟩
    · obtain ⟨hcode, hsession, hlog⟩ := rejected_of_misread h hmisread
      have hne : outcome.code ≠ 0 := by omega
      exact ⟨iff_of_false hne hrange, fun hzero => absurd hzero hne,
        fun _ => ⟨hcode, hsession, hlog⟩⟩
  · intro name group r g b board board' hgroup hin hb
    obtain ⟨hrange, color, hread, hcolor⟩ | ⟨hrange, hmisread⟩ :=
      WrittenCommand.readCommand_color hgroup hin
    · obtain ⟨hcode, hboard⟩ := accepted_of_setColor h hread hb
      exact ⟨iff_of_true hcode hrange,
        fun _ => ⟨color, hcolor.red, hcolor.green, hcolor.blue, hboard⟩,
        fun hne => absurd hcode hne⟩
    · obtain ⟨hcode, hsession, rfl⟩ := rejected_of_misread h hmisread
      have hne : outcome.code ≠ 0 := by omega
      exact ⟨iff_of_false hne hrange, fun hzero => absurd hzero hne,
        fun _ => ⟨hcode, hsession, rfl, hb⟩⟩

end

/-- An interval that would be sixty seconds, were it cut to 64 bits. -/
def longInterval : WrittenCommand :=
  ⟨.setReportInterval, none, [("val", .ofInt 18446744073709551676)]⟩

/-- A colour with the largest and the smallest value that there is. -/
def plainColor : WrittenCommand :=
  ⟨.changeColor, some "all", [("r", .ofInt 255), ("g", .ofInt 0), ("b", .ofInt 7)]⟩

/-- That interval is turned down, and that colour is stored. -/
theorem integers_never_wrapped_long :
    longInterval.text = "\x7b\"cmd\":\"set_report_interval\",\"val\":18446744073709551676\x7d" ∧
    plainColor.text =
      "\x7b\"cmd\":\"change_color\",\"obj\":\"all\",\"r\":255,\"g\":0,\"b\":7\x7d" ∧
    (∃ log s' outcome, Path (dispatch .default (utf8 longInterval.text) (.initial .default)) log
        (s', outcome) ∧ outcome.code = -1 ∧ s' = .initial .default ∧ log = []) ∧
    ∃ log s' outcome board', Path (dispatch .default (utf8 plainColor.text) (.initial .default)) log
        (s', outcome) ∧ Board.Serves log .initial board' ∧ outcome.code = 0 ∧
      board'.strip = ⟨⟨false, ⟨255, 0, 7⟩⟩, ⟨false, ⟨255, 0, 7⟩⟩⟩ := by
  refine ⟨by decide +kernel, by decide +kernel, ?_, ?_⟩
  · have hin : longInterval.In (utf8 longInterval.text) := by
      simpa using WrittenCommand.in_text (c := longInterval) (by decide) 0
    generalize utf8 longInterval.text = body at hin
    obtain ⟨log, ⟨s', outcome⟩, host, hpath, -⟩ :=
      Host.exists_path (dispatch .default body (.initial .default)) (.initial .child)
    obtain ⟨hcode, -, hrejected⟩ := (integers_never_wrapped hpath).1 _ _ hin
    rw [IntegerLiteral.value_ofInt] at hcode
    exact ⟨_, _, _, hpath, hrejected fun hzero => absurd (hcode.1 hzero) (by decide)⟩
  · have hin : plainColor.In (utf8 plainColor.text) := by
      simpa using WrittenCommand.in_text (c := plainColor) (by decide) 0
    generalize utf8 plainColor.text = body at hin
    obtain ⟨log, ⟨s', outcome⟩, host, hpath, hb⟩ :=
      Host.exists_path (dispatch .default body (.initial .default)) (.initial .child)
    obtain ⟨hcode, hstored, -⟩ :=
      (integers_never_wrapped hpath).2 _ .all _ _ _ _ _ rfl hin hb
    have hzero : outcome.code = 0 := hcode.2 (by decide)
    obtain ⟨⟨red, green, blue⟩, hred, hgreen, hblue, hboard⟩ := hstored hzero
    refine ⟨_, _, _, _, hpath, hb, hzero, ?_⟩
    rw [IntegerLiteral.value_ofInt] at hred hgreen hblue
    obtain rfl : red = 255 := UInt8.toNat_inj.1 (Int.ofNat_inj.1 hred)
    obtain rfl : green = 0 := UInt8.toNat_inj.1 (Int.ofNat_inj.1 hgreen)
    obtain rfl : blue = 7 := UInt8.toNat_inj.1 (Int.ofNat_inj.1 hblue)
    rw [hboard]
    rfl

end MeshLight
