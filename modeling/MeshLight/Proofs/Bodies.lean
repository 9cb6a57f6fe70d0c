import MeshLight.Proofs.Json.Double
import MeshLight.Proofs.Json.Record
import MeshLight.Report
import MeshLight.Trigger

/-!
# MeshLight.Proofs.Bodies

The bodies that a node sends, read back. A status report comes back from its text, whatever its
strings hold, and so does a notification, if their doubles are integers of 32 bits, signed. A
notification names its value if and only if it has one (`ofText?_text_of_integers`).
-/

namespace MeshLight

open MeshLight.Json

/-- The number is an integer between `-2 ^ 31` and `2 ^ 31`. -/
def Binary64.IsSmallInteger (x : Binary64) : Prop := ∃ n ≤ 2 ^ 31, x.IsInteger n

theorem Binary64.isSmallInteger_ofInt {i : Int} (hlow : -2 ^ 31 ≤ i) (hhigh : i ≤ 2 ^ 31) :
    (ofInt i).IsSmallInteger := ⟨i.natAbs, by omega, isInteger_ofInt (by omega)⟩

theorem Json.Value.ReadsBack.smallInteger {x : Binary64} (levels : Nat) (hx : x.IsSmallInteger) :
    (Value.float x).ReadsBack levels := by
  obtain ⟨n, hn, hx⟩ := hx
  exact .float levels hx (by omega)

/-! ## status reports -/

namespace Readings

def values (r : Readings) : List Binary64 :=
  [r.temperature, r.humidity, r.light, r.pressure, r.battery]

variable {r : Readings}

theorem readsBack_of_mem (h : ∀ x ∈ r.values, x.IsSmallInteger) :
    ∀ m ∈ r.members, m.2.ReadsBack depthLimit := by
  have hfloat : ∀ m ∈ r.members, ∃ x ∈ r.values, m.2 = .float x := by simp [members, values]
  intro m hm
  obtain ⟨x, hx, hvalue⟩ := hfloat m hm
  rw [hvalue]
  exact .smallInteger depthLimit (h x hx)

theorem exists_spells (h : ∀ x ∈ r.values, x.IsSmallInteger) :
    ∃ t, Spells (Value.object r.members).chars t ∧ ofTree? t = some r := by
  have hreads := readsBack_of_mem h
  have hnodup : (r.members.map (·.1)).Nodup := show fieldNames.Nodup by decide
  obtain ⟨t, fields, hgiven⟩ :=
    exists_given_of_nodup fieldNames (fun m hm => (hreads m hm).spells) hnodup
  have hfound : ∀ m ∈ r.members, fields.value? m.1 = some m.2 := fun m hm =>
    hgiven.value? hm (List.mem_map_of_mem hm) (hreads m hm)
  simp only [members, List.forall_mem_cons] at hfound
  obtain ⟨h1, h2, h3, h4, h5, -⟩ := hfound
  refine ⟨t, hgiven.spells, bind_of_some hgiven.fields? ?_⟩
  refine bind_of_some (bind_of_some h1 rfl) (bind_of_some (bind_of_some h2 rfl) ?_)
  refine bind_of_some (bind_of_some h3 rfl) (bind_of_some (bind_of_some h4 rfl) ?_)
  exact bind_of_some (bind_of_some h5 rfl) rfl

end Readings

namespace StatusReport

variable {r : StatusReport}

/-- All members but the readings are strings and integers. -/
theorem plain_or_eq_data (r : StatusReport) : ∀ m ∈ r.members,
    m.2.Plain depthLimit ∨ m = ("data", .object r.data.members) := by
  simp [members, Value.Plain.string, Value.Plain.uint32, Value.Plain.uint16]

theorem ofText?_text_of_data (h : ∀ x ∈ r.data.values, x.IsSmallInteger) :
    ofText? r.text = some r := by
  obtain ⟨tdata, hdata, hreadings⟩ := Readings.exists_spells h
  have hspelled : ∀ m ∈ r.members, ∃ t, Spells m.2.chars t := fun m hm => by
    obtain hplain | rfl := r.plain_or_eq_data m hm
    · exact hplain.readsBack.spells
    · exact ⟨tdata, hdata⟩
  have hnodup : (r.members.map (·.1)).Nodup := show fieldNames.Nodup by decide
  obtain ⟨t, fields, hgiven⟩ := exists_given_of_nodup fieldNames hspelled hnodup
  have hfound : ∀ m ∈ r.members, m.2.Plain depthLimit → fields.value? m.1 = some m.2 :=
    fun m hm hplain => hgiven.value? hm (List.mem_map_of_mem hm) hplain.readsBack
  have hdatafound : fields.tree? "data" = some tdata := by
    obtain ⟨t', htree, hspells⟩ :=
      hgiven.tree? ("data", .object r.data.members) (by simp [members]) (by simp [fieldNames])
    rw [htree, hspells.unique hdata]
  simp only [members, List.forall_mem_cons] at hfound
  obtain ⟨h1, h2, h3, h4, h5, h6, h7, h8, h9, -⟩ := hfound
  have hstring {name s : String}
      (hs : (Value.string s).Plain depthLimit → fields.value? name = some (.string s)) :
      (fields.value? name >>= fun v => v.string?) = some s :=
    bind_of_some (hs (.string depthLimit s)) rfl
  have hword {name : String} {n : UInt16}
      (hn : (Value.int n.toNat).Plain depthLimit → fields.value? name = some (.int n.toNat)) :
      (fields.value? name >>= fun v => v.uint16?) = some n :=
    bind_of_some (hn (.uint16 depthLimit n)) (Value.uint16?_toNat n)
  refine bind_of_some hgiven.ofText? (bind_of_some hgiven.fields? ?_)
  refine bind_of_some (hstring h1) (bind_of_some (hword h2) (bind_of_some (hstring h3) ?_))
  refine bind_of_some (hstring h4) (bind_of_some (hstring h5) (bind_of_some (hword h6) ?_))
  refine bind_of_some (hstring h7) (bind_of_some (h8 (.uint32 depthLimit r.intervalSecs)) ?_)
  refine bind_of_some (Value.uint32?_toNat r.intervalSecs) (bind_of_some (hstring h9) ?_)
  exact bind_of_some hdatafound (bind_of_some hreadings rfl)

end StatusReport

/-! ## notifications -/

namespace Json

/-- The names of the members of the object that a text spells. -/
def memberNames? (s : String) : Option (List String) := do
  match ← Tree.ofText? s with
  | .object members => (named? members).map fun fields => fields.map (·.1)
  | _ => none

theorem Spells.memberNames? {members : Members} (h : ∀ m ∈ members, ∃ t, Spells m.2.chars t) :
    memberNames? (Value.object members).text = some (members.map (·.1)) := by
  obtain ⟨written, hwritten⟩ := Spells.exists_written h
  obtain ⟨fields, hnamed, hnames, -⟩ := exists_named hwritten
  have htree : Tree.ofText? (Value.object members).text = some (.object written) :=
    Tree.ofText?_ofList (.object hwritten)
  simp [Json.memberNames?, htree, hnamed, hnames]

/-- A string is a name out of a choice. -/
theorem Spells.choice? {s : String} {t : Tree} (h : Spells (Value.string s).chars t) :
    t.choice? = some s := by
  obtain ⟨units, hlexeme, htext⟩ := exists_lexeme_quoted s
  rwa [h.unique (.of_lexeme hlexeme fun _ => rfl)]

end Json

namespace TriggerEvent

variable {e : TriggerEvent}

theorem readsBack_of_mem (h : ∀ x ∈ e.value, x.IsSmallInteger) :
    ∀ m ∈ e.members, m.2.ReadsBack depthLimit := by
  cases hvalue : e.value with
  | none => simp [members, hvalue, Value.ReadsBack.string]
  | some x =>
      have hfloat := Value.ReadsBack.smallInteger depthLimit (h x hvalue)
      simp [members, hvalue, Value.ReadsBack.string, hfloat]

theorem value_mem_names_iff (e : TriggerEvent) :
    "value" ∈ e.members.map (·.1) ↔ e.value.isSome = true := by
  cases hvalue : e.value <;> simp [members, hvalue]

theorem nodup_names (e : TriggerEvent) : (e.members.map (·.1)).Nodup := by
  cases hvalue : e.value <;> simp [members, hvalue]

theorem ofText?_text_of_value (h : ∀ x ∈ e.value, x.IsSmallInteger) :
    ofText? e.text = some e := by
  have hreads := readsBack_of_mem h
  obtain ⟨t, fields, hgiven⟩ :=
    exists_given_of_nodup fieldNames (fun m hm => (hreads m hm).spells) e.nodup_names
  obtain ⟨tkind, htree, hspells⟩ := hgiven.tree? ("trigger_type", .string e.kind.wireName)
    (by simp [members]) (by simp [fieldNames])
  have hobject : fields.value? "obj" = some (.string e.object) :=
    hgiven.value? (m := ("obj", .string e.object)) (by simp [members]) (by simp [fieldNames])
      (.string depthLimit e.object)
  refine bind_of_some hgiven.ofText? (bind_of_some hgiven.fields? ?_)
  refine bind_of_some htree (bind_of_some hspells.choice? ?_)
  refine bind_of_some (TriggerKind.ofWireName?_wireName e.kind) ?_
  refine bind_of_some hobject (bind_of_some rfl ?_)
  obtain ⟨kind, object, value⟩ := e
  cases value with
  | none =>
      have hnone := hgiven.tree?_eq_none "value" (by simp [members])
      rw [hnone]
  | some x =>
      obtain ⟨tvalue, htree, hspells⟩ := hgiven.tree? ("value", .float x) (by simp [members])
        (by simp [fieldNames])
      have hvalue : tvalue.value? = some (.float x) :=
        (hreads ("value", .float x) (by simp [members])).valueWithin?_of_spells hspells
      simp [htree, optionalValue?, hvalue, Value.isNull, Value.binary64?]

/-- The steps of a rotation are counted in 32 bits, signed. -/
theorem isSmallInteger_of_rotation (object : String) {steps : Int} (hlow : -2 ^ 31 ≤ steps)
    (hhigh : steps < 2 ^ 31) : ∀ x ∈ (encoderRotation object steps).value, x.IsSmallInteger := by
  simp only [encoderRotation, Option.mem_some_iff, forall_eq']
  exact Binary64.isSmallInteger_ofInt hlow (Int.le_of_lt hhigh)

end TriggerEvent

/-! ## all bodies -/

/-- Every status report whose readings are integers comes back from its text, and so does every
notification whose value is absent or an integer, such as those that a node makes up. A notification
names a value if and only if it has one. -/
theorem ofText?_text_of_integers :
    (∀ r : StatusReport, (∀ x ∈ r.data.values, x.IsSmallInteger) →
      StatusReport.ofText? r.text = some r) ∧
    (∀ e : TriggerEvent, (∀ x ∈ e.value, x.IsSmallInteger) →
      TriggerEvent.ofText? e.text = some e ∧
      ∃ names, memberNames? e.text = some names ∧ ("value" ∈ names ↔ e.value.isSome = true)) ∧
    ∀ (object : String) (steps : Int), -2 ^ 31 ≤ steps → steps < 2 ^ 31 →
      ∀ e ∈ [TriggerEvent.infrared object, .encoderButton object, .encoderRotation object steps],
        ∀ x ∈ e.value, x.IsSmallInteger := by
  refine ⟨fun r h => r.ofText?_text_of_data h, fun e h => ⟨e.ofText?_text_of_value h, ?_⟩, ?_⟩
  · have hspelled : ∀ m ∈ e.members, ∃ t, Spells m.2.chars t := fun m hm =>
      (TriggerEvent.readsBack_of_mem h m hm).spells
    exact ⟨_, Spells.memberNames? hspelled, e.value_mem_names_iff⟩
  · intro object steps hlow hhigh
    have hrotation := TriggerEvent.isSmallInteger_of_rotation object hlow hhigh
    simpa [TriggerEvent.infrared, TriggerEvent.encoderButton] using hrotation

/-- A report from a cold place, with a light that is negative zero and strings to be escaped. -/
def coldReport : StatusReport where
  version := "\"1.3\"\n"
  threadVersion := 4
  eui64 := "0011223344556677"
  extended := "a\\b"
  address := "fd00::1\u0000"
  rloc16 := 0xffff
  softwareVersion := ""
  intervalSecs := 0xffffffff
  firmwareType := "\u00e4"
  data := {
    temperature := Binary64.ofInt (-40)
    humidity := Binary64.ofInt 100
    light := (Binary64.ofNat 0).neg
    pressure := Binary64.ofInt 101
    battery := Binary64.ofInt (2 ^ 31) }

/-- That report, and the longest rotation to the left. -/
theorem ofText?_text_of_integers_cold :
    (∀ x ∈ coldReport.data.values, x.IsSmallInteger) ∧
    StatusReport.ofText? coldReport.text = some coldReport ∧
    TriggerEvent.ofText? (TriggerEvent.encoderRotation "\"" (-2 ^ 31)).text =
      some (TriggerEvent.encoderRotation "\"" (-2 ^ 31)) := by
  obtain ⟨hreport, hevent, hnode⟩ := ofText?_text_of_integers
  have hzero : (Binary64.ofNat 0).neg.IsSmallInteger :=
    ⟨0, by omega, (Binary64.units_neg _).trans (Binary64.units_ofNat (by omega))⟩
  have hreadings : ∀ x ∈ coldReport.data.values, x.IsSmallInteger := by
    simp only [Readings.values, coldReport, List.forall_mem_cons]
    exact ⟨Binary64.isSmallInteger_ofInt (by omega) (by omega),
      Binary64.isSmallInteger_ofInt (by omega) (by omega), hzero,
      Binary64.isSmallInteger_ofInt (by omega) (by omega),
      Binary64.isSmallInteger_ofInt (by omega) (by omega), by simp⟩
  have hrotation := hnode "\"" (-2 ^ 31) (by omega) (by omega) (.encoderRotation "\"" (-2 ^ 31))
    (by simp)
  exact ⟨hreadings, hreport _ hreadings, (hevent _ hrotation).1⟩

end MeshLight
