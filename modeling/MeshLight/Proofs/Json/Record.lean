import MeshLight.Json.Record
import MeshLight.Proofs.Json.RoundTrip

/-!
# MeshLight.Proofs.Json.Record

Records read from the text of an object. A declared field that is written once is found with the
value that was written, wherever it stands and whatever other members there are
(`exists_fields_text`); if a declared field is written twice there is no record
(`exists_repeated_text`).
-/

namespace MeshLight.Json

variable {members : Members} {written : List (List StringUnit × Tree)} {fields : Fields}

/-! ## fields -/

namespace Value

theorem uint32?_toNat (n : UInt32) : (Value.int n.toNat).uint32? = some n := by
  have hless := n.toNat_lt
  simp [uint32?, natBelow?, UInt32.size, hless]

theorem uint16?_toNat (n : UInt16) : (Value.int n.toNat).uint16? = some n := by
  have hless := n.toNat_lt
  simp [uint16?, natBelow?, UInt16.size, hless]

theorem shortText?_text {capacity : Nat} (t : ShortText capacity) :
    (Value.string t.text).shortText? capacity = some t := by
  simp [shortText?, string?, ShortText.ofString?, t.size_le]

end Value

/-- One field after the other. -/
theorem bind_of_some {α β : Type} {x : Option α} {a : α} {f : α → Option β} {b : β}
    (hx : x = some a) (hf : f a = some b) : x >>= f = some b :=
  Option.bind_eq_some_iff.2 ⟨a, hx, hf⟩

/-! ## members -/

/-- The members that were written are given under their names. -/
theorem exists_named (h : List.Forall₂ Spells.Member members written) :
    ∃ fields, named? written = some fields ∧ fields.map (·.1) = members.map (·.1) ∧
      List.Forall₂ (fun m f => f.1 = m.1 ∧ Spells m.2.chars f.2) members fields := by
  induction h with
  | nil => exact ⟨[], rfl, rfl, .nil⟩
  | @cons m w members written hfirst _ ih =>
      obtain ⟨fields, hnamed, hnames, hfields⟩ := ih
      exact ⟨(m.1, w.2) :: fields, by simp [named?, hfirst.key, hnamed], by simp [hnames],
        .cons ⟨rfl, hfirst.value⟩ hfields⟩

theorem givenOnce_iff {declared : List String} : givenOnce declared fields = true ↔
    ∀ name ∈ declared, (fields.map (·.1)).count name ≤ 1 := by
  have hcount (name : String) : (fields.filter (·.1 = name)).length =
      (fields.map (·.1)).count name := by
    rw [List.count, List.countP_map, List.countP_eq_length_filter]
    rfl
  simp only [givenOnce, List.all_eq_true, decide_eq_true_eq, hcount]

/-- A member whose name is written once is found. -/
theorem exists_tree?_of_mem {name : String} {v : Value}
    (h : List.Forall₂ (fun m f => f.1 = m.1 ∧ Spells m.2.chars f.2) members fields)
    (hmem : (name, v) ∈ members) (honce : (members.map (·.1)).count name ≤ 1) :
    ∃ t, fields.tree? name = some t ∧ Spells v.chars t := by
  induction h with
  | nil => cases hmem
  | @cons m f members fields hfirst _ ih =>
      obtain ⟨key, t⟩ := f
      obtain ⟨rfl, hspells⟩ : key = m.1 ∧ Spells m.2.chars t := hfirst
      obtain rfl | hmem := List.mem_cons.1 hmem
      · exact ⟨t, by simp [Fields.tree?], hspells⟩
      · have hmore : 0 < (members.map (·.1)).count name :=
          List.count_pos_iff.2 (List.mem_map.2 ⟨(name, v), hmem, rfl⟩)
        have hother : name ≠ m.1 := by
          rintro rfl
          rw [List.map_cons, List.count_cons_self] at honce
          omega
        obtain ⟨t', htree, hspells'⟩ := ih hmem (by simpa [hother.symm] using honce)
        have hskip : Fields.tree? ((m.1, t) :: fields) name = Fields.tree? fields name := by
          simp [Fields.tree?, List.lookup_cons, beq_eq_false_iff_ne.2 hother]
        exact ⟨t', hskip.trans htree, hspells'⟩

/-- The fields that the text of an object gives to a record. -/
structure Given (declared : List String) (members : Members) (t : Tree) (fields : Fields) :
    Prop where
  spells : Spells (Value.object members).chars t
  fields? : t.fields? declared = some fields
  names : fields.map (·.1) = members.map (·.1)
  tree? : ∀ m ∈ members, m.1 ∈ declared → ∃ t', fields.tree? m.1 = some t' ∧ Spells m.2.chars t'

/-- An object in which each declared field is written at most once gives a record. -/
theorem exists_given {declared : List String} (h : ∀ m ∈ members, ∃ t, Spells m.2.chars t)
    (honce : ∀ name ∈ declared, (members.map (·.1)).count name ≤ 1) :
    ∃ t fields, Given declared members t fields := by
  obtain ⟨written, hwritten⟩ := Spells.exists_written h
  obtain ⟨fields, hnamed, hnames, hfields⟩ := exists_named hwritten
  have hgiven : givenOnce declared fields = true := by rwa [givenOnce_iff, hnames]
  exact ⟨.object written, fields, {
    spells := .object hwritten
    fields? := by simp [Tree.fields?, hnamed, hgiven]
    names := hnames
    tree? := fun m hm hdeclared => exists_tree?_of_mem hfields hm (honce m.1 hdeclared) }⟩

theorem exists_given_of_nodup (declared : List String)
    (h : ∀ m ∈ members, ∃ t, Spells m.2.chars t) (hnodup : (members.map (·.1)).Nodup) :
    ∃ t fields, Given declared members t fields :=
  exists_given h fun name _ => List.nodup_iff_count_le_one.1 hnodup name

namespace Given

variable {declared : List String} {t : Tree}

theorem ofText? (h : Given declared members t fields) :
    Tree.ofText? (Value.object members).text = some t := Tree.ofText?_ofList h.spells

/-- A value that reads back is found. -/
theorem value? (h : Given declared members t fields) {m : String × Value} (hm : m ∈ members)
    (hdeclared : m.1 ∈ declared) (hreads : m.2.ReadsBack depthLimit) :
    fields.value? m.1 = some m.2 := by
  obtain ⟨t', htree, hspells⟩ := h.tree? m hm hdeclared
  have hvalue : t'.value? = some m.2 := hreads.valueWithin?_of_spells hspells
  simp [Fields.value?, htree, hvalue]

theorem tree?_eq_none (h : Given declared members t fields) (name : String)
    (hname : name ∉ members.map (·.1)) : fields.tree? name = none := by
  rw [← h.names] at hname
  refine List.lookup_eq_none_iff.2 fun f hf => bne_iff_ne.2 ?_
  rintro rfl
  exact hname (List.mem_map_of_mem hf)

end Given

/-- A text in which each declared field is written at most once gives a record, with the values that
were written. -/
theorem exists_fields_text {declared : List String}
    (h : ∀ m ∈ members, m.2.ReadsBack depthLimit)
    (honce : ∀ name ∈ declared, (members.map (·.1)).count name ≤ 1) :
    ∃ t fields, Tree.ofText? (Value.object members).text = some t ∧
      t.fields? declared = some fields ∧
      ∀ m ∈ members, m.1 ∈ declared → fields.value? m.1 = some m.2 := by
  obtain ⟨t, fields, hgiven⟩ := exists_given (fun m hm => (h m hm).spells) honce
  exact ⟨t, fields, hgiven.ofText?, hgiven.fields?, fun m hm hdeclared =>
    hgiven.value? hm hdeclared (h m hm)⟩

/-- A text in which a declared field is written twice gives none. -/
theorem exists_repeated_text {declared : List String} {name : String}
    (h : ∀ m ∈ members, ∃ levels, m.2.ReadsBack levels) (hdeclared : name ∈ declared)
    (htwice : 2 ≤ (members.map (·.1)).count name) :
    ∃ t, Tree.ofText? (Value.object members).text = some t ∧ t.fields? declared = none := by
  obtain ⟨written, hwritten⟩ := Spells.exists_written fun m hm =>
    (h m hm).elim fun _ hreads => hreads.spells
  obtain ⟨fields, hnamed, hnames, -⟩ := exists_named hwritten
  have hgiven : ¬givenOnce declared fields = true := by
    rw [givenOnce_iff, hnames]
    intro honce
    have hcount := honce name hdeclared
    omega
  refine ⟨.object written, ?_, by simp [Tree.fields?, hnamed, hgiven]⟩
  exact Tree.ofText?_ofList (.object hwritten)

end MeshLight.Json
