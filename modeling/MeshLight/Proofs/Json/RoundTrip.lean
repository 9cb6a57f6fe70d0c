import MeshLight.Proofs.Json.Spelling

/-!
# MeshLight.Proofs.Json.RoundTrip

Values that are written and read back. Scalars are, and so are arrays and objects of such values,
each of which takes one of the levels that the reader has (`Value.ReadsBack`). An object comes back
with its members in the order of their keys, so it has to be in this order itself.
-/

namespace MeshLight.Json

/-! ## order of keys -/

namespace Members

/-- The keys come in order, and so each of them once. -/
def Ordered (members : Members) : Prop := members.Pairwise fun m m' => m.1 < m'.1

instance (members : Members) : Decidable members.Ordered := by
  unfold Ordered
  infer_instance

theorem put_of_last {key : String} {value : Value} {members : Members}
    (h : ∀ m ∈ members, m.1 < key) : put key value members = members ++ [(key, value)] := by
  induction members with
  | nil => rfl
  | cons m members ih =>
      have hless : m.1 < key := h m List.mem_cons_self
      have hne : key ≠ m.1 := fun heq => String.lt_irrefl _ (heq ▸ hless)
      have hnot : ¬key < m.1 := String.lt_asymm hless
      rw [put, if_neg hne, if_neg hnot, ih fun m' hm' => h m' (List.mem_cons_of_mem m hm')]
      rfl

/-- Members in order are not moved. -/
theorem ofList_of_ordered {members : Members} (h : members.Ordered) : ofList members = members := by
  have hput : ∀ rest before : Members, Ordered (before ++ rest) →
      rest.foldl (fun ordered m => put m.1 m.2 ordered) before = before ++ rest := by
    intro rest
    induction rest with
    | nil => simp
    | cons m rest ih =>
        intro before hordered
        have hlast : ∀ m' ∈ before, m'.1 < m.1 := fun m' hm' =>
          (List.pairwise_append.1 hordered).2.2 m' hm' m List.mem_cons_self
        have hmore := ih (before ++ [m]) (by simpa using hordered)
        simpa [put_of_last hlast] using hmore
  exact hput members [] h

end Members

/-! ## values that are read back -/

namespace Value

/-- The text of the value is read as that value, if there are as many levels for arrays and
objects. -/
def ReadsBack (levels : Nat) (v : Value) : Prop :=
  ∃ t, Spells v.chars t ∧ t.valueWithin? levels = some v

namespace ReadsBack

variable {levels : Nat}

theorem null (levels : Nat) : Value.null.ReadsBack levels := by
  have hlexeme : Lexeme Value.null.chars .null := lexeme_word rfl (List.cons_ne_nil _ _)
  exact ⟨.null, .of_lexeme hlexeme fun _ => rfl, by simp [Tree.valueWithin?]⟩

theorem bool (levels : Nat) (b : Bool) : (Value.bool b).ReadsBack levels := by
  have hlexeme : Lexeme (Value.bool b).chars (.bool b) := by
    cases b <;> exact lexeme_word rfl (List.cons_ne_nil _ _)
  exact ⟨.bool b, .of_lexeme hlexeme fun _ => rfl, by simp [Tree.valueWithin?]⟩

theorem int {i : Int} (levels : Nat) (hlow : -0x8000000000000000 ≤ i)
    (hhigh : i < 0x10000000000000000) : (Value.int i).ReadsBack levels := by
  refine ⟨.number (Number.textOf i), .of_lexeme (lexeme_int i) fun _ => rfl, ?_⟩
  simp [Tree.valueWithin?, Number.ofText?_textOf hlow hhigh, Value.ofNumber]

theorem string (levels : Nat) (s : String) : (Value.string s).ReadsBack levels := by
  obtain ⟨units, hlexeme, htext⟩ := exists_lexeme_quoted s
  exact ⟨.string units, .of_lexeme hlexeme fun _ => rfl, by simp [Tree.valueWithin?, htext]⟩

theorem array {items : List Value} (h : ∀ v ∈ items, v.ReadsBack levels) :
    (Value.array items).ReadsBack (levels + 1) := by
  have hitems : ∃ ts, List.Forall₂ (fun v t => Spells v.chars t) items ts ∧
      itemsWithin? levels ts = some items := by
    induction items with
    | nil => exact ⟨[], .nil, by simp [itemsWithin?]⟩
    | cons v items ih =>
        obtain ⟨t, hspells, hvalue⟩ := h v List.mem_cons_self
        obtain ⟨ts, hmore, hvalues⟩ := ih fun v' hv' => h v' (List.mem_cons_of_mem v hv')
        exact ⟨t :: ts, .cons hspells hmore, by simp [itemsWithin?, hvalue, hvalues]⟩
  obtain ⟨ts, hspells, hvalues⟩ := hitems
  exact ⟨.array ts, .array hspells, by simp [Tree.valueWithin?, hvalues]⟩

theorem spells {v : Value} (h : v.ReadsBack levels) : ∃ t, Spells v.chars t :=
  h.imp fun _ ht => ht.1

theorem valueWithin?_of_spells {v : Value} {t : Tree} (h : v.ReadsBack levels)
    (hspells : Spells v.chars t) : t.valueWithin? levels = some v := by
  obtain ⟨t', hspells', hvalue⟩ := h
  rwa [hspells.unique hspells']

theorem object {members : Members} (hordered : members.Ordered)
    (h : ∀ m ∈ members, m.2.ReadsBack levels) : (Value.object members).ReadsBack (levels + 1) := by
  obtain ⟨written, hwritten⟩ := Spells.exists_written fun m hm => (h m hm).spells
  have hvalues : membersWithin? levels written = some members := by
    clear hordered
    induction hwritten with
    | nil => simp [membersWithin?]
    | @cons m w members written hfirst _ ih =>
        have hvalue := (h m List.mem_cons_self).valueWithin?_of_spells hfirst.value
        have hmore := ih fun m' hm' => h m' (List.mem_cons_of_mem m hm')
        simp [membersWithin?, hfirst.key, hvalue, hmore]
  refine ⟨.object written, .object hwritten, ?_⟩
  simp [Tree.valueWithin?, hvalues, Members.ofList_of_ordered hordered]

end ReadsBack

/-! ## values without doubles -/

/-- A value without doubles, with integers of 64 bits, signed or unsigned, and with the members of
every object in the order of their keys, whose arrays and objects are nested at most so many levels
deep. -/
inductive Plain : Nat → Value → Prop where
  | null (levels : Nat) : Plain levels .null
  | bool (levels : Nat) (b : Bool) : Plain levels (.bool b)
  | int (levels : Nat) {i : Int} (hlow : -0x8000000000000000 ≤ i)
      (hhigh : i < 0x10000000000000000) : Plain levels (.int i)
  | string (levels : Nat) (s : String) : Plain levels (.string s)
  | array {levels : Nat} {items : List Value} (hitems : ∀ v ∈ items, Plain levels v) :
      Plain (levels + 1) (.array items)
  | object {levels : Nat} {members : Members} (hordered : members.Ordered)
      (hmembers : ∀ m ∈ members, Plain levels m.2) : Plain (levels + 1) (.object members)

theorem Plain.uint32 (levels : Nat) (n : UInt32) : (Value.int n.toNat).Plain levels := by
  have hless := n.toNat_lt
  exact .int levels (by omega) (by omega)

theorem Plain.uint16 (levels : Nat) (n : UInt16) : (Value.int n.toNat).Plain levels := by
  have hless := n.toNat_lt
  exact .int levels (by omega) (by omega)

theorem Plain.readsBack {levels : Nat} {v : Value} (h : Plain levels v) : v.ReadsBack levels := by
  induction h with
  | null levels => exact .null levels
  | bool levels b => exact .bool levels b
  | int levels hlow hhigh => exact .int levels hlow hhigh
  | string levels s => exact .string levels s
  | array _ ih => exact .array ih
  | object hordered _ ih => exact .object hordered ih

theorem ofText?_text {v : Value} (h : v.ReadsBack depthLimit) : Value.ofText? v.text = some v := by
  obtain ⟨t, hspells, hvalue⟩ := h
  simp [Value.ofText?, text, Tree.ofText?_ofList hspells, Tree.value?, hvalue]

end Value

end MeshLight.Json
