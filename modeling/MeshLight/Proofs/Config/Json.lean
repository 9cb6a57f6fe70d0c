import MeshLight.Config.Json
import MeshLight.Proofs.Json.Record

/-!
# MeshLight.Proofs.Config.Json

A configuration that is written as a JSON record reads back, whether or not it can be used. The
order of its members does not matter, nor do strings under other names; but no member may be written
twice (`ofText?_written`).
-/

namespace MeshLight

open MeshLight.Json

namespace Config

variable {c : Config}

/-- A configuration is found where its members are. -/
theorem ofValues?_of_members {find : String → Option Value}
    (h : ∀ m ∈ c.members, find m.1 = some m.2) : ofValues? find = some c := by
  simp only [members, List.forall_mem_cons] at h
  obtain ⟨h1, h2, h3, h4, h5, h6, h7, h8, h9, h10, h11, h12, h13, h14, h15, h16, -⟩ := h
  have hword {name : String} {n : UInt32} (hn : find name = some (.int n.toNat)) :
      (find name >>= fun v => v.uint32?) = some n := bind_of_some hn (Value.uint32?_toNat n)
  have htext {capacity : Nat} (t : ShortText capacity) := Value.shortText?_text t
  -- one field after the other, in declared order
  unfold ofValues?
  refine bind_of_some (hword h1) (bind_of_some (hword h2) ?_)
  refine bind_of_some h3 (bind_of_some rfl (bind_of_some (hword h4) ?_))
  refine bind_of_some (hword h5) (bind_of_some (hword h6) (bind_of_some (hword h7) ?_))
  refine bind_of_some (hword h8) (bind_of_some (hword h9) ?_)
  refine bind_of_some h10 (bind_of_some (Value.uint16?_toNat _) ?_)
  refine bind_of_some h11 (bind_of_some (htext _) (bind_of_some (hword h12) ?_))
  refine bind_of_some (hword h13) (bind_of_some (hword h14) ?_)
  refine bind_of_some h15 (bind_of_some (htext _) ?_)
  exact bind_of_some h16 (bind_of_some (htext _) rfl)

/-- Every member of a configuration is a string, a flag, or an integer of 32 bits at most. -/
theorem plain_members (c : Config) (levels : Nat) : ∀ m ∈ c.members, m.2.Plain levels := by
  simp [members, Value.Plain.uint32, Value.Plain.uint16, Value.Plain.bool, Value.Plain.string]

theorem nodup_fieldNames : fieldNames.Nodup := by decide

/-! ## members in any order -/

/-- Members that are those of the configuration, in any order, and others between them. -/
theorem ofText?_of_perm {written : Members}
    (hmembers : (written.filter (·.1 ∈ fieldNames)).Perm c.members)
    (hothers : ∀ m ∈ written, m.1 ∉ fieldNames → m.2.ReadsBack depthLimit) :
    ofText? (Value.object written).text = some c := by
  have hmem {m : String × Value} : m ∈ written ∧ m.1 ∈ fieldNames ↔ m ∈ c.members := by
    rw [← hmembers.mem_iff, List.mem_filter]
    simp
  have hreads : ∀ m ∈ written, m.2.ReadsBack depthLimit := by
    intro m hm
    by_cases hname : m.1 ∈ fieldNames
    · exact (c.plain_members _ m (hmem.1 ⟨hm, hname⟩)).readsBack
    · exact hothers m hm hname
  have honce : ∀ name ∈ fieldNames, (written.map (·.1)).count name ≤ 1 := by
    intro name hname
    have hcount : (written.map (·.1)).count name = fieldNames.count name := by
      have hnames : fieldNames = c.members.map (·.1) := rfl
      rw [hnames, ← (hmembers.map _).count_eq, List.count_eq_countP, List.count_eq_countP,
        List.countP_map, List.countP_map, List.countP_filter]
      refine List.countP_congr fun m _ => ?_
      have hknown : m.1 = name → m.1 ∈ fieldNames := fun heq => heq ▸ hname
      simpa using hknown
    rw [hcount]
    exact List.nodup_iff_count_le_one.1 nodup_fieldNames name
  obtain ⟨t, fields, htree, hfields, hvalues⟩ := exists_fields_text hreads honce
  have hfound : ofValues? fields.value? = some c := ofValues?_of_members fun m hm => by
    obtain ⟨hwritten, hname⟩ := hmem.2 hm
    exact hvalues m hwritten hname
  simp [ofText?, htree, ofTree?, hfields, hfound]

/-- A configuration that is written as JSON text reads back, whether or not it can be used: in
whatever order its members are written, and whatever strings are written under other names. A text
that repeats one of its names cannot be read. -/
theorem ofText?_written (c : Config) :
    ofText? c.text = some c ∧
    (∀ written : Members, (written.filter (·.1 ∈ fieldNames)).Perm c.members →
      (∀ m ∈ written, m.1 ∉ fieldNames → ∃ s, m.2 = .string s) →
      ofText? (Value.object written).text = some c) ∧
    ∀ written : Members, (∀ m ∈ written, ∃ levels, m.2.Plain levels) →
      ∀ name ∈ fieldNames, 2 ≤ (written.map (·.1)).count name →
      ofText? (Value.object written).text = none := by
  refine ⟨?_, fun written hmembers hothers => ?_, fun written hplain name hname htwice => ?_⟩
  · have hown : c.members.filter (·.1 ∈ fieldNames) = c.members := rfl
    refine ofText?_of_perm (by rw [hown]) fun m hm _ =>
      (c.plain_members _ m hm).readsBack
  · refine ofText?_of_perm hmembers fun m hm hname => ?_
    obtain ⟨s, hs⟩ := hothers m hm hname
    rw [hs]
    exact .string _ s
  · obtain ⟨t, htree, hfields⟩ := exists_repeated_text (fun m hm => by
      obtain ⟨levels, h⟩ := hplain m hm
      exact ⟨levels, h.readsBack⟩) hname htwice
    simp [ofText?, htree, ofTree?, hfields]

/-- A member of another name, whose value has to be escaped. -/
def noteMember : String × Value := ("note", .string "\"\\\u0001\u00e4")

/-- The default configuration, written from its last member to its first after such a member, and
with a name that is written twice. -/
theorem ofText?_written_default :
    ((noteMember :: default.members.reverse).filter (·.1 ∈ fieldNames)).Perm default.members ∧
    ofText? (Value.object (noteMember :: default.members.reverse)).text = some default ∧
    2 ≤ ((("auto_join", .null) :: default.members : Members).map (·.1)).count "auto_join" ∧
    ofText? (Value.object (("auto_join", .null) :: default.members)).text = none := by
  obtain ⟨-, hread, hrepeated⟩ := ofText?_written default
  have hmembers : ((noteMember :: default.members.reverse).filter
      (·.1 ∈ fieldNames)).Perm default.members := List.reverse_perm default.members
  have hothers : ∀ m ∈ noteMember :: default.members.reverse, m.1 ∉ fieldNames →
      ∃ s, m.2 = .string s := by
    intro m hm hname
    obtain rfl | hm := List.mem_cons.1 hm
    · exact ⟨_, rfl⟩
    · exact absurd (List.mem_map_of_mem (List.mem_reverse.1 hm)) hname
  have htwice : 2 ≤ ((("auto_join", .null) :: default.members : Members).map (·.1)).count
      "auto_join" := by decide
  have hplain : ∀ m ∈ (("auto_join", .null) :: default.members : Members),
      ∃ levels, m.2.Plain levels := by
    intro m hm
    obtain rfl | hm := List.mem_cons.1 hm
    · exact ⟨0, .null 0⟩
    · exact ⟨0, default.plain_members 0 m hm⟩
  exact ⟨hmembers, hread _ hmembers hothers, htwice,
    hrepeated _ hplain "auto_join" (by decide) htwice⟩

end Config

end MeshLight
