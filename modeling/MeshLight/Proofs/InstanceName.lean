import MeshLight.Identity

/-!
# MeshLight.Proofs.InstanceName

The name under which a node advertises its service: a label and the sixteen digits of the node's
address, in at most 48 bytes. The label is cut by characters, but the digits are added all or none.
So the name is the longest part that fits of the label with the digits (`LongestFit`) unless the
label takes 33 to 47 bytes, and it tells nodes apart exactly if the label takes at most 32
(`instanceName_longestFit_iff`). A label of forty bytes is left alone though eight digits would fit
(`instanceName_without_digits`).
-/

namespace MeshLight

/-! ## digits -/

theorem utf8Size_digitChar : ∀ d < 16, (Nat.digitChar d).utf8Size = 1 := by decide

theorem size_ofList_cons (c : Char) (cs : List Char) :
    (String.ofList (c :: cs)).utf8ByteSize = c.utf8Size + (String.ofList cs).utf8ByteSize := by
  rw [String.ofList_cons, String.utf8ByteSize_append, String.utf8ByteSize_singleton]

/-- Characters of one byte take as many bytes as they are. -/
theorem size_ofList_of_forall {cs : List Char} (h : ∀ c ∈ cs, c.utf8Size = 1) :
    (String.ofList cs).utf8ByteSize = cs.length := by
  induction cs with
  | nil => rfl
  | cons c cs ih =>
      rw [size_ofList_cons, h c (List.mem_cons_self ..),
        ih fun d hd => h d (List.mem_cons_of_mem c hd), List.length_cons, Nat.add_comm]

theorem utf8Size_of_mem_hex {bytes : Bytes} {c : Char} (hc : c ∈ (hex bytes).toList) :
    c.utf8Size = 1 := by
  rw [hex, String.toList_ofList] at hc
  obtain ⟨b, -, hc⟩ := List.mem_flatMap.1 hc
  have hb : b.toNat < 256 := b.toNat_lt
  obtain rfl | hc := List.mem_cons.1 hc
  · exact utf8Size_digitChar _ (by omega)
  · cases List.mem_singleton.1 hc
    exact utf8Size_digitChar _ (by omega)

/-- A byte takes two bytes of text. -/
theorem size_hex (bytes : Bytes) : (hex bytes).utf8ByteSize = 2 * bytes.length := by
  have hlength : (hex bytes).toList.length = 2 * bytes.length := by
    rw [hex, String.toList_ofList]
    induction bytes with
    | nil => rfl
    | cons b bytes ih =>
        rw [List.flatMap_cons, List.length_append, ih, List.length_cons]
        show 2 + 2 * bytes.length = _
        omega
  rw [← hlength, ← size_ofList_of_forall fun c hc => utf8Size_of_mem_hex hc, String.ofList_toList]

namespace HardwareAddress

variable {a b : HardwareAddress}

theorem size_text (a : HardwareAddress) : a.text.utf8ByteSize = 16 := by
  rw [text, size_hex, a.length_eq]

/-- An address is known by its digits. -/
theorem text_injective (h : a.text = b.text) : a = b := by
  have hbytes : a.bytes = b.bytes := Option.some.inj <| by
    rw [← ofHex?_hex, ← ofHex?_hex b.bytes, ← text, ← text, h]
  obtain ⟨bytes, hlength⟩ := a
  cases hbytes
  rfl

end HardwareAddress

/-! ## what fits -/

/-- A text is the longest part of another, from its start and by whole characters, that takes at
most so many bytes. -/
structure LongestFit (capacity : Nat) (whole part : String) : Prop where
  isPrefix : part.toList <+: whole.toList
  size_le : part.utf8ByteSize ≤ capacity
  longest : ∀ other : String, other.toList <+: whole.toList → other.utf8ByteSize ≤ capacity →
    other.toList <+: part.toList

section fitting

variable {room : Nat} {cs ds : List Char}

theorem prefix_fitting (hstart : ds <+: cs) (hsize : (String.ofList ds).utf8ByteSize ≤ room) :
    ds <+: fitting room cs := by
  induction cs generalizing ds room with
  | nil => exact List.prefix_nil.1 hstart ▸ List.nil_prefix
  | cons c cs ih =>
      cases ds with
      | nil => exact List.nil_prefix
      | cons d ds =>
          obtain ⟨rfl, hrest⟩ := List.cons_prefix_cons.1 hstart
          rw [size_ofList_cons] at hsize
          rw [fitting, if_pos (by omega)]
          exact List.cons_prefix_cons.2 ⟨rfl, ih hrest (by omega)⟩

/-- What fits is what fits behind all of the first part, if that fits. -/
theorem fitting_append_of_le (h : (String.ofList cs).utf8ByteSize ≤ room) :
    fitting room (cs ++ ds) =
      cs ++ fitting (room - (String.ofList cs).utf8ByteSize) ds := by
  induction cs generalizing room with
  | nil => rfl
  | cons c cs ih =>
      rw [size_ofList_cons] at h
      rw [List.cons_append, fitting, if_pos (by omega), ih (by omega), size_ofList_cons,
        Nat.sub_sub, List.cons_append]

/-- Nothing of the second part fits if the first part does not. -/
theorem fitting_append_of_lt (h : room < (String.ofList cs).utf8ByteSize) :
    fitting room (cs ++ ds) = fitting room cs := by
  induction cs generalizing room with
  | nil => exact absurd h (Nat.not_lt_zero _)
  | cons c cs ih =>
      rw [size_ofList_cons] at h
      rw [List.cons_append, fitting, fitting]
      split
      · rw [ih (by omega)]
      · rfl

theorem fitting_of_le (h : (String.ofList cs).utf8ByteSize ≤ room) : fitting room cs = cs := by
  have happend : fitting room (cs ++ []) = cs ++ fitting _ [] := fitting_append_of_le h
  rwa [List.append_nil, fitting, List.append_nil] at happend

/-- What does not fit leaves less room than the largest character takes. -/
theorem lt_size_fitting (h : room < (String.ofList cs).utf8ByteSize) :
    room < (String.ofList (fitting room cs)).utf8ByteSize + 4 := by
  induction cs generalizing room with
  | nil => exact absurd h (Nat.not_lt_zero _)
  | cons c cs ih =>
      rw [size_ofList_cons] at h
      rw [fitting]
      split
      · next hfits =>
          have hrest : room - c.utf8Size < (String.ofList cs).utf8ByteSize := by omega
          have hleft := ih hrest
          rw [size_ofList_cons]
          omega
      · have hsize := c.utf8Size_le_four
        omega

/-- Of characters of one byte so many fit as there is room for. -/
theorem fitting_eq_take (h : ∀ c ∈ cs, c.utf8Size = 1) : fitting room cs = cs.take room := by
  induction cs generalizing room with
  | nil => exact List.take_nil.symm
  | cons c cs ih =>
      have hrest : ∀ d ∈ cs, d.utf8Size = 1 := fun d hd => h d (List.mem_cons_of_mem c hd)
      rw [fitting, h c (List.mem_cons_self ..), ih hrest]
      cases room with
      | zero => rfl
      | succ room => rfl

end fitting

theorem longestFit_iff {capacity : Nat} {whole part : String} :
    LongestFit capacity whole part ↔ part = String.ofList (fitting capacity whole.toList) := by
  constructor
  · intro h
    have hfits : part.toList <+: fitting capacity whole.toList :=
      prefix_fitting h.isPrefix (by rw [String.ofList_toList]; exact h.size_le)
    have hlongest := h.longest (String.ofList (fitting capacity whole.toList))
      (by rw [String.toList_ofList]; exact fitting_isPrefix ..) (size_fitting_le ..)
    rw [String.toList_ofList] at hlongest
    rw [← hfits.eq_of_length_le hlongest.length_le, String.ofList_toList]
  · rintro rfl
    refine ⟨?_, size_fitting_le .., fun other hstart hsize => ?_⟩
    · rw [String.toList_ofList]
      exact fitting_isPrefix ..
    · rw [String.toList_ofList]
      exact prefix_fitting hstart (by rwa [String.ofList_toList])

/-! ## the name -/

section instanceName

variable {label : String} {a : HardwareAddress}

/-- A label that leaves room for all digits is followed by them. -/
theorem instanceName_of_le (h : label.utf8ByteSize ≤ 32) (a : HardwareAddress) :
    instanceName label a = label ++ a.text := by
  have hlabel : fitting instanceNameCapacity label.toList = label.toList :=
    fitting_of_le (by rw [String.ofList_toList, instanceNameCapacity]; omega)
  rw [instanceName, hlabel, String.ofList_toList, appendFitting, a.size_text,
    instanceNameCapacity, if_pos (by omega)]

/-- Any other label has no digits behind it. -/
theorem instanceName_of_lt (h : 32 < label.utf8ByteSize) (a : HardwareAddress) :
    instanceName label a = String.ofList (fitting instanceNameCapacity label.toList) := by
  have hroom : 32 < (String.ofList (fitting instanceNameCapacity label.toList)).utf8ByteSize := by
    by_cases hfits : label.utf8ByteSize ≤ instanceNameCapacity
    · rwa [fitting_of_le (by rwa [String.ofList_toList]), String.ofList_toList]
    · have hlt : instanceNameCapacity < (String.ofList label.toList).utf8ByteSize := by
        rw [String.ofList_toList]
        omega
      have hleft := lt_size_fitting hlt
      rw [instanceNameCapacity] at hleft ⊢
      omega
  have hfull : ¬(String.ofList (fitting instanceNameCapacity label.toList)).utf8ByteSize + 16 ≤
      instanceNameCapacity := by
    rw [instanceNameCapacity] at hroom ⊢
    omega
  rw [instanceName, appendFitting, a.size_text, if_neg hfull]

/-- What fits of a label with the digits behind it. -/
theorem fitting_label_append_text (h : label.utf8ByteSize ≤ instanceNameCapacity)
    (a : HardwareAddress) :
    fitting instanceNameCapacity (label ++ a.text).toList =
      label.toList ++ a.text.toList.take (instanceNameCapacity - label.utf8ByteSize) := by
  have hdigits : ∀ c ∈ a.text.toList, c.utf8Size = 1 := fun c hc => utf8Size_of_mem_hex hc
  rw [String.toList_append, fitting_append_of_le (by rwa [String.ofList_toList]),
    String.ofList_toList, fitting_eq_take hdigits]

/-- The name is the longest part that fits unless some digits would fit, but not all of them. -/
theorem longestFit_instanceName_iff (label : String) (a : HardwareAddress) :
    LongestFit instanceNameCapacity (label ++ a.text) (instanceName label a) ↔
      label.utf8ByteSize ≤ 32 ∨ instanceNameCapacity ≤ label.utf8ByteSize := by
  have hcapacity : instanceNameCapacity = 48 := rfl
  rw [longestFit_iff]
  by_cases hall : label.utf8ByteSize ≤ 32
  · have hfits : (String.ofList (label ++ a.text).toList).utf8ByteSize ≤ instanceNameCapacity := by
      rw [String.ofList_toList, String.utf8ByteSize_append, a.size_text]
      omega
    rw [instanceName_of_le hall, fitting_of_le hfits, String.ofList_toList]
    exact ⟨fun _ => .inl hall, fun _ => rfl⟩
  rw [instanceName_of_lt (Nat.lt_of_not_le hall), String.ofList_inj]
  by_cases hlabel : label.utf8ByteSize ≤ instanceNameCapacity
  · -- the whole label fits, and as many digits as there is room for
    have htext : a.text.toList ≠ [] := fun hnil => by
      have hsize := a.size_text
      rw [String.toList_eq_nil_iff.1 hnil] at hsize
      cases hsize
    rw [fitting_label_append_text hlabel, fitting_of_le (by rwa [String.ofList_toList]),
      eq_comm, List.append_right_eq_self, List.take_eq_nil_iff]
    simp only [htext, or_false]
    omega
  · -- no digit fits where the label does not
    rw [String.toList_append, fitting_append_of_lt (by rw [String.ofList_toList]; omega)]
    exact ⟨fun _ => .inr (by omega), fun _ => rfl⟩

/-- Names tell nodes apart only if there is room for all digits. -/
theorem injective_instanceName_iff (label : String) :
    Function.Injective (instanceName label) ↔ label.utf8ByteSize ≤ 32 := by
  constructor
  · refine fun hinjective => Nat.le_of_not_lt fun hlong => ?_
    have hsame : instanceName label ⟨List.replicate 8 0, rfl⟩ =
        instanceName label ⟨List.replicate 8 1, rfl⟩ := by
      rw [instanceName_of_lt hlong, instanceName_of_lt hlong]
    cases hinjective hsame
  · intro h a b hsame
    rw [instanceName_of_le h, instanceName_of_le h, String.append_right_inj] at hsame
    exact HardwareAddress.text_injective hsame

/-- The name is the longest part that fits of the label with the digits exactly if all digits fit
behind the label or none does; and it tells any two nodes apart exactly if all fit. -/
theorem instanceName_longestFit_iff (label : String) :
    (∀ a : HardwareAddress,
      LongestFit instanceNameCapacity (label ++ a.text) (instanceName label a) ↔
        label.utf8ByteSize ≤ 32 ∨ 48 ≤ label.utf8ByteSize) ∧
    (Function.Injective (instanceName label) ↔ label.utf8ByteSize ≤ 32) :=
  ⟨longestFit_instanceName_iff label, injective_instanceName_iff label⟩

/-- Behind a label of forty bytes there is room for eight digits, but the name is the label. -/
theorem instanceName_without_digits :
    let label := String.ofList (List.replicate 40 'x')
    let a : HardwareAddress := ⟨[0xaa, 0xbb, 0xcc, 0xdd, 0xee, 0xff, 0x00, 0x01], rfl⟩
    instanceName label a = label ∧
    LongestFit 48 (label ++ a.text) (label ++ "aabbccdd") ∧
    ¬LongestFit 48 (label ++ a.text) (instanceName label a) := by
  intro label a
  have hname : instanceName label a = label := by decide +kernel
  have hlongest : LongestFit 48 (label ++ a.text) (label ++ "aabbccdd") :=
    longestFit_iff.2 (by decide +kernel)
  refine ⟨hname, hlongest, fun hfit => ?_⟩
  rw [hname, longestFit_iff] at hfit
  exact absurd hfit (by decide +kernel)

end instanceName

end MeshLight
