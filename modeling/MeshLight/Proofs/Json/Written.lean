import Mathlib.Data.List.Forall2
import MeshLight.Json.Value

/-!
# MeshLight.Proofs.Json.Written

The members of an object as they were written, and as they are read. Any key and any value that
cannot be read spoil the whole object. Otherwise what stands under a key is what was written last
under it (`get?_of_membersWithin?`).
-/

namespace MeshLight.Json

/-- What is written last under a key. -/
def written? (key : String) (members : List (List StringUnit × Tree)) : Option Tree :=
  members.reverse.findSome? fun m => if text? m.1 = some key then some m.2 else none

/-- A member that can be read, with so many levels left. -/
def Readable (levels : Nat) (m : List StringUnit × Tree) : Prop :=
  (text? m.1).isSome ∧ (m.2.valueWithin? levels).isSome

variable {levels : Nat} {members : List (List StringUnit × Tree)} {values : Members} {key : String}
  {t : Tree}

theorem membersWithin?_eq_some_iff : membersWithin? levels members = some values ↔
    List.Forall₂ (fun w m => text? w.1 = some m.1 ∧ w.2.valueWithin? levels = some m.2)
      members values := by
  induction members generalizing values with
  | nil => simp [membersWithin?, eq_comm]
  | cons w members ih =>
      simp only [membersWithin?, Option.bind_eq_bind, Option.bind_eq_some_iff, ih,
        List.forall₂_cons_left_iff, Option.some.injEq]
      constructor
      · rintro ⟨k, hkey, v, hvalue, rest, hrest, rfl⟩
        exact ⟨_, _, ⟨hkey, hvalue⟩, hrest, rfl⟩
      · rintro ⟨⟨k, v⟩, rest, ⟨hkey, hvalue⟩, hrest, rfl⟩
        exact ⟨k, hkey, v, hvalue, rest, hrest, rfl⟩

theorem isSome_membersWithin?_iff :
    (membersWithin? levels members).isSome ↔ ∀ m ∈ members, Readable levels m := by
  induction members with
  | nil => simp [membersWithin?]
  | cons w members ih =>
      rw [List.forall_mem_cons, ← ih, Readable, membersWithin?]
      cases text? w.1 <;> cases w.2.valueWithin? levels <;>
        cases membersWithin? levels members <;> simp

/-- Of several members with one key the last counts. -/
theorem Members.get?_ofList (key : String) (members : Members) :
    (ofList members).get? key = members.reverse.lookup key := by
  have hput : ∀ rest before : Members,
      get? key (rest.foldl (fun ordered m => put m.1 m.2 ordered) before) =
        (rest.reverse.lookup key).or (get? key before) := by
    intro rest
    induction rest with
    | nil => exact fun before => rfl
    | cons m rest ih =>
        intro before
        have hone : (if key = m.1 then some m.2 else get? key before) =
            (List.lookup key [m]).or (get? key before) := by
          rw [← get?_cons key m.1 m.2, get?, List.lookup_cons, List.lookup_cons]
          cases key == m.1 <;> rfl
        rw [List.foldl_cons, ih, get?_put, hone, List.reverse_cons, List.lookup_append,
          Option.or_assoc]
  exact (hput members []).trans (Option.or_none ..)

/-- What stands under a key is read from what was written last under it. -/
theorem get?_of_membersWithin? (h : membersWithin? levels members = some values) (key : String) :
    (Members.ofList values).get? key = (written? key members).bind (Tree.valueWithin? levels) := by
  rw [Members.get?_ofList, written?]
  have hread := List.forall₂_reverse_iff.2 (membersWithin?_eq_some_iff.1 h)
  generalize members.reverse = members, values.reverse = values at hread
  induction hread with
  | nil => rfl
  | @cons w m members values hfirst _ ih =>
      obtain ⟨hkey, hvalue⟩ := hfirst
      rw [List.findSome?_cons, hkey, List.lookup_cons, ih]
      by_cases hsame : m.1 = key
      · simp [hsame, hvalue]
      · have hother : (key == m.1) = false := beq_eq_false_iff_ne.2 (Ne.symm hsame)
        simp [hsame, hother]

/-- What is written under a key is the value of a member. -/
theorem exists_mem_of_written? (h : written? key members = some t) : ∃ m ∈ members, m.2 = t := by
  obtain ⟨m, hm, hsome⟩ := List.exists_of_findSome?_eq_some h
  split at hsome
  · exact ⟨m, List.mem_reverse.1 hm, Option.some.inj hsome⟩
  · cases hsome

theorem Members.get?_without {k : String} (members : Members) (h : k ≠ key) :
    get? k (without key members) = get? k members := by
  induction members with
  | nil => rfl
  | cons m members ih =>
      rw [without] at ih ⊢
      by_cases hm : m.1 = key
      · rw [List.filter_cons_of_neg (by simpa using hm), ih, get?_cons k m.1 m.2,
          if_neg (hm ▸ h)]
      · rw [List.filter_cons_of_pos (by simpa using hm), get?_cons k m.1 m.2,
          get?_cons k m.1 m.2, ih]

/-! ## distinct keys -/

variable {units : String → List StringUnit} {entries : List (String × Tree)}

theorem written?_map (hunits : ∀ key, text? (units key) = some key)
    (entries : List (String × Tree)) (key : String) :
    written? key (entries.map fun e => (units e.1, e.2)) = entries.reverse.lookup key := by
  rw [written?, ← List.map_reverse, List.findSome?_map, List.lookup_eq_findSome?]
  congr 1
  funext e
  by_cases hsame : e.1 = key
  · simp [hunits, hsame]
  · simp [hunits, hsame, Ne.symm hsame]

/-- Of members with distinct keys each is what is written last under its key. -/
theorem written?_of_mem (hunits : ∀ key, text? (units key) = some key)
    (hdistinct : (entries.map Prod.fst).Nodup) (h : (key, t) ∈ entries) :
    written? key (entries.map fun e => (units e.1, e.2)) = some t := by
  rw [written?_map hunits]
  obtain ⟨before, after, rfl⟩ := List.append_of_mem h
  refine List.lookup_eq_some_iff.2 ⟨after.reverse, before.reverse, by simp, fun e he => ?_⟩
  rw [List.mem_reverse] at he
  simp only [List.map_append, List.map_cons, List.nodup_append, List.nodup_cons] at hdistinct
  exact bne_iff_ne.2 fun hsame => hdistinct.2.1.1 (hsame ▸ List.mem_map_of_mem he)

theorem written?_of_not_mem (hunits : ∀ key, text? (units key) = some key)
    (h : key ∉ entries.map Prod.fst) :
    written? key (entries.map fun e => (units e.1, e.2)) = none := by
  rw [written?_map hunits]
  refine List.lookup_eq_none_iff.2 fun e he => ?_
  exact bne_iff_ne.2 fun hsame => h (hsame ▸ List.mem_map_of_mem (List.mem_reverse.1 he))

end MeshLight.Json
