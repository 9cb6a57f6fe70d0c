import MeshLight.Pending

/-!
# MeshLight.Proofs.Pending.Backlog

Pending requests by the order in which they came (`Backlog`): a list of those that wait, each with
its number, and how many have come so far. A request that comes goes to the end of the list, and the
oldest one makes room for it if need be. A token takes out the first request that waits under it and
leaves the others in their order. Whatever is inserted and taken out, the table of pending requests
answers as a backlog does and holds what it holds (`Pending.refines_backlog`).
-/

namespace MeshLight

/-! ## calls -/

/-- A request is inserted, or the one that waits under a token is taken out. -/
inductive PendingCall (α : Type) where
  | insert (item : α)
  | take (token : UInt32)

/-- The token under which a request waits from now on, or what was taken out. -/
inductive PendingReply (α : Type) where
  | token (token : UInt32)
  | item (found : Option α)
  deriving DecidableEq

namespace Pending

variable {capacity : Nat} {α : Type}

/-- Answers a call. -/
def step (p : Pending capacity α) : PendingCall α → PendingReply α × Pending capacity α
  | .insert item => (.token (p.insert item).1, (p.insert item).2)
  | .take token => (.item (p.take token).1, (p.take token).2)

/-- Answers calls one after the other. -/
def run : List (PendingCall α) → Pending capacity α → List (PendingReply α) × Pending capacity α
  | [], p => ([], p)
  | call :: calls, p =>
    let (reply, p) := p.step call
    let (replies, p) := run calls p
    (reply :: replies, p)

/-- The first request that waits under a token is taken out, and no other. -/
theorem take_of_first {next token : UInt32} {item : α} {front back : List (UInt32 × α)}
    (hfirst : ∀ e ∈ front, e.1 ≠ token) :
    (⟨next, front ++ (token, item) :: back⟩ : Pending capacity α).take token =
      (some item, ⟨next, front ++ back⟩) := by
  have hlookup : front.lookup token = none :=
    List.lookup_eq_none_iff.2 fun e he => bne_iff_ne.2 (hfirst e he).symm
  have herase := List.eraseP_append_right ((token, item) :: back)
    fun e he => show ¬decide (e.1 = token) = true from by simpa using hfirst e he
  rw [take_eq]
  simp only [List.lookup_append, hlookup, herase]
  simp

/-- Nothing is taken out under a token that no request waits under. -/
theorem take_of_forall_ne {token : UInt32} {p : Pending capacity α}
    (hnone : ∀ e ∈ p.entries, e.1 ≠ token) : p.take token = (none, p) := by
  rw [take_eq, List.lookup_eq_none_iff.2 fun e he => bne_iff_ne.2 (hnone e he).symm,
    List.eraseP_of_forall_not (by simpa using hnone)]

/-! ## tokens -/

/-- How many tokens there are. -/
def tokenCount : Nat := UInt32.size - 1

/-- The token of the request with a number, counted from zero. -/
def tokenOf (number : Nat) : UInt32 := UInt32.ofNat (number % tokenCount + 1)

theorem toNat_tokenOf (number : Nat) : (tokenOf number).toNat = number % tokenCount + 1 := by
  rw [tokenOf, UInt32.toNat_ofNat', Nat.mod_eq_of_lt]
  have := Nat.mod_lt number (show 0 < tokenCount by decide)
  have : tokenCount + 1 = 2 ^ 32 := by decide
  omega

theorem tokenOf_ne_zero (number : Nat) : tokenOf number ≠ 0 := by
  intro h
  have := congrArg UInt32.toNat h
  rw [toNat_tokenOf] at this
  exact absurd this (Nat.succ_ne_zero _)

/-- A token comes again after so many requests as there are tokens, and not before. -/
theorem tokenOf_eq_iff {number other : Nat} :
    tokenOf number = tokenOf other ↔ number % tokenCount = other % tokenCount := by
  rw [← UInt32.toNat_inj, toNat_tokenOf, toNat_tokenOf, Nat.add_right_cancel_iff]

theorem following_tokenOf (number : Nat) : following (tokenOf number) = tokenOf (number + 1) := by
  have hcount : tokenCount = 4294967295 := rfl
  have hnext : (tokenOf number + 1).toNat = (number % 4294967295 + 2) % 4294967296 := by
    rw [UInt32.toNat_add, toNat_tokenOf]
    rfl
  have hzero : tokenOf number + 1 = 0 ↔ (tokenOf number + 1).toNat = 0 := UInt32.toNat_inj.symm
  rw [hnext] at hzero
  rw [following, ← UInt32.toNat_inj, toNat_tokenOf, hcount]
  split
  · next hwraps =>
      rw [hzero] at hwraps
      show 1 = _
      omega
  · next hgoes =>
      rw [hzero] at hgoes
      rw [hnext]
      omega

end Pending

/-! ## backlog -/

/-- How many requests have come, and those of them that wait, each with its number, oldest first. -/
structure Backlog (α : Type) where
  arrived : Nat
  waiting : List (Nat × α)
  deriving DecidableEq

namespace Backlog

open Pending (tokenOf)

variable {capacity : Nat} {α : Type}

def initial : Backlog α := ⟨0, []⟩

/-- What a call does to a backlog of which at most `capacity` requests may wait, and its reply. -/
inductive Step (capacity : Nat) :
    Backlog α → PendingCall α → PendingReply α → Backlog α → Prop where
  | insert {arrived : Nat} {waiting : List (Nat × α)} (item : α)
      (hroom : waiting.length < capacity) :
      Step capacity ⟨arrived, waiting⟩ (.insert item) (.token (tokenOf arrived))
        ⟨arrived + 1, waiting ++ [(arrived, item)]⟩
  | replace {arrived : Nat} {oldest : Nat × α} {waiting : List (Nat × α)} (item : α)
      (hfull : (oldest :: waiting).length = capacity) :
      Step capacity ⟨arrived, oldest :: waiting⟩ (.insert item) (.token (tokenOf arrived))
        ⟨arrived + 1, waiting ++ [(arrived, item)]⟩
  | take {arrived number : Nat} {item : α} {front back : List (Nat × α)}
      (hfirst : ∀ e ∈ front, tokenOf e.1 ≠ tokenOf number) :
      Step capacity ⟨arrived, front ++ (number, item) :: back⟩ (.take (tokenOf number))
        (.item (some item)) ⟨arrived, front ++ back⟩
  | miss {arrived : Nat} {waiting : List (Nat × α)} {token : UInt32}
      (hnone : ∀ e ∈ waiting, tokenOf e.1 ≠ token) :
      Step capacity ⟨arrived, waiting⟩ (.take token) (.item none) ⟨arrived, waiting⟩

/-- Calls one after the other, with the reply to each. -/
inductive Run (capacity : Nat) :
    Backlog α → List (PendingCall α) → List (PendingReply α) → Backlog α → Prop where
  | nil (b : Backlog α) : Run capacity b [] [] b
  | cons {b b' b'' : Backlog α} {call : PendingCall α} {calls : List (PendingCall α)}
      {reply : PendingReply α} {replies : List (PendingReply α)}
      (hstep : Step capacity b call reply b') (hrun : Run capacity b' calls replies b'') :
      Run capacity b (call :: calls) (reply :: replies) b''

theorem Run.append {b b' b'' : Backlog α} {calls calls' : List (PendingCall α)}
    {replies replies' : List (PendingReply α)} (h : Run capacity b calls replies b')
    (h' : Run capacity b' calls' replies' b'') :
    Run capacity b (calls ++ calls') (replies ++ replies') b'' := by
  induction h with
  | nil b => exact h'
  | cons hstep hrun ih => exact .cons hstep (ih h')

/-- The table that a backlog describes: the token that comes next, and what waits, each request
under its token. -/
def table (b : Backlog α) : Pending capacity α :=
  ⟨tokenOf b.arrived, b.waiting.map fun e => (tokenOf e.1, e.2)⟩

variable {b b' : Backlog α} {call : PendingCall α} {calls : List (PendingCall α)}
  {reply : PendingReply α} {replies : List (PendingReply α)}

/-- A token takes out the first request that has it. -/
theorem take_table {arrived number : Nat} {item : α} {front back : List (Nat × α)}
    (hfirst : ∀ e ∈ front, tokenOf e.1 ≠ tokenOf number) :
    (table ⟨arrived, front ++ (number, item) :: back⟩ : Pending capacity α).take (tokenOf number) =
      (some item, table ⟨arrived, front ++ back⟩) := by
  rw [table, List.map_append, List.map_cons,
    Pending.take_of_first (List.forall_mem_map.2 hfirst), ← List.map_append, table]

/-- The table that a backlog describes answers a call as the backlog does. -/
theorem Step.table_eq (h : Step capacity b call reply b') :
    (b.table : Pending capacity α).step call = (reply, b'.table) := by
  cases h with
  | insert item hroom =>
      simp [Pending.step, Pending.insert, table, Pending.following_tokenOf, Nat.not_le.2 hroom]
  | replace item hfull =>
      have hle := Nat.le_of_eq hfull.symm
      rw [List.length_cons] at hle
      simp [Pending.step, Pending.insert, table, Pending.following_tokenOf, hle]
  | take hfirst => rw [Pending.step, take_table hfirst]
  | @miss arrived waiting token hnone =>
      have hnone' : ∀ e ∈ (table ⟨arrived, waiting⟩ : Pending capacity α).entries, e.1 ≠ token :=
        List.forall_mem_map.2 hnone
      rw [Pending.step, Pending.take_of_forall_ne hnone']

theorem Step.length_le (h : Step capacity b call reply b') (hfits : b.waiting.length ≤ capacity) :
    b'.waiting.length ≤ capacity := by
  cases h with
  | insert item hroom => simpa using Nat.succ_le_of_lt hroom
  | replace item hfull => simpa using Nat.le_of_eq hfull
  | take hfirst =>
      simp only [List.length_append, List.length_cons] at hfits ⊢
      omega
  | miss hnone => exact hfits

/-- Every call can be answered. -/
theorem exists_step (hc : 1 ≤ capacity) (hfits : b.waiting.length ≤ capacity)
    (call : PendingCall α) : ∃ reply b', Step capacity b call reply b' := by
  obtain ⟨arrived, waiting⟩ := b
  cases call with
  | insert item =>
      obtain hroom | hfull := Nat.lt_or_eq_of_le hfits
      · exact ⟨_, _, .insert item hroom⟩
      · cases waiting with
        | nil => exact absurd hfull (Nat.ne_of_lt hc)
        | cons oldest waiting => exact ⟨_, _, .replace item hfull⟩
  | take token =>
      by_cases hwaits : ∃ e ∈ waiting, tokenOf e.1 = token
      · obtain ⟨e, he, htoken⟩ := hwaits
        obtain ⟨⟨number, item⟩, front, back, hfirst, htoken, rfl, -⟩ :=
          List.exists_of_eraseP he (p := (tokenOf ·.1 = token)) (by simpa using htoken)
        cases of_decide_eq_true htoken
        exact ⟨_, _, .take (by simpa using hfirst)⟩
      · exact ⟨_, _, .miss (by simpa using hwaits)⟩

theorem Run.table_eq (h : Run capacity b calls replies b') :
    (b.table : Pending capacity α).run calls = (replies, b'.table) := by
  induction h with
  | nil b => rfl
  | cons hstep hrun ih => simp only [Pending.run, hstep.table_eq, ih]

theorem Run.length_le (h : Run capacity b calls replies b')
    (hfits : b.waiting.length ≤ capacity) : b'.waiting.length ≤ capacity := by
  induction h with
  | nil b => exact hfits
  | cons hstep hrun ih => exact ih (hstep.length_le hfits)

theorem exists_run (hc : 1 ≤ capacity) (hfits : b.waiting.length ≤ capacity)
    (calls : List (PendingCall α)) : ∃ replies b', Run capacity b calls replies b' := by
  induction calls generalizing b with
  | nil => exact ⟨[], b, .nil b⟩
  | cons call calls ih =>
      obtain ⟨reply, b', hstep⟩ := exists_step hc hfits call
      obtain ⟨replies, b'', hrun⟩ := ih (hstep.length_le hfits)
      exact ⟨reply :: replies, b'', .cons hstep hrun⟩

theorem length_entries_table (b : Backlog α) :
    (b.table : Pending capacity α).entries.length = b.waiting.length :=
  List.length_map ..

end Backlog

/-! ## the table as a backlog -/

namespace Pending

variable {capacity : Nat} {α : Type}

/-- Whatever is inserted and taken out, the table gives the replies of a backlog and holds what
waits in it, in that order. No more wait than fit. -/
theorem refines_backlog (hc : 1 ≤ capacity) (calls : List (PendingCall α)) :
    (∀ replies p, (empty : Pending capacity α).run calls = (replies, p) ↔
      ∃ b, Backlog.initial.Run capacity calls replies b ∧ b.table = p) ∧
    ((empty : Pending capacity α).run calls).2.entries.length ≤ capacity := by
  have hfits : (Backlog.initial : Backlog α).waiting.length ≤ capacity := Nat.zero_le _
  have hempty : (empty : Pending capacity α) = Backlog.initial.table := rfl
  obtain ⟨replies, b, hrun⟩ := Backlog.exists_run hc hfits calls
  rw [hempty, hrun.table_eq]
  refine ⟨fun replies' p => ⟨fun heq => ?_, fun ⟨b', hrun', hp⟩ => ?_⟩, ?_⟩
  · cases heq
    exact ⟨b, hrun, rfl⟩
  · rw [← hrun.table_eq, hrun'.table_eq, hp]
  · rw [Backlog.length_entries_table]
    exact hrun.length_le hfits

/-- Of three requests the first makes room for the last, which is answered before the second. -/
theorem refines_backlog_crowded :
    1 ≤ 2 ∧
    ∃ b, Backlog.initial.Run 2
        [.insert "a", .insert "b", .insert "c", .take 1, .take 3, .take 3]
        [.token 1, .token 2, .token 3, .item none, .item (some "c"), .item none] b ∧
      b.table = (⟨4, [(2, "b")]⟩ : Pending 2 String) :=
  ⟨by decide, ((refines_backlog (by decide) _).1 _ _).1 rfl⟩

end Pending

end MeshLight
