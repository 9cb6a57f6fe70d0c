import Mathlib.Data.List.Nodup
import MeshLight.Proofs.Pending.Backlog

/-!
# MeshLight.Proofs.Pending.Tokens

Which request a token stands for. Tokens come from a counter that wraps round and leaves out zero,
and a request that is never answered may wait for as long as the later ones are answered. So the
tokens that wait are distinct exactly if no two of the requests came whole rounds of the counter
apart; of those that share a token the oldest is taken out, whichever of them is meant
(`Pending.tokens_distinct_iff`). Tokens are safe as long as no request has been overtaken by a
whole round of others (`Backlog.Run.tokens_distinct_of_recent`), and not after that
(`Pending.token_shared_after_round`).
-/

namespace MeshLight

open Pending (tokenOf tokenCount)

/-! ## numbers -/

namespace Backlog

/-- The request that a call inserts, with the token that is the reply. -/
def insertion {α : Type} : PendingCall α → PendingReply α → List (UInt32 × α)
  | .insert item, .token token => [(token, item)]
  | .insert _, .item _ | .take _, _ => []

/-- The requests that calls insert, in order, each with the token that is the reply. -/
def insertions {α : Type} (calls : List (PendingCall α)) (replies : List (PendingReply α)) :
    List (UInt32 × α) :=
  (calls.zipWith insertion replies).flatten

variable {capacity arrived : Nat} {α : Type} {waiting kept : List (Nat × α)} {b b' : Backlog α}
  {call : PendingCall α} {calls : List (PendingCall α)} {reply : PendingReply α}
  {replies : List (PendingReply α)} {past : List (UInt32 × α)}

/-- The numbers of a backlog say which of the insertions so far each request was. -/
structure Numbers (b : Backlog α) (past : List (UInt32 × α)) : Prop where
  length_eq : past.length = b.arrived
  inserted : ∀ e ∈ b.waiting, past[e.1]? = some (tokenOf e.1, e.2)
  ordered : b.waiting.Pairwise fun e later => e.1 < later.1

theorem numbers_initial : (initial : Backlog α).Numbers [] := ⟨rfl, nofun, .nil⟩

theorem Numbers.lt_arrived (h : b.Numbers past) {e : Nat × α} (he : e ∈ b.waiting) :
    e.1 < b.arrived := by
  rw [← h.length_eq]
  exact (List.getElem?_eq_some_iff.1 (h.inserted e he)).1

/-- Requests that go leave the others their numbers. -/
theorem Numbers.sublist (h : Numbers ⟨arrived, waiting⟩ past) (hkept : kept.Sublist waiting) :
    Numbers ⟨arrived, kept⟩ past :=
  ⟨h.length_eq, fun e he => h.inserted e (hkept.subset he), h.ordered.sublist hkept⟩

/-- A request that comes gets the next number. -/
theorem Numbers.concat (h : Numbers ⟨arrived, waiting⟩ past) (item : α) :
    Numbers ⟨arrived + 1, waiting ++ [(arrived, item)]⟩ (past ++ [(tokenOf arrived, item)]) where
  length_eq := by rw [List.length_append, h.length_eq]; rfl
  inserted e he := by
    obtain he | he := List.mem_append.1 he
    · rw [List.getElem?_append_left (h.length_eq ▸ h.lt_arrived he)]
      exact h.inserted e he
    · cases List.mem_singleton.1 he
      have hlast : (past ++ [(tokenOf arrived, item)])[past.length]? =
          some (tokenOf arrived, item) := List.getElem?_concat_length
      rwa [h.length_eq] at hlast
  ordered := by
    refine List.pairwise_append.2 ⟨h.ordered, List.pairwise_singleton .., fun e he new hnew => ?_⟩
    cases List.mem_singleton.1 hnew
    exact h.lt_arrived he

theorem Step.numbers (hstep : Step capacity b call reply b') (h : b.Numbers past) :
    b'.Numbers (past ++ insertion call reply) := by
  cases hstep with
  | insert item hroom => exact h.concat item
  | replace item hfull => exact (h.sublist (List.sublist_cons_self ..)).concat item
  | take hfirst =>
      rw [insertion, List.append_nil]
      exact h.sublist ((List.sublist_cons_self ..).append_left _)
  | miss hnone =>
      rw [insertion, List.append_nil]
      exact h

theorem Run.numbers (hrun : Run capacity b calls replies b') (h : b.Numbers past) :
    b'.Numbers (past ++ insertions calls replies) := by
  induction hrun generalizing past with
  | nil b => simpa [insertions] using h
  | cons hstep hrun ih =>
      rw [insertions, List.zipWith_cons_cons, List.flatten_cons, ← List.append_assoc]
      exact ih (hstep.numbers h)

/-! ## tokens in wait -/

/-- Two requests share a token exactly if whole rounds of tokens lie between them. -/
theorem nodup_tokens_table_iff (b : Backlog α) :
    ((b.table : Pending capacity α).entries.map Prod.fst).Nodup ↔
      b.waiting.Pairwise fun e later => e.1 % tokenCount ≠ later.1 % tokenCount := by
  rw [table, List.map_map, List.Nodup, List.pairwise_map]
  simp only [Function.comp_apply, Ne, Pending.tokenOf_eq_iff]

/-- A token is given to requests whole rounds apart. Of those that wait the oldest is taken out
under it. -/
theorem take_table_of_oldest {front back : List (Nat × α)} {e : Nat × α} {number : Nat}
    (holdest : ∀ older ∈ front, older.1 % tokenCount ≠ e.1 % tokenCount)
    (hnumber : number % tokenCount = e.1 % tokenCount) :
    (table ⟨arrived, front ++ e :: back⟩ : Pending capacity α).take (tokenOf number) =
      (some e.2, table ⟨arrived, front ++ back⟩) := by
  rw [Pending.tokenOf_eq_iff.2 hnumber]
  exact take_table fun older holder htoken => holdest older holder (Pending.tokenOf_eq_iff.1 htoken)

/-- Tokens are distinct as long as no request in wait has been overtaken by as many others as there
are tokens. -/
theorem Run.tokens_distinct_of_recent (h : initial.Run capacity calls replies b)
    (hrecent : ∀ e ∈ b.waiting, b.arrived ≤ e.1 + tokenCount) :
    ((b.table : Pending capacity α).entries.map Prod.fst).Nodup := by
  have hnumbers := h.numbers numbers_initial
  rw [nodup_tokens_table_iff]
  refine hnumbers.ordered.imp_of_mem fun {e later} he hlater hlt hshared => ?_
  have hovertaken := hrecent e he
  have hcame := hnumbers.lt_arrived hlater
  have hcount : tokenCount = 4294967295 := rfl
  rw [hcount] at hovertaken hshared
  omega

end Backlog

/-! ## whichever request is meant -/

namespace Pending

variable {capacity : Nat} {α : Type}

/-- Whatever is inserted and taken out: each request that waits is one of those inserted, under the
token that was the reply. No token is zero. The tokens are distinct exactly if no two of the
requests came whole rounds of tokens apart. Of requests that share a token the oldest is taken out
under it, and no other. -/
theorem tokens_distinct_iff (hc : 1 ≤ capacity) (calls : List (PendingCall α)) :
    let p := ((empty : Pending capacity α).run calls).2
    (∃ replies b, Backlog.initial.Run capacity calls replies b) ∧
    ∀ replies b, Backlog.initial.Run capacity calls replies b →
      p.entries = b.waiting.map (fun e => (tokenOf e.1, e.2)) ∧
      (∀ e ∈ b.waiting, (Backlog.insertions calls replies)[e.1]? = some (tokenOf e.1, e.2)) ∧
      (∀ e ∈ p.entries, e.1 ≠ 0) ∧
      ((p.entries.map Prod.fst).Nodup ↔
        b.waiting.Pairwise fun e later => e.1 % tokenCount ≠ later.1 % tokenCount) ∧
      ∀ front e back, b.waiting = front ++ e :: back →
        (∀ older ∈ front, older.1 % tokenCount ≠ e.1 % tokenCount) →
        ∀ number, number % tokenCount = e.1 % tokenCount →
          p.take (tokenOf number) = (some e.2, Backlog.table ⟨b.arrived, front ++ back⟩) := by
  intro p
  refine ⟨Backlog.exists_run hc (Nat.zero_le _) calls, fun replies b hrun => ?_⟩
  have hp : p = b.table := congrArg Prod.snd hrun.table_eq
  rw [hp]
  refine ⟨rfl, (hrun.numbers Backlog.numbers_initial).inserted, ?_,
    Backlog.nodup_tokens_table_iff b, ?_⟩
  · exact List.forall_mem_map.2 fun e _ => tokenOf_ne_zero e.1
  · intro front e back hwaiting holdest number hnumber
    obtain ⟨arrived, waiting⟩ := b
    cases hwaiting
    exact Backlog.take_table_of_oldest holdest hnumber

/-- After three requests in a table for two, the tokens of the last two are distinct, and the third
one's takes out the third. -/
theorem tokens_distinct_iff_crowded :
    1 ≤ 2 ∧
    Backlog.initial.Run 2 [.insert "a", .insert "b", .insert "c"] [.token 1, .token 2, .token 3]
      ⟨3, [(1, "b"), (2, "c")]⟩ ∧
    let p := ((empty : Pending 2 String).run [.insert "a", .insert "b", .insert "c"]).2
    (p.entries.map Prod.fst).Nodup ∧ p.take 3 = (some "c", ⟨4, [(2, "b")]⟩) := by
  have hrun : Backlog.initial.Run 2 [.insert "a", .insert "b", .insert "c"]
      [.token 1, .token 2, .token 3] ⟨3, [(1, "b"), (2, "c")]⟩ :=
    .cons (.insert "a" (by decide)) (.cons (.insert "b" (by decide))
      (.cons (.replace "c" (by decide)) (.nil _)))
  obtain ⟨-, hall⟩ := tokens_distinct_iff (show 1 ≤ 2 by decide)
    [.insert "a", .insert "b", .insert "c"]
  obtain ⟨-, -, -, hdistinct, htake⟩ := hall _ _ hrun
  exact ⟨by decide, hrun, hdistinct.2 (by decide),
    htake [(1, "b")] (2, "c") [] rfl (by decide) 2 rfl⟩

end Pending

/-! ### a request that is overtaken -/

namespace Backlog

variable {capacity : Nat}

/-- The first request is never answered. Those that follow are answered one by one, each before the
next one comes. -/
def overtaking (n : Nat) : List (PendingCall Nat) :=
  .insert 0 :: (List.range n).flatMap fun k => [.insert (k + 1), .take (tokenOf (k + 1))]

/-- For less than a round the first request alone is left. -/
theorem exists_run_overtaking (hc : 2 ≤ capacity) {n : Nat} (hn : n < tokenCount) :
    ∃ replies, initial.Run capacity (overtaking n) replies ⟨n + 1, [(0, 0)]⟩ := by
  induction n with
  | zero => exact ⟨_, .cons (.insert 0 (Nat.lt_of_succ_lt hc)) (.nil _)⟩
  | succ n ih =>
      obtain ⟨replies, hrun⟩ := ih (Nat.lt_of_succ_lt hn)
      have hcalls : overtaking (n + 1) =
          overtaking n ++ [.insert (n + 1), .take (tokenOf (n + 1))] := by
        simp [overtaking, List.range_succ]
      have hother : ∀ e ∈ [(0, 0)], tokenOf e.1 ≠ tokenOf (n + 1) := by
        intro e he
        cases List.mem_singleton.1 he
        rw [Ne, Pending.tokenOf_eq_iff, Nat.mod_eq_of_lt hn]
        exact (Nat.succ_ne_zero n).symm
      rw [hcalls]
      exact ⟨_, hrun.append (.cons (.insert (n + 1) hc) (.cons (.take hother) (.nil _)))⟩

end Backlog

/-- After a round in which a request was overtaken, the next one gets its token: both wait under it,
and the reply to the newer one takes out the older. -/
theorem Pending.token_shared_after_round :
    let calls := Backlog.overtaking (tokenCount - 1) ++ [.insert tokenCount]
    let answered := (Pending.empty : Pending 2 Nat).run calls
    answered.1.getLast? = some (.token 1) ∧
    answered.2.entries = [(1, 0), (1, tokenCount)] ∧
    ¬(answered.2.entries.map Prod.fst).Nodup ∧
    (answered.2.take 1).1 = some 0 := by
  intro calls answered
  obtain ⟨replies, hrun⟩ := Backlog.exists_run_overtaking (Nat.le_refl 2)
    (show tokenCount - 1 < tokenCount by decide)
  have hlast := hrun.append (.cons (.insert tokenCount (by decide)) (.nil _))
  have hanswered : answered = (_, Backlog.table _) := hlast.table_eq
  have hshared : tokenOf (tokenCount - 1 + 1) = 1 := by decide
  have hentries : answered.2.entries = [(1, 0), (1, tokenCount)] := by
    rw [hanswered, ← hshared]
    rfl
  refine ⟨?_, hentries, ?_, ?_⟩
  · rw [hanswered, hshared, List.getLast?_concat]
  · rw [hentries]
    decide
  · rw [Pending.take_eq, hentries]
    rfl

end MeshLight
