import Mathlib.Data.List.Induction
import MeshLight.Node
import MeshLight.Proofs.Join.Moves

/-!
# MeshLight.Proofs.Join.Sessions

A join session goes from the turn that accepts a request to join up to the turn after which no join
is in progress any more (`JoinSession`). As long as it goes on, one attempt more was started than
has ended, and fewer have ended than are allowed (`Going`); so an attempt is started within the
limits, and what a turn adds either keeps the session going or ends it in one of four ways
(`JoinEnd`). Attempts are started in sessions only, since a join in progress always belongs to one
(`Run.session_of_joining`).
-/

namespace MeshLight

open Prog

/-! ## limits -/

/-- The limits of a join, and that a join in progress keeps within them. -/
structure Limited (config : Config) (j : Join) : Prop where
  timeout : j.timeout = config.commissioningTimeoutSecs.toNat * 1000
  maxAttempts : j.maxAttempts = config.maxJoinAttempts.toNat
  pos : 0 < config.maxJoinAttempts.toNat

theorem limited_new {config : Config} {e : Engine} (h : Engine.new config = .ok e) :
    Limited config e.join ∧ e.join.isJoining = false := by
  obtain ⟨hdefect, interval, rfl⟩ := Engine.eq_of_new h
  refine ⟨⟨rfl, rfl, ?_⟩, rfl⟩
  have hne : config.maxJoinAttempts ≠ 0 := by
    intro hzero
    unfold Config.defect? at hdefect
    grind
  exact Nat.pos_of_ne_zero fun hzero => hne (UInt32.toNat_inj.1 hzero)

theorem JoinMove.limits {t : Turn} {trace : JoinTrace} {j : Join} (h : JoinMove t trace j) :
    j.timeout = t.before.join.timeout ∧ j.maxAttempts = t.before.join.maxAttempts := by
  cases h <;> exact ⟨rfl, rfl⟩

/-- The count stays exact: the largest number of attempts that may be configured can be counted. -/
theorem Limited.next_eq {config : Config} {j : Join} (h : Limited config j) {a : JoinAttempt}
    (hcount : a.count < j.maxAttempts) : a.next = a.count + 1 := by
  have hmax : config.maxJoinAttempts.toNat ≤ Join.countLimit := Nat.le_pred_of_lt config.maxJoinAttempts.toNat_lt
  rw [h.maxAttempts] at hcount
  unfold JoinAttempt.next
  omega

/-! ## sessions -/

/-- A join session, or its part so far: it begins with a turn that accepts a request to join, and
after all of its turns but the last the join is in progress. -/
structure JoinSession (turns : List Turn) (first : Turn) (rest : List Turn) : Prop where
  part : ∃ past later, turns = past ++ first :: rest ++ later
  opens : first.OpensJoin
  goesOn : ∀ t ∈ (first :: rest).dropLast, t.after.join.isJoining = true

/-- What the calls of some turns say about joining. -/
def joinTrace (turns : List Turn) : JoinTrace := .ofLog (turns.flatMap Turn.log)

/-- The number of attempts whose end was notified in some turns. -/
def endedAttempts (turns : List Turn) : Nat := turns.countP Turn.endsAttempt

/-- The ways in which a session ends. -/
inductive JoinEnd where
  | joined
  | gaveUp
  | abandoned
  | wiped
  deriving DecidableEq

namespace JoinEnd

/-- The state of joining after a session in which `n` attempts ended. -/
def state (n : Nat) : JoinEnd → JoinState
  | joined => .joined
  | gaveUp | abandoned => .idle n
  | wiped => .idle 0

/-- The notices of a session in which `n` attempts ended. -/
def giveUps (n : Nat) : JoinEnd → List Nat
  | gaveUp => [n]
  | joined | abandoned | wiped => []

/-- The attempts of a session that could not be started. -/
def refusals : JoinEnd → Nat
  | abandoned => 1
  | joined | gaveUp | wiped => 0

end JoinEnd

/-- Whether the start of an attempt was refused. -/
def isRefusal : Except NetworkFault Unit → Bool
  | .error _ => true
  | .ok _ => false

/-- The session ended in this way, with a state of joining. -/
structure EndsBy (session : List Turn) (state : JoinState) (way : JoinEnd) : Prop where
  state : state = way.state (endedAttempts session)
  giveUps : (joinTrace session).giveUps = way.giveUps (endedAttempts session)
  refusals : (joinTrace session).starts.countP isRefusal = way.refusals
  wipes : (∃ t ∈ session, t.Wipes) ↔ way = .wiped

/-- A session ends in one way only. -/
theorem EndsBy.unique {session : List Turn} {state : JoinState} {way way' : JoinEnd}
    (h : EndsBy session state way) (h' : EndsBy session state way') : way = way' := by
  have hwipes := h.wipes.symm.trans h'.wipes
  have hgiveUps := h.giveUps.symm.trans h'.giveUps
  have hrefusals := h.refusals.symm.trans h'.refusals
  cases way <;> cases way' <;> simp_all [JoinEnd.giveUps, JoinEnd.refusals]

/-- The session goes on: one attempt more was started than has ended, none was refused, and fewer
have ended than are allowed. -/
structure Going (config : Config) (startedAt : Nat) (session : List Turn) (j : Join) : Prop where
  state : j.state = .joining ⟨endedAttempts session, startedAt,
    startedAt + config.commissioningTimeoutSecs.toNat * 1000⟩
  count : endedAttempts session < config.maxJoinAttempts.toNat
  starts : (joinTrace session).starts = List.replicate (endedAttempts session + 1) (.ok ())
  giveUps : (joinTrace session).giveUps = []
  wipes : ¬∃ t ∈ session, t.Wipes

/-- A session within its limits that goes on or has ended. -/
structure Bounded (config : Config) (startedAt : Nat) (session : List Turn) (j : Join) : Prop where
  starts : (joinTrace session).starts.length ≤ config.maxJoinAttempts.toNat
  intime : ∀ t ∈ session, (JoinTrace.ofLog t.log).starts ≠ [] →
    ∃ now, (JoinTrace.ofLog t.log).readings = [now] ∧
      now ≤ startedAt + config.commissioningTimeoutSecs.toNat * 1000
  standing : Going config startedAt session j ∨
    j.isJoining = false ∧ ∃ way, EndsBy session j.state way

/-! ## single turns -/

theorem starts_concat (session : List Turn) (t : Turn) :
    (joinTrace (session ++ [t])).starts =
      (joinTrace session).starts ++ (JoinTrace.ofLog t.log).starts := by
  simp [joinTrace, JoinTrace.ofLog_append]

theorem giveUps_concat (session : List Turn) (t : Turn) :
    (joinTrace (session ++ [t])).giveUps =
      (joinTrace session).giveUps ++ (JoinTrace.ofLog t.log).giveUps := by
  simp [joinTrace, JoinTrace.ofLog_append]

theorem endedAttempts_concat (session : List Turn) (t : Turn) :
    endedAttempts (session ++ [t]) = endedAttempts session + if t.endsAttempt then 1 else 0 := by
  simp [endedAttempts, List.countP_append, List.countP_singleton]

/-- The turn that accepts the request starts the first attempt. -/
theorem bounded_of_opens {config : Config} {t : Turn} (ht : t.Happens)
    (hidle : t.before.session.work.items = [])
    (hstart : t.input = .start → t.before.state ≠ .connected)
    (hlimited : Limited config t.before.join) (hopens : t.OpensJoin) :
    ∃ startedAt, (JoinTrace.ofLog t.log).readings = [startedAt] ∧
      Bounded config startedAt [t] t.after.join := by
  have hends : t.endsAttempt = false := by
    obtain ⟨hinput | ⟨hinput, -⟩, -⟩ := hopens <;> simp [Turn.endsAttempt, hinput]
  have hended : endedAttempts [t] = 0 := by simp [endedAttempts, hends]
  have hsession : joinTrace [t] = JoinTrace.ofLog t.log := by simp [joinTrace]
  obtain ⟨-, hmoves, -⟩ | ⟨hkeeps, -, hmove⟩ := ht.join_cases hidle hstart
  · exact absurd hopens (ht.join_applied hmoves).1
  · generalize htrace : JoinTrace.ofLog t.log = trace at hmove
    generalize hjoin : t.after.join = j at hmove
    cases hmove with
    | begins now hopens =>
        refine ⟨now, rfl, ?_, fun t' ht' hne => ⟨now, ?_, Nat.le_add_right _ _⟩, .inl ?_⟩
        · rw [hsession, htrace]
          exact hlimited.pos
        · rw [List.mem_singleton.1 ht', htrace]
        · refine ⟨?_, ?_, ?_, ?_, ?_⟩
          · rw [hended, hlimited.timeout]
          · rw [hended]
            exact hlimited.pos
          · rw [hsession, htrace, hended]
            rfl
          · rw [hsession, htrace]
          · simpa using hkeeps
    | fails now fault hopens =>
        refine ⟨now, rfl, ?_, fun t' ht' hne => ⟨now, ?_, Nat.le_add_right _ _⟩, .inr ?_⟩
        · rw [hsession, htrace]
          exact hlimited.pos
        · rw [List.mem_singleton.1 ht', htrace]
        · refine ⟨rfl, .abandoned, ?_, ?_, ?_, ?_⟩
          · rw [hended]
            rfl
          · rw [hsession, htrace]
            rfl
          · rw [hsession, htrace]
            rfl
          · simpa using hkeeps
    | stays | succeeds => contradiction
    | retries now a hends' | abandons now a fault hends' | givesUp now a hends' =>
        rw [hends] at hends'
        cases hends'

theorem Going.refusals {config : Config} {startedAt : Nat} {session : List Turn} {j : Join}
    (h : Going config startedAt session j) :
    (joinTrace session).starts.countP isRefusal = 0 := by
  rw [h.starts, List.countP_replicate]
  simp [isRefusal]

/-- A turn in which no attempt is started keeps to the limits if it keeps the session going or ends
it. -/
theorem Bounded.concat {config : Config} {startedAt : Nat} {session : List Turn} {t : Turn}
    {j j' : Join} (h : Bounded config startedAt session j)
    (hnone : (JoinTrace.ofLog t.log).starts = [])
    (hstanding : Going config startedAt (session ++ [t]) j' ∨
      j'.isJoining = false ∧ ∃ way, EndsBy (session ++ [t]) j'.state way) :
    Bounded config startedAt (session ++ [t]) j' where
  starts := by
    rw [starts_concat, hnone, List.append_nil]
    exact h.starts
  intime u hu hne := by
    obtain hu | hu := List.mem_append.1 hu
    · exact h.intime u hu hne
    · rw [List.mem_singleton.1 hu] at hne
      exact absurd hnone hne
  standing := hstanding

/-- A turn in which an attempt is started in time keeps to the limits if fewer attempts have ended
than are allowed. -/
theorem Bounded.concat_start {config : Config} {startedAt now : Nat} {session : List Turn}
    {t : Turn} {j j' : Join} {answer : Except NetworkFault Unit}
    (h : Bounded config startedAt session j) (hgoing : Going config startedAt session j)
    (htrace : JoinTrace.ofLog t.log = ⟨[now], [answer], []⟩)
    (htime : now ≤ startedAt + config.commissioningTimeoutSecs.toNat * 1000)
    (hcount : endedAttempts session + 1 < config.maxJoinAttempts.toNat)
    (hstanding : Going config startedAt (session ++ [t]) j' ∨
      j'.isJoining = false ∧ ∃ way, EndsBy (session ++ [t]) j'.state way) :
    Bounded config startedAt (session ++ [t]) j' where
  starts := by
    rw [starts_concat, hgoing.starts, htrace]
    simp only [List.length_append, List.length_replicate, List.length_singleton]
    omega
  intime u hu hne := by
    obtain hu | hu := List.mem_append.1 hu
    · exact h.intime u hu hne
    · rw [List.mem_singleton.1 hu, htrace]
      exact ⟨now, rfl, htime⟩
  standing := hstanding

/-- Every turn after the first keeps the session going or ends it, within the limits. -/
theorem Bounded.turn {config : Config} {startedAt : Nat} {session : List Turn} {t : Turn}
    (h : Bounded config startedAt session t.before.join)
    (hjoining : t.before.join.isJoining = true) (hlimited : Limited config t.before.join)
    (ht : t.Happens) (hidle : t.before.session.work.items = [])
    (hstart : t.input = .start → t.before.state ≠ .connected) :
    Bounded config startedAt (session ++ [t]) t.after.join := by
  have hgoing : Going config startedAt session t.before.join :=
    h.standing.resolve_right fun hended => by rw [hjoining] at hended; cases hended.1
  have hopens : ¬t.OpensJoin := by
    intro hopens
    obtain ⟨-, -, attempts, hidle⟩ := hopens
    rw [hgoing.state] at hidle
    cases hidle
  have hcount : ∀ a, t.before.join.state = .joining a → a.next = endedAttempts session + 1 ∧
      a.deadline = startedAt + config.commissioningTimeoutSecs.toNat * 1000 ∧
      a.startedAt = startedAt := by
    intro a ha
    have hsame := JoinState.joining.inj (ha.symm.trans hgoing.state)
    have hbelow : a.count < t.before.join.maxAttempts := by
      rw [hsame, hlimited.maxAttempts]
      exact hgoing.count
    rw [hlimited.next_eq hbelow, hsame]
    exact ⟨rfl, rfl, rfl⟩
  have hrefusals := hgoing.refusals
  obtain ⟨hwipes, -, htrace, hjoin⟩ | ⟨hkeeps, -, hmove⟩ := ht.join_cases hidle hstart
  · -- a factory reset ends the session
    refine h.concat (by rw [htrace]; rfl) (.inr ⟨by rw [hjoin]; rfl, .wiped, ?_⟩)
    refine ⟨by rw [hjoin]; rfl, ?_, ?_, ?_⟩
    · rw [giveUps_concat, hgoing.giveUps, htrace]
      rfl
    · rw [starts_concat, htrace, JoinTrace.empty, List.append_nil]
      exact hrefusals
    · exact iff_of_true ⟨t, by simp, hwipes⟩ rfl
  · have hwipes : ¬∃ u ∈ session ++ [t], u.Wipes := by
      intro hwiped
      obtain ⟨u, hu, hwiped⟩ := hwiped
      obtain hu | hu := List.mem_append.1 hu
      · exact hgoing.wipes ⟨u, hu, hwiped⟩
      · exact hkeeps (List.mem_singleton.1 hu ▸ hwiped)
    generalize htrace : JoinTrace.ofLog t.log = trace at hmove
    generalize hjoin : t.after.join = j at hmove
    cases hmove with
    | begins | fails => contradiction
    | stays readings _ hstays =>
        have hends : t.endsAttempt = false := by
          rw [Bool.eq_false_iff]
          intro hends
          rw [hstays hends] at hjoining
          cases hjoining
        have hsame := endedAttempts_concat session t
        rw [hends, if_neg Bool.false_ne_true, Nat.add_zero] at hsame
        refine h.concat (by rw [htrace]) (.inl ⟨?_, ?_, ?_, ?_, hwipes⟩)
        · rw [hsame]
          exact hgoing.state
        · rw [hsame]
          exact hgoing.count
        · rw [hsame, starts_concat, htrace, List.append_nil]
          exact hgoing.starts
        · rw [giveUps_concat, htrace, List.append_nil]
          exact hgoing.giveUps
    | succeeds _ hends =>
        refine h.concat (by rw [htrace]) (.inr ⟨rfl, .joined, rfl, ?_, ?_, ?_⟩)
        · rw [giveUps_concat, htrace, List.append_nil]
          exact hgoing.giveUps
        · rw [starts_concat, htrace, List.append_nil]
          exact hrefusals
        · exact iff_of_false hwipes (by simp)
    | retries now a hends ha htime hallowed =>
        obtain ⟨hnext, hdeadline, hstarted⟩ := hcount a ha
        have hended := endedAttempts_concat session t
        rw [hends, if_pos rfl] at hended
        rw [hnext, hlimited.maxAttempts] at hallowed
        refine h.concat_start hgoing htrace (hdeadline ▸ htime) hallowed (.inl ?_)
        refine ⟨?_, hended ▸ hallowed, ?_, ?_, hwipes⟩
        · rw [hended, hnext, hdeadline, hstarted]
        · rw [hended, starts_concat, htrace, hgoing.starts]
          exact List.replicate_succ'.symm
        · rw [giveUps_concat, htrace, List.append_nil]
          exact hgoing.giveUps
    | abandons now a fault hends ha htime hallowed =>
        obtain ⟨hnext, hdeadline, -⟩ := hcount a ha
        have hended := endedAttempts_concat session t
        rw [hends, if_pos rfl] at hended
        rw [hnext, hlimited.maxAttempts] at hallowed
        refine h.concat_start hgoing htrace (hdeadline ▸ htime) hallowed
          (.inr ⟨rfl, .abandoned, ?_, ?_, ?_, ?_⟩)
        · rw [hended, hnext]
          rfl
        · rw [giveUps_concat, htrace, List.append_nil]
          exact hgoing.giveUps
        · rw [starts_concat, htrace, List.countP_append, hrefusals]
          rfl
        · exact iff_of_false hwipes (by simp)
    | givesUp now a hends ha =>
        obtain ⟨hnext, -, -⟩ := hcount a ha
        have hended := endedAttempts_concat session t
        rw [hends, if_pos rfl] at hended
        refine h.concat (by rw [htrace]) (.inr ⟨rfl, .gaveUp, ?_, ?_, ?_, ?_⟩)
        · rw [hended, hnext]
          rfl
        · rw [giveUps_concat, htrace, hgoing.giveUps, hended, hnext]
          rfl
        · rw [starts_concat, htrace, List.append_nil]
          exact hrefusals
        · exact iff_of_false hwipes (by simp)

/-! ## runs -/

variable {config : Config} {turns : List Turn} {e : Engine}

theorem Turn.Happens.limited {t : Turn} (ht : t.Happens) (hlimited : Limited config t.before.join)
    (hidle : t.before.session.work.items = [])
    (hstart : t.input = .start → t.before.state ≠ .connected) : Limited config t.after.join := by
  have hlimits : t.after.join.timeout = t.before.join.timeout ∧
      t.after.join.maxAttempts = t.before.join.maxAttempts := by
    obtain ⟨-, -, -, hjoin⟩ | ⟨-, -, hmove⟩ := ht.join_cases hidle hstart
    · rw [hjoin]
      exact ⟨rfl, rfl⟩
    · exact hmove.limits
  exact ⟨hlimits.1.trans hlimited.timeout, hlimits.2.trans hlimited.maxAttempts, hlimited.pos⟩

theorem Run.limited (run : Run config turns e) : Limited config e.join := by
  induction run with
  | start t hnew hinput ht =>
      exact ht.limited (limited_new hnew).1 (atRest_new hnew).idle fun _ => Engine.state_new hnew
  | handle t event run hinput ht ih =>
      exact ht.limited ih run.atRest.1.idle fun hstart =>
        absurd hstart (Turn.ne_start_of_event hinput)

/-- What is known before a turn of a run. -/
theorem Run.before {past later : List Turn} {t : Turn} (run : Run config (past ++ t :: later) e) :
    t.Happens ∧ t.before.session.work.items = [] ∧
      (t.input = .start → t.before.state ≠ .connected) ∧ Limited config t.before.join := by
  obtain ⟨-, ht, ⟨-, hnew, hinput⟩ | ⟨hrun, event, hinput⟩⟩ := run.split
  · exact ⟨ht, (atRest_new hnew).idle, fun _ => Engine.state_new hnew, (limited_new hnew).1⟩
  · refine ⟨ht, hrun.atRest.1.idle, fun hstart => ?_, hrun.limited⟩
    rw [hinput] at hstart
    cases hstart

theorem Run.eq_after {past rest : List Turn} {first : Turn}
    (run : Run config (past ++ first :: rest) e) :
    e = ((first :: rest).getLast (List.cons_ne_nil _ _)).after := by
  obtain hnil | ⟨init, t, hlast⟩ := List.eq_nil_or_concat (first :: rest)
  · cases hnil
  · simp only [hlast, List.concat_eq_append, ← List.append_assoc] at run ⊢
    rw [List.getLast_concat]
    exact run.last.2.1

/-- A session that a run ends in keeps to the limits. -/
theorem Run.bounded {past rest : List Turn} {first : Turn}
    (run : Run config (past ++ first :: rest) e) (hopens : first.OpensJoin)
    (hgoes : ∀ t ∈ (first :: rest).dropLast, t.after.join.isJoining = true) :
    ∃ startedAt, (JoinTrace.ofLog first.log).readings = [startedAt] ∧
      Bounded config startedAt (first :: rest) e.join := by
  induction rest using List.reverseRecOn generalizing e with
  | nil =>
      obtain ⟨ht, hidle, hstart, hlimited⟩ := run.before
      obtain ⟨-, rfl, -⟩ := run.last
      exact bounded_of_opens ht hidle hstart hlimited hopens
  | append_singleton rest t ih =>
      have hassoc : past ++ first :: (rest ++ [t]) = (past ++ first :: rest) ++ [t] := by simp
      rw [hassoc] at run
      obtain ⟨ht, hidle, hstart, hlimited⟩ := run.before
      obtain ⟨-, rfl, ⟨hnil, -⟩ | ⟨hrun, -⟩⟩ := run.last
      · simp at hnil
      · rw [← List.cons_append, List.dropLast_concat] at hgoes
        obtain ⟨startedAt, hreading, hbounded⟩ := ih hrun fun u hu =>
          hgoes u (List.dropLast_subset _ hu)
        refine ⟨startedAt, hreading, hbounded.turn ?_ hlimited ht hidle hstart⟩
        rw [hrun.eq_after]
        exact hgoes _ (List.getLast_mem _)

/-- A join in progress belongs to a session that has not ended. -/
theorem Run.session_of_joining (run : Run config turns e) (hjoining : e.join.isJoining = true) :
    ∃ past first rest, turns = past ++ first :: rest ∧ first.OpensJoin ∧
      ∀ t ∈ first :: rest, t.after.join.isJoining = true := by
  induction run with
  | start t hnew hinput ht =>
      refine ⟨[], t, [], rfl, ?_, by simpa using hjoining⟩
      obtain ⟨-, -, -, hjoin⟩ | ⟨-, -, hmove⟩ := ht.join_cases (atRest_new hnew).idle fun _ =>
        Engine.state_new hnew
      · rw [hjoin] at hjoining
        cases hjoining
      · exact hmove.opensJoin (limited_new hnew).2 hjoining
  | @handle turns t event run hinput ht ih =>
      cases hbefore : t.before.join.isJoining with
      | true =>
          obtain ⟨past, first, rest, rfl, hopens, hgoes⟩ := ih hbefore
          refine ⟨past, first, rest ++ [t], by simp, hopens, fun u hu => ?_⟩
          rw [← List.cons_append] at hu
          obtain hu | hu := List.mem_append.1 hu
          · exact hgoes u hu
          · rw [List.mem_singleton.1 hu]
            exact hjoining
      | false =>
          refine ⟨turns, t, [], rfl, ?_, by simpa using hjoining⟩
          obtain ⟨-, -, -, hjoin⟩ | ⟨-, -, hmove⟩ := ht.join_cases run.atRest.1.idle fun hstart =>
            absurd hstart (Turn.ne_start_of_event hinput)
          · rw [hjoin] at hjoining
            cases hjoining
          · exact hmove.opensJoin hbefore hjoining

/-- An attempt is started in a session only. -/
theorem Run.session_of_start (run : Run config turns e) {t : Turn} (ht : t ∈ turns)
    (hstarts : (JoinTrace.ofLog t.log).starts ≠ []) :
    ∃ first rest, JoinSession turns first rest ∧ t ∈ first :: rest := by
  obtain ⟨past, later, rfl⟩ := List.append_of_mem ht
  obtain ⟨hhappens, hidle, hstart, -⟩ := run.before
  obtain ⟨-, -, htrace, -⟩ | ⟨-, -, hmove⟩ := hhappens.join_cases hidle hstart
  · rw [htrace] at hstarts
    exact absurd rfl hstarts
  · obtain hopens | hjoining := hmove.of_starts hstarts
    · exact ⟨t, [], ⟨⟨past, later, by simp⟩, hopens, by simp⟩, List.mem_cons_self ..⟩
    · obtain ⟨-, -, ⟨-, hnew, -⟩ | ⟨hrun, -⟩⟩ := run.split
      · rw [(limited_new hnew).2] at hjoining
        cases hjoining
      · obtain ⟨past, first, rest, rfl, hopens, hgoes⟩ := hrun.session_of_joining hjoining
        refine ⟨first, rest ++ [t], ⟨⟨past, later, by simp⟩, hopens, ?_⟩, by simp⟩
        rw [← List.cons_append, List.dropLast_concat]
        exact hgoes

/-- Joins keep to their limits. In a session no more attempts are started than are allowed, and none
later than the timeout after its start. A session that is over has ended in one way: joined, given
up with one notice, abandoned because an attempt could not be started, or wiped by a factory reset;
the number that is noticed and remembered is that of the attempts whose end was notified in the
session. A join in progress has always fewer ended attempts than are allowed, and no attempt is ever
started outside a session. -/
theorem Run.joins_bounded (run : Run config turns e) :
    (∀ first rest, JoinSession turns first rest →
      (joinTrace (first :: rest)).starts.length ≤ config.maxJoinAttempts.toNat ∧
      (∃ startedAt, (JoinTrace.ofLog first.log).readings = [startedAt] ∧
        ∀ t ∈ first :: rest, (JoinTrace.ofLog t.log).starts ≠ [] →
          ∃ now, (JoinTrace.ofLog t.log).readings = [now] ∧
            now ≤ startedAt + config.commissioningTimeoutSecs.toNat * 1000) ∧
      ∀ last, (first :: rest).getLast? = some last → last.after.join.isJoining = false →
        ∃! way, EndsBy (first :: rest) last.after.join.state way) ∧
    (∀ a, e.join.state = .joining a → a.count < config.maxJoinAttempts.toNat) ∧
    ∀ t ∈ turns, (JoinTrace.ofLog t.log).starts ≠ [] →
      ∃ first rest, JoinSession turns first rest ∧ t ∈ first :: rest := by
  refine ⟨fun first rest hsession => ?_, fun a ha => ?_, fun t ht => run.session_of_start ht⟩
  · obtain ⟨⟨past, later, rfl⟩, hopens, hgoes⟩ := hsession
    obtain ⟨e', hrun⟩ := run.of_append (by simp)
    obtain ⟨startedAt, hreading, hbounded⟩ := hrun.bounded hopens hgoes
    refine ⟨hbounded.starts, ⟨startedAt, hreading, hbounded.intime⟩, fun last hlast hended => ?_⟩
    have hafter : e' = last.after := by
      rw [hrun.eq_after, Option.some.inj ((List.getLast?_eq_some_getLast _).symm.trans hlast)]
    obtain hgoing | ⟨-, way, hway⟩ := hbounded.standing
    · rw [← hafter, Join.isJoining, hgoing.state] at hended
      cases hended
    · rw [← hafter]
      exact ⟨way, hway, fun way' hway' => hway'.unique hway⟩
  · have hjoining : e.join.isJoining = true := by rw [Join.isJoining, ha]
    obtain ⟨past, first, rest, rfl, hopens, hgoes⟩ := run.session_of_joining hjoining
    obtain ⟨startedAt, -, hbounded⟩ := run.bounded hopens fun t ht =>
      hgoes t (List.dropLast_subset _ ht)
    obtain hgoing | ⟨hended, -⟩ := hbounded.standing
    · rw [JoinState.joining.inj (ha.symm.trans hgoing.state)]
      exact hgoing.count
    · rw [hjoining] at hended
      cases hended

/-- A simulated node that starts off the network and joins at the first attempt. -/
theorem Run.joins_bounded_simulated :
    ∃ first last e, Run .default [first, last] e ∧ first.input = .start ∧
      last.input = .event (.joinerChanged .joined) ∧ JoinSession [first, last] first [last] ∧
      (joinTrace [first, last]).starts.length ≤ 4096 ∧
      ∃! way, EndsBy [first, last] e.join.state way := by
  obtain ⟨first, hfirst, hstart, hbefore, hopening, -, hafter⟩ :=
    Engine.exists_turn .start Engine.default Host.answer (.initial .disabled)
  obtain ⟨last, hlast, hjoined, hagain, -, -, hended⟩ :=
    Engine.exists_turn (.event (.joinerChanged .joined)) first.after Host.answer
      (.initial .disabled)
  have run : Run .default [first] first.after :=
    .start first (by rw [hbefore]; exact Engine.new_default) hstart hfirst
  have run : Run .default ([first] ++ [last]) last.after :=
    .handle last _ (by rw [hagain]; exact run) hjoined hlast
  have hrole : first.role?.any Role.isAttached = false := by
    unfold Turn.role?
    rw [hstart, hopening]
    decide
  have hopens : first.OpensJoin := by
    refine ⟨.inr ⟨hstart, ?_, hrole⟩, ?_, 0, ?_⟩ <;> rw [hbefore]
    · rfl
    · decide
    · rfl
  have hgoes : first.after.join.isJoining = true := by
    rw [hafter]
    decide
  have hover : last.after.join.isJoining = false := by
    rw [hended, hafter]
    decide
  have hsession : JoinSession [first, last] first [last] :=
    ⟨⟨[], [], rfl⟩, hopens, by simpa using hgoes⟩
  obtain ⟨hbound, -, hways⟩ := run.joins_bounded.1 first [last] hsession
  exact ⟨first, last, _, run, hstart, hjoined, hsession, hbound, hways last rfl hover⟩

end MeshLight
