import MeshLight.Node
import MeshLight.Proofs.Join.Moves

/-!
# MeshLight.Proofs.Session.Connecting

The session shows the connecting state while a join is in progress. The machine learns about the
join only when it follows the facts, and inputs about the role or joining let it do so. A factory
reset does not: it ends a join in progress as waiting work, after the machine was last told. From
then on, until the next input about the role or joining, the session still shows the connecting
state (`Interrupted`). That is the only way in which the two come apart
(`Run.connecting_iff_joining_iff`).
-/

namespace MeshLight

open Prog

/-- A factory reset ended a join in progress, and since then no input was about the role or
joining. -/
def Interrupted (turns : List Turn) : Prop :=
  ∃ past t later, turns = past ++ t :: later ∧ t.Wipes ∧ t.before.join.isJoining = true ∧
    ∀ u ∈ later, u.input.movesJoin = false

theorem not_interrupted_nil : ¬Interrupted [] := by
  intro h
  obtain ⟨past, t, later, hturns, -⟩ := h
  simp at hturns

theorem interrupted_concat {turns : List Turn} {t : Turn} :
    Interrupted (turns ++ [t]) ↔ t.Wipes ∧ t.before.join.isJoining = true ∨
      Interrupted turns ∧ t.input.movesJoin = false := by
  constructor
  · intro h
    obtain ⟨past, u, later, hturns, hwipes, hjoining, hlater⟩ := h
    obtain ⟨-, rfl, -⟩ | ⟨rest, rfl, rfl⟩ := append_cons_eq_concat_iff.1 hturns.symm
    · exact .inl ⟨hwipes, hjoining⟩
    · refine .inr ⟨⟨past, u, rest, rfl, hwipes, hjoining, fun w hw => hlater w ?_⟩, hlater _ ?_⟩
      · simp [hw]
      · simp
  · intro h
    obtain ⟨hwipes, hjoining⟩ | ⟨⟨past, u, later, rfl, hwipes, hjoining, hlater⟩, hmoves⟩ := h
    · exact ⟨turns, t, [], rfl, hwipes, hjoining, by simp⟩
    · refine ⟨past, u, later ++ [t], by simp, hwipes, hjoining, fun v hv => ?_⟩
      obtain hv | hv := List.mem_append.1 hv
      · exact hlater v hv
      · rw [List.mem_singleton.1 hv]
        exact hmoves

namespace Engine

variable {e e' : Engine} {log : List Exchange}

/-- Following the facts tells the session about the join. -/
theorem Follows.joinActive (h : Follows e e') : e'.session.joinActive = e'.join.isJoining := by
  rw [h.join]
  obtain ⟨-, hs⟩ | ⟨-, -, hs⟩ | ⟨-, -, hs⟩ := h.session <;> rw [hs] <;> simp [facing]

/-- What the session knows of the join: it is in progress, or was until a factory reset. A join is
in progress off the network only. -/
structure Shows (interrupted : Prop) (e : Engine) : Prop where
  active : e.session.joinActive = true ↔ e.join.isJoining = true ∨ interrupted
  apart : e.session.joinActive = true → e.session.attached = false
  wiped : interrupted → e.join.state = .idle 0

/-- What the session knows of the join right after the machine followed the facts. -/
theorem Shows.of_joinActive (h : e.session.joinActive = e.join.isJoining)
    (hapart : e.join.isJoining = true → e.session.attached = false) : Shows False e where
  active := by rw [h, or_false]
  apart hactive := hapart (h ▸ hactive)
  wiped := False.elim

theorem Shows.connecting_iff {interrupted : Prop} (h : Shows interrupted e) (hm : e.Mirrors) :
    e.state = .connecting ↔ e.join.isJoining = true ∨ interrupted := by
  rw [← h.active, show e.state = _ from hm, SessionState.calledFor]
  cases ha : e.session.attached <;> cases hj : e.session.joinActive <;> simp
  rw [h.apart hj] at ha
  cases ha

theorem Shows.of_not {interrupted : Prop} (h : Shows interrupted e) (hnot : ¬interrupted) :
    Shows False e where
  active := by rw [h.active, or_iff_left hnot, or_false]
  apart := h.apart
  wiped := False.elim

/-- A request to join is accepted, or else there was nothing the machine had to be told. -/
theorem Shows.requestJoin {interrupted : Prop} (h : Shows interrupted e) (hm : e.Mirrors)
    (hpath : Path e.requestJoin log e') : Shows False e' := by
  obtain ⟨hs, -, rfl⟩ | ⟨hs, now, rest, -, ⟨⟨refusal, hrefused⟩, -, rfl⟩ |
    ⟨join, answer, last, -, -, hanswer⟩⟩ := path_requestJoin_cases hpath
  · refine h.of_not fun hinterrupted => ?_
    rw [(h.connecting_iff hm).2 (.inr hinterrupted)] at hs
    cases hs
  · refine h.of_not fun hinterrupted => ?_
    simp [Join.begin, h.wiped hinterrupted] at hrefused
  · have hdetached : e.session.attached = false :=
      Bool.eq_false_iff.2 (mt hm.connected_iff.2 hs)
    have hfollow : ∃ e₁, JoinStep e e₁ ∧ Follows e₁ e' := by
      obtain ⟨-, hsync⟩ | ⟨-, hsync⟩ := hanswer
      · exact ⟨_, .signal join _ rfl, (path_sync hsync).2⟩
      · exact ⟨_, .quiet _, (path_sync hsync).2⟩
    obtain ⟨e₁, hstep, hfollow⟩ := hfollow
    refine .of_joinActive hfollow.joinActive fun _ => ?_
    rw [hfollow.attached, hstep.sameFacts.1.attached, hdetached]

end Engine

variable {turns : List Turn} {t : Turn}

/-- An input about the role or joining lets the machine follow the join. -/
theorem Turn.Happens.shows_of_movesJoin (ht : t.Happens) {interrupted : Prop}
    (h : t.before.Shows interrupted) (hm : t.before.Mirrors)
    (hstart : t.input = .start → t.before.state ≠ .connected ∧ ¬interrupted)
    (hmoves : t.input.movesJoin = true) : t.applied.Shows False := by
  have hmove := ht.joinMove fun hinput => (hstart hinput).1
  have hreceives := ht.receives
  cases hinput : t.input with
  | start =>
      rw [hinput] at hreceives
      obtain ⟨role, rest, -, ⟨ha, hsync⟩ | ⟨-, -, hrequest⟩ | ⟨-, -, -, happlied⟩⟩ :=
        Engine.path_startUp_cases (hstart hinput).1 hreceives
      · have hfollow := (Engine.path_onRole hsync).2
        refine .of_joinActive hfollow.joinActive fun hjoining => ?_
        rw [hfollow.join, Engine.told, if_pos ha] at hjoining
        cases hjoining
      · exact h.requestJoin hm hrequest
      · rw [happlied]
        exact h.of_not (hstart hinput).2
  | event event =>
      rw [hinput] at hreceives hmoves
      cases event with
      | roleChanged role =>
          have hfollow := (Engine.path_onRole hreceives).2
          refine .of_joinActive hfollow.joinActive fun hjoining => ?_
          rw [hfollow.attached]
          cases ha : role.isAttached with
          | false => exact ha
          | true =>
              rw [hfollow.join, Engine.told, if_pos ha] at hjoining
              cases hjoining
      | joinRequested => exact h.requestJoin hm hreceives
      | joinerChanged state =>
          obtain ⟨-, e₁, hstep, hfollow⟩ := Engine.path_onJoiner hreceives
          refine .of_joinActive hfollow.joinActive fun hjoining => ?_
          rw [hfollow.attached, hstep.sameFacts.1.attached]
          refine h.apart (h.active.2 (.inl ?_))
          cases hbefore : t.before.join.isJoining with
          | true => rfl
          | false =>
              exact absurd (hmove.opensJoin hbefore hjoining) (not_opensJoin_of_event hinput nofun)
      | _ => cases hmoves

/-- A turn keeps track of the join, up to a factory reset that ends it. -/
theorem Turn.Happens.shows (ht : t.Happens) (h : t.before.Shows (Interrupted turns))
    (hrest : AtRest turns t.before)
    (hstart : t.input = .start → t.before.state ≠ .connected ∧ ¬Interrupted turns) :
    t.after.Shows (Interrupted (turns ++ [t])) := by
  have hsame := ht.drains.sameFacts.1
  have hactive : t.after.session.joinActive = t.applied.session.joinActive := by
    rw [hsame.session]
  have hcases := ht.join_cases hrest.idle fun hinput => (hstart hinput).1
  cases hmoves : t.input.movesJoin with
  | true =>
      obtain ⟨-, hnot, -⟩ | ⟨hkeeps, hjoin, -⟩ := hcases
      · rw [hmoves] at hnot
        cases hnot
      · have happlied := ht.shows_of_movesJoin h hrest.mirrors hstart hmoves
        have hnot : ¬Interrupted (turns ++ [t]) := by
          rw [interrupted_concat, hmoves]
          simp [hkeeps]
        refine ⟨?_, ?_, fun hi => absurd hi hnot⟩
        · rw [hactive, hjoin, happlied.active, or_iff_left not_false, or_iff_left hnot]
        · rw [hactive, hsame.attached]
          exact happlied.apart
  | false =>
      obtain ⟨-, -, -, happlied, hkept⟩ := ht.join_applied hmoves
      have hattached : t.after.session.attached = t.before.session.attached := by
        rw [hsame.attached]
        have hreceives := ht.receives
        cases hinput : t.input with
        | start => rw [hinput] at hmoves; cases hmoves
        | event event =>
            rw [hinput] at hreceives
            refine (Engine.keepsStanding_of_path_apply hrest.mirrors ?_ hreceives).attached
            intro role hrole
            rw [hinput, hrole] at hmoves
            cases hmoves
      rw [hkept] at hactive
      obtain ⟨hwipes, -, -, hjoin⟩ | ⟨hkeeps, hjoin, -⟩ := hcases
      · refine ⟨?_, ?_, fun _ => by rw [hjoin]; rfl⟩
        · rw [hactive, h.active, interrupted_concat, hjoin, hmoves]
          simp [hwipes, Join.reset, Join.isJoining]
        · rw [hactive, hattached]
          exact h.apart
      · have hiff : Interrupted (turns ++ [t]) ↔ Interrupted turns := by
          rw [interrupted_concat, hmoves]
          simp [hkeeps]
        rw [happlied] at hjoin
        refine ⟨?_, ?_, ?_⟩
        · rw [hactive, h.active, hiff, hjoin]
        · rw [hactive, hattached]
          exact h.apart
        · rw [hiff, hjoin]
          exact h.wiped

/-! ## runs -/

variable {config : Config} {e : Engine}

theorem Run.shows (run : Run config turns e) : e.Shows (Interrupted turns) := by
  induction run with
  | start t hnew hinput ht =>
      obtain ⟨-, interval, hengine⟩ := Engine.eq_of_new hnew
      have hnew' : t.before.Shows (Interrupted []) := by
        rw [hengine]
        refine ⟨?_, nofun, fun h => absurd h not_interrupted_nil⟩
        simp [Session.initial, Join.initial, Join.isJoining, not_interrupted_nil]
      exact ht.shows hnew' (atRest_new hnew) fun _ =>
        ⟨Engine.state_new hnew, not_interrupted_nil⟩
  | handle t event run hinput ht ih =>
      exact ht.shows ih run.atRest.1 fun hstart => absurd hstart (Turn.ne_start_of_event hinput)

/-- A join in progress is always shown. -/
theorem Run.connecting_of_isJoining (run : Run config turns e) (h : e.join.isJoining = true) :
    e.state = .connecting :=
  (run.shows.connecting_iff run.atRest.1.mirrors).2 (.inl h)

/-- The session shows the connecting state exactly while a join is in progress, unless a factory
reset has ended a join in progress and no input about the role or joining came since. A join in
progress is always shown; in the exceptional case one is shown although joining is idle. -/
theorem Run.connecting_iff_joining_iff (run : Run config turns e) :
    ((e.state = .connecting ↔ e.join.isJoining = true) ↔ ¬Interrupted turns) ∧
    (e.join.isJoining = true → e.state = .connecting) ∧
    (Interrupted turns → e.state = .connecting ∧ e.join.state = .idle 0) := by
  have hshows := run.shows
  have hconnecting := hshows.connecting_iff run.atRest.1.mirrors
  have hwiped : Interrupted turns → e.join.isJoining = false := by
    intro hinterrupted
    rw [Join.isJoining, hshows.wiped hinterrupted]
  refine ⟨⟨fun hiff hinterrupted => ?_, fun hnot => ?_⟩, fun hjoining => ?_, fun hinterrupted => ?_⟩
  · have hjoining := hiff.1 (hconnecting.2 (.inr hinterrupted))
    rw [hwiped hinterrupted] at hjoining
    cases hjoining
  · rw [hconnecting, or_iff_left hnot]
  · exact hconnecting.2 (.inl hjoining)
  · exact ⟨hconnecting.2 (.inr hinterrupted), hshows.wiped hinterrupted⟩

/-- A simulated node that joins as soon as it starts. -/
theorem Run.connecting_iff_joining_iff_simulated :
    ∃ turns e, Run .default turns e ∧ turns.map Turn.input = [.start] ∧
      e.join.isJoining = true ∧ e.state = .connecting ∧ ¬Interrupted turns := by
  obtain ⟨turns, run, hinputs, -⟩ := exists_run_of_answer Engine.new_default []
    Host.answer (.initial .disabled)
  have hjoining : ((Engine.default.start >>= Engine.handleAll []).run Host.answer
      (.initial .disabled)).1.join.isJoining = true := by
    decide
  obtain ⟨hiff, hshown, -⟩ := run.connecting_iff_joining_iff
  have hconnecting := hshown hjoining
  exact ⟨turns, _, run, hinputs, hjoining, hconnecting, hiff.1 (iff_of_true hconnecting hjoining)⟩

/-- A factory reset while a simulated node joins: nothing is being joined any more, but the session
still shows the connecting state. -/
theorem Run.connecting_after_reset :
    ∃ turns e, Run .default turns e ∧
      turns.map Turn.input = [.start, .event .factoryResetRequested] ∧
      e.state = .connecting ∧ e.join.isJoining = false := by
  obtain ⟨turns, run, hinputs, -⟩ := exists_run_of_answer Engine.new_default
    [.factoryResetRequested] Host.answer (.initial .disabled)
  exact ⟨turns, _, run, hinputs, by decide, by decide⟩

end MeshLight
