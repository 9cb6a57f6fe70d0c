import MeshLight.Prog

/-!
# MeshLight.Prog.Path

The paths of a program: which calls it makes, what they are answered, and where that leads. Nothing
is assumed about the answers, so what holds of every path holds in all surroundings; a run takes one
of the paths (`path_run`). The paths of two programs in sequence are those of the first, each
followed by one of the second (`path_bind_iff`).
-/

namespace MeshLight

/-- A call and the answer that came. -/
structure Exchange where
  call : Call
  answer : call.Answer

namespace Prog

/-- `Path p log a`: if its calls are answered as in `log`, the program makes just those calls and
results in `a`. -/
inductive Path : Prog α → List Exchange → α → Prop where
  | done (a : α) : Path (.done a) [] a
  | call (c : Call) (next : c.Answer → Prog α) (answer : c.Answer) :
      Path (next answer) log a → Path (.call c next) (⟨c, answer⟩ :: log) a

/-! ## shape -/

@[simp] theorem path_done_iff {a b : α} {log : List Exchange} :
    Path (.done a) log b ↔ log = [] ∧ b = a := by
  constructor
  · intro h
    cases h
    exact ⟨rfl, rfl⟩
  · intro h
    obtain ⟨rfl, rfl⟩ := h
    exact .done _

@[simp] theorem path_call_iff {c : Call} {next : c.Answer → Prog α} {log : List Exchange} {a : α} :
    Path (.call c next) log a ↔
      ∃ answer rest, log = ⟨c, answer⟩ :: rest ∧ Path (next answer) rest a := by
  constructor
  · intro h
    cases h with
    | call _ _ answer h => exact ⟨answer, _, rfl, h⟩
  · intro h
    obtain ⟨answer, rest, rfl, h⟩ := h
    exact .call c next answer h

/-- Two programs in sequence. -/
theorem path_bind_iff {p : Prog α} {f : α → Prog β} {log : List Exchange} {b : β} :
    Path (p >>= f) log b ↔
      ∃ a first rest, log = first ++ rest ∧ Path p first a ∧ Path (f a) rest b := by
  induction p generalizing log with
  | done a =>
    simp only [bind_done, path_done_iff]
    exact ⟨fun h => ⟨a, [], log, rfl, ⟨rfl, rfl⟩, h⟩,
      fun ⟨_, _, _, hlog, ⟨hf, ha⟩, h⟩ => by rw [hlog, hf, List.nil_append, ← ha]; exact h⟩
  | call c next ih =>
    simp only [bind_call, path_call_iff, ih]
    constructor
    · intro h
      obtain ⟨answer, _, rfl, a, first, rest, rfl, hp, hf⟩ := h
      exact ⟨a, ⟨c, answer⟩ :: first, rest, rfl, ⟨answer, first, rfl, hp⟩, hf⟩
    · intro h
      obtain ⟨a, _, rest, rfl, ⟨answer, first, rfl, hp⟩, hf⟩ := h
      exact ⟨answer, first ++ rest, rfl, a, first, rest, rfl, hp, hf⟩

/-! ## single calls -/

theorem path_mesh_iff {c : MeshCall} {log : List Exchange} {a : c.Answer} :
    Path (mesh c) log a ↔ log = [⟨.mesh c, a⟩] := by
  simp only [mesh, path_call_iff, path_done_iff]
  exact ⟨fun ⟨_, _, h, hr, ha⟩ => by rw [h, hr, ha], fun h => ⟨a, [], h, rfl, rfl⟩⟩

theorem path_board_iff {c : BoardCall} {log : List Exchange} {a : c.Answer} :
    Path (board c) log a ↔ log = [⟨.board c, a⟩] := by
  simp only [board, path_call_iff, path_done_iff]
  exact ⟨fun ⟨_, _, h, hr, ha⟩ => by rw [h, hr, ha], fun h => ⟨a, [], h, rfl, rfl⟩⟩

theorem path_timer_iff {c : TimerCall} {log : List Exchange} {a : c.Answer} :
    Path (timer c) log a ↔ log = [⟨.timer c, a⟩] := by
  simp only [timer, path_call_iff, path_done_iff]
  exact ⟨fun ⟨_, _, h, hr, ha⟩ => by rw [h, hr, ha], fun h => ⟨a, [], h, rfl, rfl⟩⟩

theorem path_emit_iff {n : Notice} {log : List Exchange} {a : Unit} :
    Path (emit n) log a ↔ log = [⟨.emit n, ()⟩] := by
  simp only [emit, path_call_iff, path_done_iff]
  exact ⟨fun ⟨_, _, h, hr, _⟩ => by rw [h, hr], fun h => ⟨(), [], h, rfl, trivial⟩⟩

/-! ## programs that may fail -/

/-- A call in a program that may fail. -/
theorem path_run_lift_iff {p : Prog α} {log : List Exchange} {r : Except ε α} :
    Path (liftM p : ExceptT ε Prog α).run log r ↔ ∃ a, r = .ok a ∧ Path p log a := by
  have hrun : (liftM p : ExceptT ε Prog α).run = (p >>= fun a => done (.ok a)) := rfl
  rw [hrun, path_bind_iff]
  constructor
  · intro h
    obtain ⟨a, first, rest, rfl, hp, hr⟩ := h
    rw [path_done_iff] at hr
    rw [hr.1, List.append_nil]
    exact ⟨a, hr.2, hp⟩
  · intro h
    obtain ⟨a, rfl, hp⟩ := h
    exact ⟨a, log, [], (List.append_nil log).symm, hp, .done _⟩

/-- Two programs in sequence, of which the first may fail; then the second is not run. -/
theorem path_run_bind_iff {p : ExceptT ε Prog α} {f : α → ExceptT ε Prog β} {log : List Exchange}
    {r : Except ε β} :
    Path (p >>= f).run log r ↔
      (∃ a first rest, log = first ++ rest ∧ Path p.run first (.ok a) ∧ Path (f a).run rest r) ∨
        ∃ fault, r = .error fault ∧ Path p.run log (.error fault) := by
  rw [ExceptT.run_bind, path_bind_iff]
  constructor
  · intro h
    obtain ⟨answer, first, rest, rfl, hp, hr⟩ := h
    cases answer with
    | ok a => exact .inl ⟨a, first, rest, rfl, hp, hr⟩
    | error fault =>
      simp only [pure_eq_done, path_done_iff] at hr
      rw [hr.1, List.append_nil]
      exact .inr ⟨fault, hr.2, hp⟩
  · intro h
    obtain ⟨a, first, rest, rfl, hp, hr⟩ | ⟨fault, rfl, hp⟩ := h
    · exact ⟨.ok a, first, rest, rfl, hp, hr⟩
    · exact ⟨.error fault, log, [], (List.append_nil log).symm, hp, .done _⟩

/-- A program that may fail, and a result computed from its own unless it does. -/
theorem path_run_map_iff {p : ExceptT ε Prog α} {g : α → β} {log : List Exchange}
    {r : Except ε β} :
    Path (p >>= fun a => pure (g a)).run log r ↔ ∃ answer, Path p.run log answer ∧
      r = answer.map g := by
  rw [path_run_bind_iff]
  constructor
  · intro h
    obtain ⟨a, first, rest, rfl, hp, hr⟩ | ⟨fault, rfl, hp⟩ := h
    · obtain ⟨rfl, rfl⟩ := path_done_iff.1 hr
      rw [List.append_nil]
      exact ⟨.ok a, hp, rfl⟩
    · exact ⟨.error fault, hp, rfl⟩
  · intro h
    obtain ⟨answer, hp, rfl⟩ := h
    cases answer with
    | ok a => exact .inl ⟨a, log, [], (List.append_nil log).symm, hp, .done _⟩
    | error fault => exact .inr ⟨fault, rfl, hp⟩

/-! ## runs -/

/-- The exchanges of a run. -/
def exchanges (answer : (c : Call) → σ → c.Answer × σ) : Prog α → σ → List Exchange
  | .done _, _ => []
  | .call c next, s => ⟨c, (answer c s).1⟩ :: exchanges answer (next (answer c s).1) (answer c s).2

theorem exchanges_bind (answer : (c : Call) → σ → c.Answer × σ) (p : Prog α) (f : α → Prog β)
    (s : σ) : (p >>= f).exchanges answer s =
      p.exchanges answer s ++ (f (p.run answer s).1).exchanges answer (p.run answer s).2 := by
  induction p generalizing s with
  | done a => rfl
  | call c next ih => simp [exchanges, run, ih]

/-- A run takes one of the paths. -/
theorem path_run (answer : (c : Call) → σ → c.Answer × σ) (p : Prog α) (s : σ) :
    Path p (p.exchanges answer s) (p.run answer s).1 := by
  induction p generalizing s with
  | done a => exact .done a
  | call c next ih => exact .call c next _ (ih _ _)

end Prog

end MeshLight
