import MeshLight.Proofs.Engine.Work

/-!
# MeshLight.Proofs.Engine.Run

The runs of an engine. Waiting work is done piece by piece (`Drains`): as long as work waits, the
oldest piece is taken and done. That always comes to an end, and the bound with which the engine
counts the pieces never cuts it short (`path_runPending_iff`). A run begins with the start and goes
on with one turn for each event; it keeps for every turn the engines and the calls of its steps.
Runs are just the paths of starting an engine and letting it deal with events (`exists_run_iff`).
-/

namespace MeshLight

open Prog

/-! ## how much work waits -/

namespace Engine

variable {e e' : Engine} {log : List Exchange}

/-- The work that waits, counted with what it asks for. -/
def load (e : Engine) : Nat := e.session.work.weigh workload

theorem one_le_workload (w : Work) : 1 ≤ workload w := by
  unfold workload
  split <;> decide

/-- Every piece of work that is done makes the load smaller. -/
theorem load_execute_lt {w : Work} (h : Path (e.execute w) log e') :
    e'.load < e.load + workload w := by
  obtain hw | ⟨hw, -, rfl⟩ := (path_execute h).2
  · have hpos := one_le_workload w
    unfold load
    rw [hw]
    omega
  · have hsum := WorkQueue.weigh_submit_le workload .sendProvisioning e.session.work
    have hone : workload .sendProvisioning = 1 := rfl
    rw [hone] at hsum
    have hload : (e.submit .sendProvisioning).load =
        (e.session.work.submit .sendProvisioning).2.weigh workload := rfl
    rw [hload, hw]
    unfold load
    omega

/-! ## draining -/

theorem nextWork?_eq_none_iff : e.nextWork? = none ↔ e.session.work.items = [] := by
  unfold nextWork? WorkQueue.pop?
  cases h : e.session.work.items <;> simp

theorem nextWork?_eq_some_iff {w : Work} :
    e.nextWork? = some (w, e') ↔ ∃ rest, e.session.work.items = w :: rest ∧
      e' = { e with session := { e.session with work := ⟨rest⟩ } } := by
  unfold nextWork? WorkQueue.pop?
  cases h : e.session.work.items with
  | nil => simp
  | cons w' rest =>
      simp only [Option.some.injEq, Prod.mk.injEq, List.cons.injEq]
      constructor
      · intro hboth
        obtain ⟨rfl, rfl⟩ := hboth
        exact ⟨rest, ⟨rfl, rfl⟩, rfl⟩
      · intro hboth
        obtain ⟨_, ⟨rfl, rfl⟩, rfl⟩ := hboth
        exact ⟨rfl, rfl⟩

/-- A load of zero means that no work waits. -/
theorem nextWork?_eq_none_of_load (hload : e.load = 0) : e.nextWork? = none := by
  rw [nextWork?_eq_none_iff]
  cases hitems : e.session.work.items with
  | nil => rfl
  | cons w rest =>
      have hpos := one_le_workload w
      rw [load, WorkQueue.weigh_of_items_eq_cons workload hitems] at hload
      omega

/-- Taking a piece of work takes its weight from the queue. -/
theorem weigh_of_nextWork?_eq_some (weight : Work → Nat) {w : Work}
    (h : e.nextWork? = some (w, e')) :
    e.session.work.weigh weight = e'.session.work.weigh weight + weight w := by
  obtain ⟨rest, hitems, rfl⟩ := nextWork?_eq_some_iff.1 h
  rw [WorkQueue.weigh_of_items_eq_cons weight hitems]
  exact Nat.add_comm _ _

end Engine

/-- A piece of work that was done: the engine it was done on, with the calls it made. -/
structure Task where
  work : Work
  before : Engine
  log : List Exchange
  after : Engine

namespace Engine

/-- The waiting work is done, oldest first, until none is left. -/
inductive Drains : Engine → List Task → Engine → Prop where
  | rest {e : Engine} (hnone : e.nextWork? = none) : Drains e [] e
  | work {e e' : Engine} {tasks : List Task} (task : Task)
      (hnext : e.nextWork? = some (task.work, task.before))
      (hdone : Path (task.before.execute task.work) task.log task.after)
      (hrest : Drains task.after tasks e') : Drains e (task :: tasks) e'

variable {e e' : Engine} {log : List Exchange} {tasks : List Task}

theorem drains_iff_of_nextWork?_eq_none (h : e.nextWork? = none) :
    Drains e tasks e' ↔ tasks = [] ∧ e' = e := by
  constructor
  · intro hd
    cases hd with
    | rest => exact ⟨rfl, rfl⟩
    | work task hnext => rw [h] at hnext; cases hnext
  · intro hrest
    obtain ⟨rfl, rfl⟩ := hrest
    exact .rest h

theorem drains_iff_of_nextWork?_eq_some {w : Work} {e₁ : Engine}
    (h : e.nextWork? = some (w, e₁)) :
    Drains e tasks e' ↔ ∃ first e₂ rest, tasks = ⟨w, e₁, first, e₂⟩ :: rest ∧
      Path (e₁.execute w) first e₂ ∧ Drains e₂ rest e' := by
  constructor
  · intro hd
    cases hd with
    | rest hnone => rw [h] at hnone; cases hnone
    | @work _ _ rest task hnext hdone hrest =>
        obtain ⟨w', before, first, after⟩ := task
        rw [h] at hnext
        cases hnext
        exact ⟨first, after, rest, rfl, hdone, hrest⟩
  · intro hrest
    obtain ⟨first, e₂, rest, rfl, hdone, hrest⟩ := hrest
    exact .work ⟨w, e₁, first, e₂⟩ h hdone hrest

/-- With no work that waits, nothing more is done. -/
theorem path_rest_iff (h : e.nextWork? = none) :
    Path (.done e) log e' ↔ ∃ tasks, Drains e tasks e' ∧ log = tasks.flatMap Task.log := by
  simp only [path_done_iff, drains_iff_of_nextWork?_eq_none h]
  constructor
  · intro hrest
    obtain ⟨rfl, rfl⟩ := hrest
    exact ⟨[], ⟨rfl, rfl⟩, rfl⟩
  · intro hrest
    obtain ⟨_, ⟨rfl, rfl⟩, rfl⟩ := hrest
    exact ⟨rfl, rfl⟩

/-- As many pieces as the load are enough to do all the work. -/
theorem path_drain_iff {pieces : Nat} (hload : e.load ≤ pieces) :
    Path (e.drain pieces) log e' ↔ ∃ tasks, Drains e tasks e' ∧ log = tasks.flatMap Task.log := by
  induction pieces generalizing e log with
  | zero =>
      have hnone := nextWork?_eq_none_of_load (Nat.le_zero.1 hload)
      rw [drain, pure_eq_done]
      exact path_rest_iff hnone
  | succ pieces ih =>
      cases hnext : e.nextWork? with
      | none =>
          simp only [drain, hnext, pure_eq_done]
          exact path_rest_iff hnext
      | some next =>
          obtain ⟨w, e₁⟩ := next
          have htaken : e.load = e₁.load + workload w := weigh_of_nextWork?_eq_some workload hnext
          simp only [drain, hnext, path_bind_iff, drains_iff_of_nextWork?_eq_some hnext]
          constructor
          · intro h
            obtain ⟨e₂, first, rest, rfl, hdone, hrest⟩ := h
            have hless := load_execute_lt hdone
            obtain ⟨tasks, hd, rfl⟩ := (ih (by omega)).1 hrest
            exact ⟨_, ⟨first, e₂, tasks, rfl, hdone, hd⟩, rfl⟩
          · intro h
            obtain ⟨_, ⟨first, e₂, rest, rfl, hdone, hrest⟩, rfl⟩ := h
            have hless := load_execute_lt hdone
            exact ⟨e₂, first, rest.flatMap Task.log, rfl, hdone,
              (ih (by omega)).2 ⟨rest, hrest, rfl⟩⟩

/-- The engine does all the work that waits, and what that asks for. -/
theorem path_runPending_iff :
    Path e.runPending log e' ↔ ∃ tasks, Drains e tasks e' ∧ log = tasks.flatMap Task.log :=
  path_drain_iff (Nat.le_refl e.load)

/-- An engine without waiting work does nothing. -/
theorem Drains.of_idle (h : Drains e tasks e') (hidle : e.session.work.items = []) :
    tasks = [] ∧ e' = e :=
  (drains_iff_of_nextWork?_eq_none (nextWork?_eq_none_iff.2 hidle)).1 h

/-- The oldest work is done first. -/
theorem Drains.of_items_eq_cons (h : Drains e tasks e') {w : Work} {waiting : List Work}
    (hitems : e.session.work.items = w :: waiting) :
    ∃ first e₂ rest,
      tasks = ⟨w, { e with session := { e.session with work := ⟨waiting⟩ } }, first, e₂⟩ :: rest ∧
      Path (execute w { e with session := { e.session with work := ⟨waiting⟩ } }) first e₂ ∧
      Drains e₂ rest e' :=
  (drains_iff_of_nextWork?_eq_some (nextWork?_eq_some_iff.2 ⟨waiting, hitems, rfl⟩)).1 h

theorem Drains.nextWork?_eq_none (h : Drains e tasks e') :
    e'.nextWork? = none := by
  induction h with
  | rest hnone => exact hnone
  | work _ _ _ _ ih => exact ih

/-- What is done was put through, from start to end. -/
theorem Drains.executes (h : Drains e tasks e') :
    ∀ task ∈ tasks, Path (task.before.execute task.work) task.log task.after := by
  induction h with
  | rest hnone => exact fun task h => absurd h List.not_mem_nil
  | work task hnext hdone hrest ih =>
      intro later hlater
      obtain rfl | hlater := List.mem_cons.1 hlater
      · exact hdone
      · exact ih later hlater

/-- The work that is done does not change where the node stands, before any piece of it or after
all of it. -/
theorem Drains.sameFacts (h : Drains e tasks e') :
    SameFacts e e' ∧ ∀ task ∈ tasks, SameFacts e task.before := by
  induction h with
  | rest hnone => exact ⟨.refl _, fun _ h => absurd h List.not_mem_nil⟩
  | @work e _ _ task hnext hdone hrest ih =>
      obtain ⟨rest, -, hbefore⟩ := nextWork?_eq_some_iff.1 hnext
      have hpop : SameFacts e task.before := by
        rw [hbefore]
        exact ⟨rfl, rfl, rfl⟩
      have hafter := hpop.trans (path_execute hdone).1
      refine ⟨hafter.trans ih.1, ?_⟩
      intro t ht
      obtain rfl | ht := List.mem_cons.1 ht
      · exact hpop
      · exact hafter.trans (ih.2 t ht)

/-! ## turns -/

/-- The first part of starting: everything but the waiting work. -/
def startUp (e : Engine) : Prog Engine := do
  let e := { e with session := e.machine.start e.session }
  Prog.emit (.started e.state)
  let role ← Prog.mesh .role
  if role.isAttached then e.onRole role
  else if e.config.autoJoin then e.requestJoin
  else pure e

theorem start_eq (e : Engine) : e.start = e.startUp >>= runPending := by
  simp only [start, startUp, bind_assoc]
  congr 1
  funext _
  congr 1
  funext role
  split
  · rfl
  · split <;> rfl

end Engine

/-- What the engine is asked to do. -/
inductive Input where
  | start
  | event (event : Event)
  deriving DecidableEq

namespace Engine

/-- Does what is asked. -/
def take : Input → Engine → Prog Engine
  | .start => start
  | .event event => handle event

/-- Does what is asked up to the waiting work. -/
def receive : Input → Engine → Prog Engine
  | .start => startUp
  | .event event => apply event

theorem take_eq (input : Input) (e : Engine) : e.take input = e.receive input >>= runPending := by
  cases input with
  | start => exact start_eq e
  | event event => rfl

end Engine

/-- One turn of the engine: what it was asked to do, the calls with which it applied that, and the
work that it then did. -/
structure Turn where
  input : Input
  before : Engine
  opening : List Exchange
  applied : Engine
  tasks : List Task
  after : Engine

namespace Turn

/-- All calls of a turn. -/
def log (t : Turn) : List Exchange := t.opening ++ t.tasks.flatMap Task.log

/-- A turn as the engine takes it. -/
structure Happens (t : Turn) : Prop where
  receives : Path (t.before.receive t.input) t.opening t.applied
  drains : Engine.Drains t.applied t.tasks t.after

theorem ne_start_of_event {t : Turn} {event : Event} (hinput : t.input = .event event) :
    t.input ≠ .start := by
  rw [hinput]
  nofun

end Turn

/-- Turns are the paths of what the engine does. -/
theorem Engine.path_take_iff {e e' : Engine} {log : List Exchange} (input : Input) :
    Path (e.take input) log e' ↔
      ∃ t : Turn, t.Happens ∧ t.input = input ∧ t.before = e ∧ t.log = log ∧ t.after = e' := by
  rw [take_eq, path_bind_iff]
  constructor
  · intro h
    obtain ⟨applied, opening, rest, rfl, ha, hr⟩ := h
    obtain ⟨tasks, hd, rfl⟩ := path_runPending_iff.1 hr
    exact ⟨⟨input, e, opening, applied, tasks, e'⟩, ⟨ha, hd⟩, rfl, rfl, rfl, rfl⟩
  · intro h
    obtain ⟨t, ht, rfl, rfl, rfl, rfl⟩ := h
    exact ⟨t.applied, t.opening, _, rfl, ht.receives,
      path_runPending_iff.2 ⟨t.tasks, ht.drains, rfl⟩⟩

/-- Surroundings that answer from a state of their own take the engine through a turn. -/
theorem Engine.exists_turn (input : Input) (e : Engine)
    (answer : (c : Call) → σ → c.Answer × σ) (s : σ) :
    ∃ t : Turn, t.Happens ∧ t.input = input ∧ t.before = e ∧
      t.opening = (e.receive input).exchanges answer s ∧
      t.log = (e.take input).exchanges answer s ∧ t.after = ((e.take input).run answer s).1 := by
  obtain ⟨tasks, hdrains, hlog⟩ := path_runPending_iff.1
    (path_run answer ((e.receive input).run answer s).1.runPending ((e.receive input).run answer s).2)
  refine ⟨⟨input, e, _, _, tasks, _⟩, ⟨path_run answer (e.receive input) s, hdrains⟩, rfl, rfl, rfl,
    ?_, ?_⟩
  · rw [take_eq, exchanges_bind, Turn.log, hlog]
  · rw [take_eq, run_bind]

/-! ## histories -/

/-- An element of a history that has grown by one is the newest, or was there before. -/
theorem append_cons_eq_concat_iff {past later history : List α} {x newest : α} :
    past ++ x :: later = history ++ [newest] ↔
      (past = history ∧ x = newest ∧ later = []) ∨
        ∃ rest, later = rest ++ [newest] ∧ past ++ x :: rest = history := by
  constructor
  · intro h
    obtain rfl | ⟨rest, last, rfl⟩ := List.eq_nil_or_concat later
    · obtain ⟨rfl, hx⟩ := List.append_inj' h rfl
      exact .inl ⟨rfl, List.singleton_inj.1 hx, rfl⟩
    · rw [List.concat_eq_append, ← List.cons_append, ← List.append_assoc] at h
      obtain ⟨rfl, hlast⟩ := List.append_inj' h rfl
      exact .inr ⟨rest, by rw [List.concat_eq_append, hlast], rfl⟩
  · intro h
    obtain ⟨rfl, rfl, rfl⟩ | ⟨rest, rfl, rfl⟩ := h
    · rfl
    · rw [← List.cons_append, ← List.append_assoc]

/-- Of two elements of a history the one comes before the other, or they are the same, if no more
comes before it. -/
theorem eq_or_mem_of_append_cons_eq {past later before rest : List α} {x y : α}
    (h : past ++ x :: later = before ++ y :: rest) (hle : past.length ≤ before.length) :
    past = before ∧ x = y ∨ x ∈ before := by
  obtain ⟨between, rfl, hbetween⟩ | ⟨between, rfl, hbetween⟩ := List.append_eq_append_iff.1 h
  · cases between with
    | nil =>
        obtain ⟨rfl, -⟩ := List.cons.inj hbetween
        exact .inl ⟨(List.append_nil past).symm, rfl⟩
    | cons z between =>
        obtain ⟨rfl, -⟩ := List.cons.inj hbetween
        exact .inr (by simp)
  · rw [List.length_append] at hle
    obtain rfl : between = [] := List.eq_nil_of_length_eq_zero (by omega)
    obtain ⟨rfl, -⟩ := List.cons.inj hbetween
    exact .inl ⟨List.append_nil before, rfl⟩

/-! ## runs -/

/-- The runs of an engine with the given configuration: the turns so far, and the engine after
them. Every call may be answered in any way. -/
inductive Run (config : Config) : List Turn → Engine → Prop where
  | start (t : Turn) (hnew : Engine.new config = .ok t.before) (hinput : t.input = .start)
      (ht : t.Happens) : Run config [t] t.after
  | handle {turns : List Turn} (t : Turn) (event : Event) (run : Run config turns t.before)
      (hinput : t.input = .event event) (ht : t.Happens) : Run config (turns ++ [t]) t.after

variable {config : Config}

/-- The last turn of a run is its start, or deals with an event after a shorter run. -/
theorem Run.last {past : List Turn} {t : Turn} {e : Engine} (run : Run config (past ++ [t]) e) :
    t.Happens ∧ e = t.after ∧
      (past = [] ∧ Engine.new config = .ok t.before ∧ t.input = .start ∨
        Run config past t.before ∧ ∃ event, t.input = .event event) := by
  generalize hturns : past ++ [t] = turns at run
  cases run with
  | start t' hnew hinput ht =>
      obtain ⟨rfl, htt⟩ := List.append_inj' (hturns.trans (List.nil_append [t']).symm) rfl
      cases htt
      exact ⟨ht, rfl, .inl ⟨rfl, hnew, hinput⟩⟩
  | handle t' event run hinput ht =>
      obtain ⟨rfl, htt⟩ := List.append_inj' hturns rfl
      cases htt
      exact ⟨ht, rfl, .inr ⟨run, event, hinput⟩⟩

/-- Every turn of a run is the start, or deals with an event after a shorter run. -/
theorem Run.split {past later : List Turn} {t : Turn} {e : Engine}
    (run : Run config (past ++ t :: later) e) :
    Run config (past ++ [t]) t.after ∧ t.Happens ∧
      (past = [] ∧ Engine.new config = .ok t.before ∧ t.input = .start ∨
        Run config past t.before ∧ ∃ event, t.input = .event event) := by
  generalize hturns : past ++ t :: later = turns at run
  induction run generalizing later with
  | start u hnew hinput ht =>
      rw [← List.nil_append [u]] at hturns
      obtain ⟨rfl, rfl, -⟩ | ⟨rest, -, hrest⟩ := append_cons_eq_concat_iff.1 hturns
      · exact ⟨.start t hnew hinput ht, ht, .inl ⟨rfl, hnew, hinput⟩⟩
      · simp at hrest
  | handle u event run hinput ht ih =>
      obtain ⟨rfl, rfl, -⟩ | ⟨rest, -, hrest⟩ := append_cons_eq_concat_iff.1 hturns
      · exact ⟨.handle t event run hinput ht, ht, .inr ⟨run, event, hinput⟩⟩
      · exact ih hrest

/-- The first turns of a run are a run. -/
theorem Run.of_append {past later : List Turn} {e : Engine} (run : Run config (past ++ later) e)
    (hne : past ≠ []) : ∃ e', Run config past e' := by
  obtain rfl | ⟨init, t, rfl⟩ := List.eq_nil_or_concat past
  · exact absurd rfl hne
  · rw [List.concat_eq_append, List.append_assoc] at run
    rw [List.concat_eq_append]
    exact ⟨t.after, run.split.1⟩

/-- A run goes on along any path of dealing with further events. -/
theorem Run.handleAll {turns : List Turn} {e e' : Engine} {events : List Event}
    {log : List Exchange} (run : Run config turns e)
    (h : Path (Engine.handleAll events e) log e') :
    ∃ later, Run config (turns ++ later) e' ∧
      later.map Turn.input = events.map Input.event ∧ later.flatMap Turn.log = log := by
  induction events generalizing turns e log with
  | nil =>
      simp only [Engine.handleAll, pure_eq_done, path_done_iff] at h
      obtain ⟨rfl, rfl⟩ := h
      exact ⟨[], by rwa [List.append_nil], rfl, rfl⟩
  | cons event events ih =>
      rw [Engine.handleAll, path_bind_iff] at h
      obtain ⟨e₁, first, rest, rfl, hfirst, hrest⟩ := h
      obtain ⟨t, ht, hinput, rfl, rfl, rfl⟩ :=
        (Engine.path_take_iff (.event event)).1 hfirst
      obtain ⟨later, hrun, hinputs, hlog⟩ := ih (run.handle t event hinput ht) hrest
      refine ⟨t :: later, ?_, ?_, ?_⟩
      · rwa [List.append_assoc] at hrun
      · rw [List.map_cons, List.map_cons, hinputs, hinput]
      · rw [List.flatMap_cons, hlog]

/-- The calls of a run are a path of dealing with its events. -/
theorem Run.path {turns : List Turn} {e : Engine} (run : Run config turns e) :
    ∃ e₀ events, Engine.new config = .ok e₀ ∧
      turns.map Turn.input = .start :: events.map Input.event ∧
      Path (e₀.start >>= Engine.handleAll events) (turns.flatMap Turn.log) e := by
  induction run with
  | start t hnew hinput ht =>
      have htake : Path (t.before.take t.input) t.log t.after :=
        (Engine.path_take_iff t.input).2 ⟨t, ht, rfl, rfl, rfl, rfl⟩
      rw [hinput] at htake
      refine ⟨t.before, [], hnew, by simp [hinput], path_bind_iff.2 ?_⟩
      exact ⟨t.after, t.log, [], by simp, htake, .done _⟩
  | @handle earlier t event run hinput ht ih =>
      obtain ⟨e₀, events, hnew, hinputs, hpath⟩ := ih
      have htake : Path (t.before.take t.input) t.log t.after :=
        (Engine.path_take_iff t.input).2 ⟨t, ht, rfl, rfl, rfl, rfl⟩
      rw [hinput] at htake
      have hall : (e₀.start >>= Engine.handleAll (events ++ [event])) =
          e₀.start >>= Engine.handleAll events >>= Engine.take (.event event) := by
        rw [bind_assoc]
        congr 1
        funext e
        rw [Engine.handleAll_append]
        congr 1
        funext e
        exact bind_pure (e.handle event)
      refine ⟨e₀, events ++ [event], hnew, by simp [hinputs, hinput], ?_⟩
      rw [hall, path_bind_iff]
      exact ⟨t.before, earlier.flatMap Turn.log, t.log, by simp, hpath, htake⟩

/-- Runs are the paths of starting the engine and letting it deal with events. -/
theorem exists_run_iff {events : List Event} {log : List Exchange} {e : Engine} :
    (∃ turns, Run config turns e ∧ turns.map Turn.input = .start :: events.map Input.event ∧
        turns.flatMap Turn.log = log) ↔
      ∃ e₀, Engine.new config = .ok e₀ ∧ Path (e₀.start >>= Engine.handleAll events) log e := by
  constructor
  · intro h
    obtain ⟨turns, run, hinputs, rfl⟩ := h
    obtain ⟨e₀, events', hnew, hinputs', hpath⟩ := run.path
    rw [hinputs, List.cons.injEq, List.map_inj_right fun _ _ => Input.event.inj] at hinputs'
    rw [← hinputs'.2] at hpath
    exact ⟨e₀, hnew, hpath⟩
  · intro h
    obtain ⟨e₀, hnew, hpath⟩ := h
    obtain ⟨e₁, first, rest, rfl, hstart, hrest⟩ := path_bind_iff.1 hpath
    obtain ⟨t, ht, hinput, rfl, rfl, rfl⟩ := (Engine.path_take_iff .start).1 hstart
    obtain ⟨later, run, hinputs, hlog⟩ := (Run.start t hnew hinput ht).handleAll hrest
    exact ⟨t :: later, run, by rw [List.map_cons, hinput, hinputs], by rw [List.flatMap_cons, hlog]⟩

/-- Surroundings that answer from a state of their own run the engine along one of its runs. -/
theorem exists_run_of_answer {e₀ : Engine} (hnew : Engine.new config = .ok e₀)
    (events : List Event) (answer : (c : Call) → σ → c.Answer × σ) (s : σ) :
    ∃ turns, Run config turns ((e₀.start >>= Engine.handleAll events).run answer s).1 ∧
      turns.map Turn.input = .start :: events.map Input.event ∧
      turns.flatMap Turn.log = (e₀.start >>= Engine.handleAll events).exchanges answer s :=
  exists_run_iff.2 ⟨e₀, hnew, path_run answer _ s⟩

/-- A run goes on in any surroundings. -/
theorem Run.exists_handle {turns : List Turn} {e : Engine} (run : Run config turns e)
    (event : Event) (answer : (c : Call) → σ → c.Answer × σ) (s : σ) :
    ∃ t, Run config (turns ++ [t]) ((e.handle event).run answer s).1 ∧ t.input = .event event ∧
      t.before = e ∧ t.log = (e.handle event).exchanges answer s := by
  obtain ⟨t, ht, hinput, rfl, hlog, hafter⟩ :=
    (Engine.path_take_iff (.event event)).1 (path_run answer (e.handle event) s)
  rw [← hafter]
  exact ⟨t, run.handle t event hinput ht, hinput, rfl, hlog⟩

/-- The engine of a node that nobody has configured. -/
def Engine.default : Engine where
  config := .default
  machine := .initial .disconnected
  session := .initial .default
  join := .initial 300 4096
  boost := .none

theorem Engine.new_default : Engine.new .default = .ok Engine.default := rfl

end MeshLight
