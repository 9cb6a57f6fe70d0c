import MeshLight.Bench
import MeshLight.Proofs.Engine.Event
import MeshLight.Stack

/-!
# MeshLight.Proofs.Command.Rejection

A rejected command has no effect. Whatever the surroundings answer, a command that is answered with
a code other than zero has only asked questions and been refused, so if refused calls change
nothing, nothing has changed: not the engine, not its timers, and not what can be seen of the
surroundings. The timers are the node's own; stack, board and journal are anything that keeps to
`Ports.Steady`, such as the bench (`Bench.steady`).
-/

namespace MeshLight

open Prog

/-! ## surroundings -/

/-- The surroundings but for the timers: stack, board and journal. -/
structure Ports (σ : Type) where
  mesh : (c : MeshCall) → σ → c.Answer × σ
  board : (c : BoardCall) → σ → c.Answer × σ
  emit : Notice → σ → σ

namespace Ports

/-- Answers a call, those to the timers by the node's own timers. -/
def answer (ports : Ports σ) : (c : Call) → Timers × σ → c.Answer × (Timers × σ)
  | .mesh c, (timers, s) => ((ports.mesh c s).1, timers, (ports.mesh c s).2)
  | .board c, (timers, s) => ((ports.board c s).1, timers, (ports.board c s).2)
  | .timer c, (timers, s) => ((Timers.answer c timers).1, (Timers.answer c timers).2, s)
  | .emit notice, (timers, s) => ((), timers, ports.emit notice s)

/-- Whoever looks only through `view` sees nothing of questions, of refused calls, of responses and
of notices. -/
structure Steady (ports : Ports σ) (view : σ → β) : Prop where
  mesh : ∀ c s, Exchange.isIdle ⟨.mesh c, (ports.mesh c s).1⟩ = true →
    view (ports.mesh c s).2 = view s
  board : ∀ c s, Exchange.isIdle ⟨.board c, (ports.board c s).1⟩ = true →
    view (ports.board c s).2 = view s
  respond : ∀ token payload s, view (ports.mesh (.respond token payload) s).2 = view s
  emit : ∀ notice s, view (ports.emit notice s) = view s

end Ports

/-- Whether a call only asked, was refused, or only gave account of what was done. -/
def Exchange.isHarmless (x : Exchange) : Bool :=
  x.isIdle || match x.call with
    | .mesh (.respond _ _) | .emit _ => true
    | _ => false

namespace Ports

variable {ports : Ports σ} {view : σ → β}

theorem Steady.view_answer (steady : ports.Steady view) {c : Call} {timers : Timers} {s : σ}
    (h : Exchange.isHarmless ⟨c, (ports.answer c (timers, s)).1⟩ = true) :
    (ports.answer c (timers, s)).2.1 = timers ∧
      view (ports.answer c (timers, s)).2.2 = view s := by
  cases c with
  | emit notice => exact ⟨rfl, steady.emit notice s⟩
  | board c =>
      refine ⟨rfl, steady.board c s ?_⟩
      exact (Bool.or_eq_true_iff.1 h).resolve_right Bool.false_ne_true
  | mesh c =>
      refine ⟨rfl, ?_⟩
      obtain h | h := Bool.or_eq_true_iff.1 h
      · exact steady.mesh c s h
      · split at h
        · next hc => cases hc; exact steady.respond _ _ s
        · next hc => cases hc
        · cases h
  | timer c =>
      cases c with
      | isRunning timer => exact ⟨rfl, rfl⟩
      | now => exact ⟨rfl, rfl⟩
      | startPeriodic | startOnce | stop => cases h

/-- A run of harmless calls leaves the timers and what can be seen as they were. -/
theorem Steady.view_run (steady : ports.Steady view) {p : Prog α} {timers : Timers} {s : σ}
    (h : ∀ x ∈ p.exchanges ports.answer (timers, s), x.isHarmless = true) :
    (p.run ports.answer (timers, s)).2.1 = timers ∧
      view (p.run ports.answer (timers, s)).2.2 = view s := by
  induction p generalizing timers s with
  | done a => exact ⟨rfl, rfl⟩
  | call c next ih =>
      rw [exchanges] at h
      obtain ⟨htimers, hview⟩ := steady.view_answer (h _ (List.mem_cons_self ..))
      have hrest : ∀ x ∈ (next (ports.answer c (timers, s)).1).exchanges ports.answer
          ((ports.answer c (timers, s)).2.1, (ports.answer c (timers, s)).2.2),
          x.isHarmless = true :=
        fun x hx => h x (List.mem_cons_of_mem _ hx)
      obtain ⟨htimers', hview'⟩ := ih _ hrest
      exact ⟨htimers'.trans htimers, hview'.trans hview⟩

end Ports

/-! ## the bench -/

/-- A pin is set, or is unknown and nothing happens. -/
theorem Board.answer_setPin (name : String) (high : Bool) (b : Board) :
    (∃ pins, answer (.setPin name high) b = (.ok (), { b with pins := pins })) ∨
      answer (.setPin name high) b = (.error .unknownPin, b) := by
  simp only [answer]
  cases b.pins.set? name high with
  | some pins => exact .inl ⟨pins, rfl⟩
  | none => exact .inr rfl

namespace Bench

/-- A bench as surroundings. -/
def ports : Ports Bench where
  mesh := answerMesh
  board := answerBoard
  emit notice b := b.note (.emit notice) none

/-- The settings of stack and board that a command may change. -/
structure Settings where
  linkMode : LinkMode
  pollPeriod : UInt32
  strip : Strip
  pins : PinBank
  deriving DecidableEq

def settings (b : Bench) : Settings := ⟨b.linkMode, b.pollPeriod, b.board.strip, b.board.pins⟩

/-- A call that was refused is recorded and has no effect. -/
theorem settings_attempt_error {call : Call} {failure : Option ε} {toFault : ε → Fault}
    {effect : Bench → Bench} {b : Bench} {fault : ε}
    (h : (b.attempt call failure toFault effect).1 = .error fault) :
    (b.attempt call failure toFault effect).2.settings = b.settings := by
  unfold attempt at h ⊢
  cases failure with
  | none => cases h
  | some fault => rfl

/-- A call that only leaves a record has no effect either way. -/
theorem settings_attempt_id {call : Call} {failure : Option ε} {toFault : ε → Fault} {b : Bench} :
    (b.attempt call failure toFault id).2.settings = b.settings := by
  unfold attempt
  cases failure <;> rfl

/-- A call to the board that is refused by order has no effect, and any other is left to the
board. -/
theorem settings_attemptBoard {c : BoardCall} {failure : Option ε} {toFault : ε → Fault}
    {refuse : ε → c.Answer} {b : Bench} :
    (b.attemptBoard c failure toFault refuse).2.settings = b.settings ∨
      (b.attemptBoard c failure toFault refuse).1 = (Board.answer c b.board).1 ∧
        (b.attemptBoard c failure toFault refuse).2.settings =
          { b with board := (Board.answer c b.board).2 }.settings := by
  unfold attemptBoard
  cases failure with
  | some fault => exact .inl rfl
  | none => exact .inr ⟨rfl, rfl⟩

/-- Refused calls, questions, responses and notices change no setting of the bench. -/
theorem steady : ports.Steady settings where
  respond token payload b := settings_attempt_id
  emit notice b := rfl
  mesh c b h := by
    have hidle : Exchange.isIdle ⟨.mesh c, (b.answerMesh c).1⟩ = true := h
    show (b.answerMesh c).2.settings = b.settings
    cases c with
    | setLinkMode mode =>
        cases hreply : (b.answerMesh (.setLinkMode mode)).1 with
        | error fault => exact settings_attempt_error hreply
        | ok u => rw [hreply] at hidle; cases hidle
    | setPollPeriod ms =>
        cases hreply : (b.answerMesh (.setPollPeriod ms)).1 with
        | error fault => exact settings_attempt_error hreply
        | ok u => rw [hreply] at hidle; cases hidle
    | role | linkMode | pollPeriod | identity | factoryReset => rfl
    | _ => exact settings_attempt_id
  board c b h := by
    have hidle : Exchange.isIdle ⟨.board c, (b.answerBoard c).1⟩ = true := h
    show (b.answerBoard c).2.settings = b.settings
    cases c with
    | setGroupPower group on =>
        obtain hsame | ⟨hreply, -⟩ := settings_attemptBoard (c := .setGroupPower group on)
        · exact hsame
        · rw [answerBoard, hreply] at hidle
          cases hidle
    | setGroupColor group color =>
        obtain hsame | ⟨hreply, -⟩ := settings_attemptBoard (c := .setGroupColor group color)
        · exact hsame
        · rw [answerBoard, hreply] at hidle
          cases hidle
    | setPin name high =>
        obtain hsame | ⟨hreply, hsettings⟩ := settings_attemptBoard (c := .setPin name high)
        · exact hsame
        · rw [answerBoard, hreply] at hidle
          rw [answerBoard, hsettings]
          obtain ⟨pins, hset⟩ | hunknown := Board.answer_setPin name high b.board
          · rw [hset] at hidle
            cases hidle
          · rw [hunknown]
    | groupStatus group =>
        simp only [answerBoard]
        split <;> rfl
    | sample => exact settings_attempt_id
    | pins | readings | setIndicator | reboot | startManagement | delay => rfl

end Bench

/-! ## rejected commands -/

/-- A command that is rejected has no effect. It is answered once, and before that nothing goes out
on the mesh. If the code of the answer is not zero, the engine with all that its session holds, the
timers, and what can be seen of the surroundings are as they were, and whatever waited to be done is
done as if there had been no command. A body that is no JSON object, or names no command, is always
rejected, and without a call. -/
theorem rejection_has_no_effect {ports : Ports σ} {view : σ → β} (steady : ports.Steady view)
    (e : Engine) (token : UInt32) (body : Bytes) (timers : Timers) (s : σ) :
    ∃ (outcome : Outcome) (quiet : List Exchange) (reply : Except TransportFault Unit),
      (e.onCommand ⟨token, .put, body⟩).exchanges ports.answer (timers, s) =
        quiet ++ [⟨.mesh (.respond token (utf8 outcome.body)), reply⟩,
          ⟨.emit (.commandHandled outcome.commandName outcome.code), ()⟩] ∧
      (∀ x ∈ quiet, x.call.isMessage = false) ∧
      Json.Members.get? "err_code" outcome.response = some (.int outcome.code) ∧
      (¬NamesCommand body → outcome.code ≠ 0 ∧ quiet = []) ∧
      (outcome.code ≠ 0 → ∃ s', view s' = view s ∧
        (e.onCommand ⟨token, .put, body⟩).run ports.answer (timers, s) = (e, timers, s') ∧
        (e.handle (.commandReceived ⟨token, .put, body⟩)).run ports.answer (timers, s) =
          e.runPending.run ports.answer (timers, s')) := by
  have hpath := path_run ports.answer (e.onCommand ⟨token, .put, body⟩) (timers, s)
  obtain ⟨hmethod, -⟩ | ⟨-, session, quiet, outcome, reply, hdispatched, hlog, hafter⟩ :=
    Engine.path_onCommand hpath
  · exact absurd rfl hmethod
  · refine ⟨outcome, quiet, reply, hlog, hdispatched.silent, hdispatched.answered,
      hdispatched.unnamed, fun hcode => ?_⟩
    obtain ⟨hsession, hwork, hidle⟩ := hdispatched.rejected hcode
    have hengine : ((e.onCommand ⟨token, .put, body⟩).run ports.answer (timers, s)).1 = e := by
      rw [hafter, hwork, hsession]
      rfl
    have hharmless : ∀ x ∈ (e.onCommand ⟨token, .put, body⟩).exchanges ports.answer (timers, s),
        x.isHarmless = true := by
      rw [hlog]
      intro x hx
      obtain hx | hx := List.mem_append.1 hx
      · rw [Exchange.isHarmless, hidle x hx]
        rfl
      · simp only [List.mem_cons, List.not_mem_nil, or_false] at hx
        obtain rfl | rfl := hx
        · exact Bool.or_true _
        · exact Bool.or_true _
    obtain ⟨htimers, hview⟩ := steady.view_run hharmless
    have hrun : (e.onCommand ⟨token, .put, body⟩).run ports.answer (timers, s) =
        (e, timers, ((e.onCommand ⟨token, .put, body⟩).run ports.answer (timers, s)).2.2) :=
      Prod.ext hengine (Prod.ext htimers rfl)
    refine ⟨_, hview, hrun, ?_⟩
    have hhandle : e.handle (.commandReceived ⟨token, .put, body⟩) =
      e.onCommand ⟨token, .put, body⟩ >>= Engine.runPending := rfl
    rw [hhandle, run_bind, hrun]

/-- A bench whose strip cannot be switched. -/
def Bench.stripless : Bench :=
  { Bench.initial .child .minimal 3000 Stack.identity .boot with
    failures := { Failures.none with setGroupPower := some .stripUpdateFailed } }

/-- A command to switch the lights, and to switch them off five seconds later. -/
def delayedPower : Bytes := utf8 "\x7b\"cmd\":\"onoff\",\"obj\":\"all\",\"val\":1,\"delay\":5\x7d"

/-- The lights cannot be switched, so no timer is armed that would switch them off. -/
theorem rejection_has_no_effect_stripless :
    ∃ b : Bench, b.settings = Bench.stripless.settings ∧
      (Engine.default.onCommand ⟨7, .put, delayedPower⟩).run Bench.ports.answer
        (.initial, Bench.stripless) = (Engine.default, .initial, b) := by
  obtain ⟨outcome, quiet, reply, hlog, -, -, -, heffect⟩ :=
    rejection_has_no_effect Bench.steady Engine.default 7 delayedPower .initial Bench.stripless
  have hlast : ((Engine.default.onCommand ⟨7, .put, delayedPower⟩).exchanges Bench.ports.answer
      (.initial, Bench.stripless)).getLast?.map Exchange.call =
        some (.emit (.commandHandled "onoff" (-3))) := by
    decide +kernel
  have hcode : outcome.code = -3 := by
    rw [hlog, List.getLast?_append] at hlast
    simp only [List.getLast?_cons_cons, List.getLast?_singleton, Option.some_or, Option.map_some,
      Option.some.injEq, Call.emit.injEq, Notice.commandHandled.injEq] at hlast
    exact hlast.2
  obtain ⟨b, hsettings, hrun, -⟩ := heffect (by rw [hcode]; decide)
  exact ⟨b, hsettings, hrun⟩

end MeshLight
