import MeshLight.Bench
import MeshLight.Proofs.Session.Roles

/-!
# MeshLight.Proofs.Session.Advertising

The four calls that hand host and service to the registration client. They are made when an episode
begins, one after the other and up to the first that is refused (`Attempts`), and the registration
is in progress afterwards exactly if none was refused (`AtRest.advertises`). No other turn makes any
of them, so a registration that could not be begun is not tried again in the same episode.
-/

namespace MeshLight

open Prog

/-! ## calls up to a refusal -/

/-- Calls made one after the other until one is refused: the calls that were to be made, those that
were, and whether all of them were granted. -/
inductive Attempts : List Call → List Exchange → Bool → Prop where
  | done : Attempts [] [] true
  | granted {calls : List Call} {log : List Exchange} {all : Bool} (x : Exchange)
      (hx : x.isRefused = false) (h : Attempts calls log all) :
      Attempts (x.call :: calls) (x :: log) all
  | refused {calls : List Call} (x : Exchange) (hx : x.isRefused = true) :
      Attempts (x.call :: calls) [x] false

namespace Attempts

variable {calls : List Call} {log : List Exchange} {all : Bool}

/-- What was made is an initial segment of what was to be made. -/
theorem segment (h : Attempts calls log all) : log.map Exchange.call <+: calls := by
  induction h with
  | done => exact List.prefix_refl []
  | granted x hx h ih => exact (List.prefix_cons_inj x.call).2 ih
  | @refused calls x hx => exact ⟨calls, rfl⟩

/-- If all calls were granted, all were made. -/
theorem complete (h : Attempts calls log all) (hall : all = true) :
    log.map Exchange.call = calls ∧ ∀ x ∈ log, x.isRefused = false := by
  induction h with
  | done => exact ⟨rfl, fun x hx => absurd hx List.not_mem_nil⟩
  | granted x hx h ih =>
      obtain ⟨hcalls, hrest⟩ := ih hall
      exact ⟨congrArg (x.call :: ·) hcalls, List.forall_mem_cons.2 ⟨hx, hrest⟩⟩
  | refused => cases hall

/-- Otherwise the last one that was made was refused, and no other. -/
theorem stopped (h : Attempts calls log all) (hall : all = false) :
    ∃ earlier last, log = earlier ++ [last] ∧ (∀ x ∈ earlier, x.isRefused = false) ∧
      last.isRefused = true := by
  induction h with
  | done => cases hall
  | granted x hx h ih =>
      obtain ⟨earlier, last, rfl, hearlier, hlast⟩ := ih hall
      exact ⟨x :: earlier, last, rfl, List.forall_mem_cons.2 ⟨hx, hearlier⟩, hlast⟩
  | refused x hx => exact ⟨[], x, rfl, fun y hy => absurd hy List.not_mem_nil, hx⟩

/-- A program that begins with a call which may be refused, and goes on unless it is. -/
theorem of_path_bind {c : MeshCall} {p : Prog (Except ε α)} {f : α → ExceptT ε Prog β}
    {r : Except ε β}
    (hp : ∀ first answer, Path p first answer →
      ∃ x : Exchange, first = [x] ∧ x.call = .mesh c ∧ x.isRefused = !answer.isOk)
    (hrest : ∀ a rest, Path (f a).run rest r → Attempts calls rest r.isOk)
    (h : Path (ExceptT.mk p >>= f).run log r) : Attempts (.mesh c :: calls) log r.isOk := by
  obtain ⟨a, first, rest, rfl, hfirst, hr⟩ | ⟨fault, rfl, hfirst⟩ := path_run_bind_iff.1 h
  · obtain ⟨x, rfl, hcall, hx⟩ := hp first _ hfirst
    rw [← hcall]
    exact .granted x hx (hrest a rest hr)
  · obtain ⟨x, rfl, hcall, hx⟩ := hp log _ hfirst
    rw [← hcall]
    exact .refused x hx

end Attempts

/-! ## handing over -/

/-- Whether a call hands host or service to the registration client. -/
def Call.isHandover : Call → Bool
  | .mesh (.setHostName _) | .mesh (.setHostAddress _) | .mesh (.addService _)
  | .mesh .enableAutostart => true
  | _ => false

/-- The calls of a log that hand host or service over, with their answers. -/
def handover (log : List Exchange) : List Exchange := log.filter fun x => x.call.isHandover

@[simp] theorem handover_append (first rest : List Exchange) :
    handover (first ++ rest) = handover first ++ handover rest := List.filter_append ..

theorem handover_eq_nil_iff {log : List Exchange} :
    handover log = [] ↔ ∀ x ∈ log, x.call.isHandover = false := by
  simp [handover]

theorem isHandover_of_mem_registrationCalls {config : Config} {id : Identity} {c : Call}
    (h : c ∈ config.registrationCalls id) : c.isHandover = true := by
  simp only [Config.registrationCalls, List.mem_cons, List.not_mem_nil, or_false] at h
  obtain rfl | rfl | rfl | rfl := h <;> rfl

namespace Engine

variable {e e' : Engine} {log : List Exchange}

/-- The engine asks who it is, and then hands host and service over until it is refused. -/
theorem attempts_advertise {r : Except RegistrationFault Unit} (h : Path e.advertise.run log r) :
    ∃ id rest, log = ⟨.mesh .identity, id⟩ :: rest ∧
      Attempts (e.config.registrationCalls id) rest r.isOk := by
  rw [advertise, path_run_bind_iff] at h
  obtain ⟨id, first, rest, rfl, hid, h⟩ | ⟨fault, rfl, hid⟩ := h
  · obtain ⟨_, hok, hask⟩ := path_run_lift_iff.1 hid
    cases hok
    rw [path_mesh_iff.1 hask]
    refine ⟨id, rest, rfl, ?_⟩
    refine Attempts.of_path_bind (c := .setHostName _)
      (fun _ answer h => ⟨_, path_mesh_iff.1 h, rfl, by cases answer <;> rfl⟩) (fun _ _ h => ?_) h
    refine Attempts.of_path_bind (c := .setHostAddress _)
      (fun _ answer h => ⟨_, path_mesh_iff.1 h, rfl, by cases answer <;> rfl⟩) (fun _ _ h => ?_) h
    refine Attempts.of_path_bind (c := .addService _)
      (fun _ answer h => ⟨_, path_mesh_iff.1 h, rfl, by cases answer <;> rfl⟩) (fun _ _ h => ?_) h
    rw [path_mesh_iff (c := .enableAutostart) |>.1 h]
    cases r with
    | ok u => exact .granted ⟨.mesh .enableAutostart, .ok u⟩ rfl .done
    | error fault => exact .refused ⟨.mesh .enableAutostart, .error fault⟩ rfl
  · obtain ⟨_, hok, -⟩ := path_run_lift_iff.1 hid
    cases hok

theorem handover_beginRegistration (h : Path e.beginRegistration log e')
    (hbegin : e.session.registration.canBegin = true) :
    ∃ id granted, ⟨.mesh .identity, id⟩ ∈ log ∧
      Attempts (e.config.registrationCalls id) (handover log) granted ∧
      e'.session.registration.state = (if granted then .inProgress else .failed) := by
  obtain ⟨hnot, -⟩ | ⟨-, first, r, registration, hadvertise, hr, rfl, rfl⟩ :=
    path_beginRegistration h
  · rw [hbegin] at hnot
    cases hnot
  · obtain ⟨id, rest, rfl, hattempts⟩ := attempts_advertise hadvertise
    have hrest : handover rest = rest := List.filter_eq_self.2 fun x hx =>
      isHandover_of_mem_registrationCalls (hattempts.segment.subset (List.mem_map_of_mem hx))
    refine ⟨id, r.isOk, List.mem_cons_self, ?_, ?_⟩
    · have hlog : handover (⟨.mesh .identity, id⟩ :: rest ++
          [⟨.emit (.registrationChanged registration.state), ()⟩]) = rest := by
        rw [handover_append, handover, List.filter_cons_of_neg (by nofun), ← handover, hrest]
        exact List.append_nil rest
      rw [hlog]
      exact hattempts
    · obtain ⟨rfl, rfl⟩ | ⟨⟨fault, rfl⟩, rfl⟩ := hr <;> rfl

end Engine

/-! ## turns -/

theorem not_isHandover_of_input {input : Input} {c : Call} (h : input.mayCall c = true) :
    c.isHandover = false := by
  unfold Input.mayCall at h
  split at h <;> first | rfl | cases h

theorem not_isHandover_of_work {w : Work} {c : Call} (hw : w ≠ .beginRegistration)
    (h : w.mayCall c = true) : c.isHandover = false := by
  unfold Call.isHandover
  split
  · cases w <;> first | exact absurd rfl hw | cases h
  · cases w <;> first | exact absurd rfl hw | cases h
  · cases w <;> first | exact absurd rfl hw | cases h
  · cases w <;> first | exact absurd rfl hw | cases h
  · rfl

theorem Join.not_mem_signals (ended : Bool) (old new : Join) :
    .beginRegistration ∉ old.signals ended new := by
  unfold Join.signals
  split
  · simp
  · split <;> simp
  · simp

theorem Input.not_mem_asks (e : Engine) (input : Input) : .beginRegistration ∉ input.asks e := by
  cases input with
  | start => exact List.not_mem_nil
  | event event =>
      cases event with
      | commandReceived request =>
          show _ ∉ leftBy e.config request
          unfold leftBy
          split
          · split
            · next action _ => cases action <;> simp [Action.followUp?]
            · exact List.not_mem_nil
          · exact List.not_mem_nil
      | reply kind payload =>
          cases kind with
          | provisioning =>
              show _ ∉ if _ then _ else _
              split <;> simp
          | status | trigger => exact List.not_mem_nil
      | timerFired timer => cases timer <;> simp [Input.asks, Event.asks]
      | _ => simp [Input.asks, Event.asks]

variable {turns : List Turn} {t : Turn}

/-- Only a turn that begins an episode asks for the registration to be begun. -/
theorem Turn.not_mem_asked (hno : ¬t.connects) (ht : t.Happens) :
    .beginRegistration ∉ t.asked := by
  have hstate : .beginRegistration ∉ t.before.state.asks t.applied.state := by
    unfold SessionState.asks
    split
    · split <;> simp
    · next hbefore =>
        rw [if_neg fun happlied => hno ⟨hbefore, ht.drains.sameFacts.1.state.trans happlied⟩]
        exact List.not_mem_nil
  simp only [Turn.asked, List.mem_append, not_or]
  exact ⟨⟨Join.not_mem_signals _ _ _, hstate⟩, Input.not_mem_asks _ _⟩

/-- In any other turn host and service are not handed over. -/
theorem AtRest.handover_eq_nil (h : AtRest turns t.before) (ht : t.Happens)
    (hstart : t.input = .start → t.before.state ≠ .connected) (hno : ¬t.connects) :
    handover t.log = [] := by
  refine handover_eq_nil_iff.2 fun x hx => ?_
  obtain ⟨-, hinput⟩ | ⟨task, htask, -, hwork⟩ := ht.call_cases hx
  · exact not_isHandover_of_input hinput
  · refine not_isHandover_of_work ?_ hwork
    obtain hasked | hask := ht.drains.work_mem task htask
    · rw [(h.asked ht hstart).1] at hasked
      exact fun hbegin => Turn.not_mem_asked hno ht (hbegin ▸ hasked)
    · rw [hask]
      nofun

/-- In a turn that begins an episode host and service are handed over until that is refused. -/
theorem AtRest.advertises (h : AtRest turns t.before) (ht : t.Happens)
    (hstart : t.input = .start → t.before.state ≠ .connected) (hconnects : t.connects) :
    ∃ id granted, ⟨.mesh .identity, id⟩ ∈ t.log ∧
      Attempts (t.before.config.registrationCalls id) (handover t.log) granted ∧
      t.after.session.registration.state = (if granted then .inProgress else .failed) ∧
      collect Call.announced? t.log = [t.after.session.registration.state] := by
  obtain ⟨e₁, e₂, e₃, asking, beginning, hlog, hask, hbegin, -, hsame, -, hcan⟩ :=
    h.connecting_work ht hstart hconnects
  obtain ⟨id, granted, hidentity, hattempts, hstate⟩ :=
    Engine.handover_beginRegistration hbegin hcan
  have hopening : handover t.opening = [] := handover_eq_nil_iff.2 fun x hx =>
    not_isHandover_of_input (ht.receives.only (Engine.only_receive _ _) x hx)
  have hasking : handover asking = [] := handover_eq_nil_iff.2 fun x hx =>
    not_isHandover_of_work (by nofun) (hask.only (Engine.only_sendProvisioning _) x hx)
  have hhandover : handover t.log = handover beginning := by
    rw [Turn.log, hlog, handover_append, hopening, ← List.singleton_append, handover_append,
      handover_append, hasking]
    rfl
  obtain ⟨s, -, hnoted, hs⟩ := h.begins ht hstart hconnects
  refine ⟨id, granted, ?_, ?_, hstate, ?_⟩
  · rw [Turn.log, hlog]
    simp [hidentity]
  · rw [hhandover]
    rwa [hsame.config, ← ht.drains.sameFacts.1.config, ht.config hstart] at hattempts
  · rw [collect_announced?, hnoted, hs]
    rfl

/-! ## runs -/

variable {config : Config} {e : Engine}

/-- Registration is begun once in an episode, completely or not at all. When an episode begins,
nothing has been registered in it, and host and service are handed over in a fixed order up to the
first refusal. If there is none the registration is in progress, and otherwise it has failed; either
is noted once. Whatever happens then, nothing is handed over again before the next episode begins. -/
theorem Run.advertises_once (run : Run config turns e) (past during after : List Turn) (c : Turn)
    (hturns : turns = past ++ c :: (during ++ after)) (hconnects : c.connects)
    (hno : ∀ t ∈ during, ¬t.connects) :
    c.before.session.registration = .initial ∧
    (∃ id, ⟨.mesh .identity, id⟩ ∈ c.log ∧
      (handover c.log).map Exchange.call <+: config.registrationCalls id ∧
      ((handover c.log).map Exchange.call = config.registrationCalls id ∧
          (∀ x ∈ handover c.log, x.isRefused = false) ∧
          c.after.session.registration.state = .inProgress ∧
          collect Call.announced? c.log = [.inProgress] ∨
        (∃ granted refused, handover c.log = granted ++ [refused] ∧
            (∀ x ∈ granted, x.isRefused = false) ∧ refused.isRefused = true) ∧
          c.after.session.registration.state = .failed ∧
          collect Call.announced? c.log = [.failed])) ∧
    ∀ t ∈ during, handover t.log = [] := by
  subst hturns
  have hrun := run.atRest.2
  obtain ⟨ht, hstart, before, hrest⟩ := hrun c (by simp)
  refine ⟨(hrest.away hconnects.1).registration, ?_, fun t hmem => ?_⟩
  · obtain ⟨id, granted, hidentity, hattempts, hstate, hnoted⟩ :=
      hrest.advertises ht hstart hconnects
    rw [run.config_eq.2 c (by simp)] at hattempts
    refine ⟨id, hidentity, hattempts.segment, ?_⟩
    cases granted with
    | true =>
        obtain ⟨hcalls, hgranted⟩ := hattempts.complete rfl
        exact .inl ⟨hcalls, hgranted, hstate, by rw [hnoted, hstate]; rfl⟩
    | false => exact .inr ⟨hattempts.stopped rfl, hstate, by rw [hnoted, hstate]; rfl⟩
  · obtain ⟨ht, hstart, before, hrest⟩ := hrun t (by simp [hmem])
    exact hrest.handover_eq_nil ht hstart (hno t hmem)

/-- A bench on which the registration client takes the host, but refuses the service. -/
def Bench.unserved : Bench :=
  { Bench.initial .disabled .minimal 3000 Stack.identity Board.initial.readings with
    failures := { Failures.none with addService := some .noSlots } }

/-- A node on that bench, whose role changes once more while it is attached: three calls are made,
the registration has failed, and that stays so. -/
theorem Run.advertises_once_refused :
    ∃ past c t e, Run .default (past ++ c :: [t]) e ∧ c.input = .event (.roleChanged .child) ∧
      c.connects ∧ t.input = .event (.roleChanged .router) ∧ ¬t.connects ∧
      c.before.session.registration = .initial ∧ (handover c.log).length = 3 ∧
      c.after.session.registration.state = .failed ∧ handover t.log = [] := by
  obtain ⟨past, run, -, -⟩ := exists_run_of_answer Engine.new_default [] Bench.answer Bench.unserved
  obtain ⟨c, hconnected, hchild, hbefore, hlog⟩ := run.exists_handle (.roleChanged .child)
    Bench.answer Bench.unserved
  obtain ⟨-, hafter, -⟩ := hconnected.last
  have hconnects : c.connects := by
    unfold Turn.connects
    rw [hbefore, ← hafter]
    decide
  obtain ⟨t, hrun, hrouter, hbefore, -⟩ := hconnected.exists_handle (.roleChanged .router)
    Bench.answer Bench.unserved
  have hno : ¬t.connects := fun h => h.1 (by rw [hbefore]; decide)
  rw [List.append_assoc] at hrun
  obtain ⟨hinitial, -, hnone⟩ := hrun.advertises_once past [t] [] c (by simp) hconnects
    (by simpa using hno)
  refine ⟨past, c, t, _, hrun, hchild, hconnects, hrouter, hno, hinitial, ?_, ?_,
    hnone t (by simp)⟩
  · rw [hlog]
    decide
  · rw [← hafter]
    decide

end MeshLight
