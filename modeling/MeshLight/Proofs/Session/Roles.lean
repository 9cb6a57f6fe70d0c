import MeshLight.Proofs.Engine.Asked
import MeshLight.Proofs.Session.Registering

/-!
# MeshLight.Proofs.Session.Roles

What a sequence of role changes comes to. Only a change between attached and detached counts
(`changes`). Each time the node becomes attached it shows so, asks for the coordinator's address and
hands its service to the registration client; each time it becomes detached it shows that. A log is
read for three kinds of calls, messages, registration and the presence light, and holds no others of
these (`Marks`).
-/

namespace MeshLight

open Prog

/-! ## changes of standing -/

/-- The changes of a standing: whenever it differs from the one before, the new one. -/
def changes (was : Bool) : List Bool → List Bool
  | [] => []
  | now :: later => if now = was then changes was later else now :: changes now later

theorem changes_cons (was now : Bool) (later : List Bool) :
    changes was (now :: later) = changes was [now] ++ changes now later := by
  by_cases h : now = was <;> simp [changes, h]

/-! ## kinds of calls -/

/-- Whether a call is about the registration of the node's service. -/
def Call.isRegistration : Call → Bool
  | .mesh (.setHostName _) | .mesh (.setHostAddress _) | .mesh (.addService _)
  | .mesh .enableAutostart | .mesh (.removeAll _) => true
  | _ => false

/-- Whether a call gives the presence light a mode, or makes it pulse. -/
def Call.isIndication : Call → Bool
  | .board (.setIndicator _) => true
  | _ => false

/-- The calls of a log that pass a test, in their order. -/
def select (test : Call → Bool) (log : List Exchange) : List Call :=
  (log.map Exchange.call).filter test

@[simp] theorem select_append (test : Call → Bool) (first rest : List Exchange) :
    select test (first ++ rest) = select test first ++ select test rest := by
  simp [select]

theorem select_eq_nil_iff {test : Call → Bool} {log : List Exchange} :
    select test log = [] ↔ ∀ x ∈ log, test x.call = false := by
  simp [select]

/-- Whether a call is of one of the three kinds that changes of standing lead to. -/
def Call.marks (c : Call) : Bool := c.isMessage || c.isRegistration || c.isIndication

theorem select_of_marks {log : List Exchange} {calls : List Call}
    (h : select Call.marks log = calls) :
    select Call.isMessage log = calls.filter Call.isMessage ∧
    select Call.isRegistration log = calls.filter Call.isRegistration ∧
    select Call.isIndication log = calls.filter Call.isIndication := by
  have hselect (test : Call → Bool) (htest : ∀ c, test c = true → c.marks = true) :
      select test log = calls.filter test := by
    rw [← h, select, select, List.filter_filter]
    refine List.filter_congr fun c _ => ?_
    cases hc : test c with
    | false => rfl
    | true => simp [htest c hc]
  exact ⟨hselect _ fun c hc => by simp [Call.marks, hc],
    hselect _ fun c hc => by simp [Call.marks, hc], hselect _ fun c hc => by simp [Call.marks, hc]⟩

/-- Registration calls are not refused. -/
def Granted (log : List Exchange) : Prop :=
  ∀ x ∈ log, x.call.isRegistration = true → x.isRefused = false

theorem granted_append {first rest : List Exchange} :
    Granted (first ++ rest) ↔ Granted first ∧ Granted rest := by
  simp [Granted, or_imp, forall_and]

/-! ## calls that a change leads to -/

namespace Config

/-- The calls that register the node's service, in their order. -/
def registrationCalls (config : Config) (id : Identity) : List Call := [
  .mesh (.setHostName id.extended.text),
  .mesh (.setHostAddress id.advertised),
  .mesh (.addService (.ofNode id config.instanceLabel.text config.servicePort
    config.softwareVersion.text)),
  .mesh .enableAutostart]

/-- The mode in which the presence light shows a new standing. -/
def standingMode (config : Config) (attached : Bool) : IndicatorMode :=
  if attached then .on else .blink config.disconnectedBlinkMs

end Config

/-- The messages, registration calls and indications of a log are those of the given changes of
standing: with each attachment one question for the coordinator's address and one whole
registration, with each change one mode for the light. -/
structure Marks (config : Config) (marked : List Bool) (log : List Exchange) : Prop where
  asks : select Call.isMessage log =
    List.replicate (marked.count true) (.mesh (.send Provisioning.request))
  registers : ∃ ids : List Identity, ids.length = marked.count true ∧
    select Call.isRegistration log = ids.flatMap config.registrationCalls
  shows : select Call.isIndication log =
    marked.map fun attached => .board (.setIndicator (config.standingMode attached))

namespace Marks

variable {config : Config} {earlier later : List Bool} {first rest log : List Exchange}

theorem nothing (h : select Call.marks log = []) : Marks config [] log := by
  obtain ⟨hmessage, hregistration, hindication⟩ := select_of_marks h
  exact ⟨hmessage, ⟨[], rfl, hregistration⟩, hindication⟩

theorem attached {id : Identity} (h : select Call.marks log = .board (.setIndicator .on) ::
    .mesh (.send Provisioning.request) :: config.registrationCalls id) :
    Marks config [true] log := by
  obtain ⟨hmessage, hregistration, hindication⟩ := select_of_marks h
  exact ⟨hmessage, ⟨[id], rfl, hregistration⟩, hindication⟩

theorem detached (h : select Call.marks log =
    [.board (.setIndicator (.blink config.disconnectedBlinkMs))]) : Marks config [false] log := by
  obtain ⟨hmessage, hregistration, hindication⟩ := select_of_marks h
  exact ⟨hmessage, ⟨[], rfl, hregistration⟩, hindication⟩

theorem append (h : Marks config earlier first) (h' : Marks config later rest) :
    Marks config (earlier ++ later) (first ++ rest) := by
  obtain ⟨hasks, ⟨ids, hids, hregisters⟩, hshows⟩ := h
  obtain ⟨hasks', ⟨ids', hids', hregisters'⟩, hshows'⟩ := h'
  constructor
  · rw [select_append, hasks, hasks', List.count_append, List.replicate_append_replicate]
  · exact ⟨ids ++ ids', by simp [hids, hids'], by simp [hregisters, hregisters']⟩
  · rw [select_append, hshows, hshows', List.map_append]

end Marks

/-! ## work -/

/-- Applying a role, or the start, makes no such call. -/
theorem marks_of_input {input : Input} {c : Call} (hinput : input.movesJoin = true)
    (h : input.mayCall c = true) : c.marks = false := by
  unfold Input.mayCall at h
  split at h <;> first | rfl | exact Bool.noConfusion h | exact Bool.noConfusion hinput

namespace Engine

variable {e e' : Engine} {log : List Exchange}

theorem marks_restore {b b' : PollBoost} (h : Path b.restore log b') :
    select Call.marks log = [] := by
  obtain ⟨-, ⟨rfl, -⟩ | ⟨saved, answer, -, rfl⟩⟩ := PollBoost.path_restore h <;> rfl

/-- The question for the coordinator's address is all that is asked. -/
theorem marks_sendProvisioning (h : Path e.sendProvisioning log e') (hs : e.state = .connected)
    (htesting : e.session.testing = false) :
    select Call.marks log = [.mesh (.send Provisioning.request)] := by
  obtain ⟨hnot, -⟩ | ⟨-, first, boost, answer, rest, rfl, hengage, hrest⟩ :=
    path_sendProvisioning h
  · exact absurd ⟨hs, htesting⟩ hnot
  · have hfirst : select Call.marks first = [] := by
      obtain ⟨mode, ⟨-, -, rfl⟩ | ⟨current, accepted, -, rfl, -⟩⟩ :=
        PollBoost.path_engage hengage <;> rfl
    have hlast : select Call.marks rest = [] := by
      obtain ⟨-, rfl, -⟩ | ⟨-, hrestore, -⟩ := hrest
      · rfl
      · exact marks_restore hrestore
    rw [← List.singleton_append, select_append, select_append, hfirst, hlast]
    rfl

/-- A call that may be refused, but is not, and what follows it. -/
theorem calls_of_granted_bind {c : MeshCall} {p : Prog (Except ε α)} {f : α → ExceptT ε Prog β}
    {calls : List Call} {r : Except ε β}
    (hp : ∀ {first answer}, Path p first answer → first.map Exchange.call = [.mesh c])
    (hrefused : ∀ {first fault}, Path p first (.error fault) → ¬Granted first)
    (hrest : ∀ {a rest}, Path (f a).run rest r → Granted rest → rest.map Exchange.call = calls)
    (h : Path (ExceptT.mk p >>= f).run log r) (hgranted : Granted log) :
    log.map Exchange.call = .mesh c :: calls := by
  obtain ⟨a, first, rest, rfl, hfirst, hr⟩ | ⟨fault, -, hfirst⟩ := path_run_bind_iff.1 h
  · rw [List.map_append, hp hfirst, hrest hr (granted_append.1 hgranted).2]
    rfl
  · exact absurd hgranted (hrefused hfirst)

theorem not_granted {c : MeshCall} {answer : c.Answer} (hc : (Call.mesh c).isRegistration = true)
    (hrefused : Exchange.isRefused ⟨.mesh c, answer⟩ = true) (h : Path (mesh c) log answer) :
    ¬Granted log := by
  rw [path_mesh_iff.1 h]
  intro hgranted
  have hnot := hgranted _ (List.mem_singleton_self _) hc
  rw [hrefused] at hnot
  cases hnot

/-- If nothing is refused, host and service are handed over completely. -/
theorem calls_advertise {r : Except RegistrationFault Unit} (h : Path e.advertise.run log r)
    (hgranted : Granted log) : ∃ id, log.map Exchange.call = e.advertiseCalls id := by
  rw [advertise, path_run_bind_iff] at h
  obtain ⟨id, first, rest, rfl, hid, h⟩ | ⟨fault, rfl, hid⟩ := h
  · obtain ⟨_, -, hask⟩ := path_run_lift_iff.1 hid
    refine ⟨id, ?_⟩
    rw [List.map_append, calls_of_path_mesh hask, advertiseCalls, List.singleton_append]
    congr 1
    refine calls_of_granted_bind (c := .setHostName _) calls_of_path_mesh (not_granted rfl rfl)
      (fun h hgranted => ?_) h (granted_append.1 hgranted).2
    refine calls_of_granted_bind (c := .setHostAddress _) calls_of_path_mesh (not_granted rfl rfl)
      (fun h hgranted => ?_) h hgranted
    refine calls_of_granted_bind (c := .addService _) calls_of_path_mesh (not_granted rfl rfl)
      (fun h _ => ?_) h hgranted
    exact calls_of_path_mesh (c := .enableAutostart) h
  · obtain ⟨_, hok, -⟩ := path_run_lift_iff.1 hid
    cases hok

/-- A registration that may begin and is not refused hands over host and service, once. -/
theorem marks_beginRegistration (h : Path e.beginRegistration log e') (hgranted : Granted log)
    (hbegin : e.session.registration.canBegin = true) :
    ∃ id, select Call.marks log = e.config.registrationCalls id := by
  obtain ⟨hnot, -⟩ | ⟨-, first, r, registration, hadvertise, -, rfl, -⟩ :=
    path_beginRegistration h
  · rw [hbegin] at hnot
    cases hnot
  · obtain ⟨id, hcalls⟩ := calls_advertise hadvertise (granted_append.1 hgranted).1
    refine ⟨id, ?_⟩
    rw [select, List.map_append, hcalls]
    rfl

end Engine

/-! ## turns -/

variable {turns : List Turn} {t : Turn} {role : Role}

/-- A turn is told a role if its input is one, or if it is the start, asks for the role and lets no
join begin. -/
inductive Turn.Hears (t : Turn) (role : Role) : Prop where
  | event (hinput : t.input = .event (.roleChanged role))
  | start (hinput : t.input = .start) (hrole : t.role? = some role)
      (hjoin : t.before.config.autoJoin = true → role.isAttached = true)

theorem Turn.Hears.movesJoin (h : t.Hears role) : t.input.movesJoin = true := by
  cases h with
  | event hinput => rw [hinput]; rfl
  | start hinput => rw [hinput]; rfl

theorem Turn.role?_of_start {notice : Notice} {rest : List Exchange} (hinput : t.input = .start)
    (hlog : t.opening = ⟨.emit notice, ()⟩ :: ⟨.mesh .role, role⟩ :: rest) :
    t.role? = some role := by
  unfold Turn.role?
  rw [hinput, hlog]
  rfl

/-- The start asks for the role, and hears what it is. -/
theorem Turn.Happens.answered (ht : t.Happens) (hinput : t.input = .start)
    (hstart : t.before.state ≠ .connected) :
    ∃ role, t.role? = some role ∧ t.log.findSome? Exchange.role? = some role := by
  have hreceives := ht.receives
  rw [hinput] at hreceives
  obtain ⟨role, rest, hlog, -⟩ := Engine.path_startUp_cases hstart hreceives
  exact ⟨role, Turn.role?_of_start hinput hlog, by rw [Turn.log, hlog]; rfl⟩

/-- After a turn that is told a role, the session is where that role is. -/
theorem AtRest.attached_of_role (h : AtRest (turns ++ [t]) t.after) (hrole : t.role? = some role) :
    t.after.session.attached = role.isAttached := by
  rw [h.attached, lastRole_concat, hrole]
  rfl

/-- The session goes where the role is, and what then waits is what this change asks for. -/
theorem AtRest.hears (h : AtRest turns t.before) (ht : t.Happens)
    (hstart : t.input = .start → t.before.state ≠ .connected) (hears : t.Hears role) :
    (t.applied.state = .connected ↔ role.isAttached = true) ∧
      t.applied.session.work.items = t.before.state.asks t.applied.state := by
  have hfollows (hfollow : Engine.Follows (t.before.told role) t.applied) :
      (t.applied.state = .connected ↔ role.isAttached = true) ∧
        t.applied.session.work.items = t.before.state.asks t.applied.state := by
    refine ⟨?_, hfollow.items h.idle fun hs => (h.away hs).registration⟩
    rw [hfollow.mirrors.connected_iff, hfollow.attached]
    rfl
  have hreceives := ht.receives
  cases hears with
  | event hinput =>
      rw [hinput] at hreceives
      exact hfollows (Engine.path_onRole hreceives).2
  | start hinput hrole hjoin =>
      rw [hinput] at hreceives
      obtain ⟨answered, rest, hlog, hcases⟩ :=
        Engine.path_startUp_cases (hstart hinput) hreceives
      obtain rfl : answered = role :=
        Option.some.inj ((Turn.role?_of_start hinput hlog).symm.trans hrole)
      obtain ⟨-, hpath⟩ | ⟨hdetached, hauto, -⟩ | ⟨hdetached, -, -, happlied⟩ := hcases
      · exact hfollows (Engine.path_onRole hpath).2
      · rw [hjoin hauto] at hdetached
        cases hdetached
      · rw [happlied, SessionState.asks_of_iff Iff.rfl]
        exact ⟨by simp [hstart hinput, hdetached], h.idle⟩

/-- The work of a new connection shows it, asks for the coordinator's address and registers. -/
theorem AtRest.marks_connecting (h : AtRest turns t.before) (ht : t.Happens)
    (hstart : t.input = .start → t.before.state ≠ .connected) (hconnects : t.connects)
    (hgranted : Granted (t.tasks.flatMap Task.log)) :
    ∃ id, select Call.marks (t.tasks.flatMap Task.log) = .board (.setIndicator .on) ::
      .mesh (.send Provisioning.request) :: t.applied.config.registrationCalls id := by
  obtain ⟨e₁, e₂, e₃, asking, beginning, hlog, hask, hbegin, hsame, hsame', htesting, hcan⟩ :=
    h.connecting_work ht hstart hconnects
  have hstate : e₁.state = .connected := by
    rw [hsame.state, ← ht.drains.sameFacts.1.state]
    exact hconnects.2
  have hasked := Engine.marks_sendProvisioning hask hstate (hsame.testing.trans htesting)
  rw [hlog, ← List.singleton_append, granted_append, granted_append] at hgranted
  obtain ⟨id, hregistered⟩ := Engine.marks_beginRegistration hbegin hgranted.2.2 hcan
  refine ⟨id, ?_⟩
  rw [hlog, ← List.singleton_append, select_append, select_append, hasked, hregistered,
    hsame'.config]
  rfl

/-- The work of a lost connection shows that. -/
theorem marks_leaving (ht : t.Happens)
    (hitems : t.applied.session.work.items = [.indicateDisconnected, .releasePollBoost]) :
    select Call.marks (t.tasks.flatMap Task.log) =
      [.board (.setIndicator (.blink t.applied.config.disconnectedBlinkMs))] := by
  obtain ⟨first, e₁, rest, htasks, hindicate, hdrains⟩ := ht.drains.of_items_eq_cons hitems
  obtain ⟨rfl, rfl⟩ := Engine.path_indicate hindicate
  obtain ⟨second, e₂, rest, rfl, hrelease, hdrains⟩ := hdrains.of_items_eq_cons rfl
  obtain ⟨rfl, hrestore⟩ := Engine.path_restorePoll hrelease
  obtain ⟨rfl, -⟩ := hdrains.of_idle rfl
  rw [htasks]
  simp only [List.flatMap_cons, List.flatMap_nil, List.append_nil, select_append,
    Engine.marks_restore hrestore]
  rfl

/-- A turn that is told a role makes the calls that mark the change of standing, if it is one. -/
theorem AtRest.marks (h : AtRest turns t.before) (ht : t.Happens)
    (hstart : t.input = .start → t.before.state ≠ .connected) (hears : t.Hears role)
    (hgranted : Granted t.log) :
    Marks t.before.config (changes t.before.session.attached [role.isAttached]) t.log := by
  have hopening : select Call.marks t.opening = [] := select_eq_nil_iff.2 fun x hx =>
    marks_of_input hears.movesJoin (ht.receives.only (Engine.only_receive _ _) x hx)
  have hmarks : select Call.marks t.log = select Call.marks (t.tasks.flatMap Task.log) := by
    rw [Turn.log, select_append, hopening, List.nil_append]
  obtain ⟨hconnected, hitems⟩ := h.hears ht hstart hears
  have hwas := h.mirrors.connected_iff
  have hconfig : t.applied.config = t.before.config := by
    rw [← ht.config hstart, ht.drains.sameFacts.1.config]
  by_cases hchange : role.isAttached = t.before.session.attached
  · have hstays : t.applied.state = .connected ↔ t.before.state = .connected := by
      rw [hconnected, hwas, hchange]
    obtain ⟨htasks, -⟩ := ht.drains.of_idle (hitems.trans (SessionState.asks_of_iff hstays))
    rw [htasks] at hmarks
    simpa [changes, hchange] using Marks.nothing hmarks
  · rw [changes, if_neg hchange, changes, ← hconfig]
    cases hrole : role.isAttached with
    | true =>
        have hbefore : t.before.state ≠ .connected := by grind
        have hafter : t.after.state = .connected := by
          rw [ht.drains.sameFacts.1.state]
          exact hconnected.2 hrole
        obtain ⟨id, hcalls⟩ := h.marks_connecting ht hstart ⟨hbefore, hafter⟩
          (granted_append.1 hgranted).2
        exact .attached (hmarks.trans hcalls)
    | false =>
        have hbefore : t.before.state = .connected := by grind
        have happlied : t.applied.state ≠ .connected := by grind
        rw [SessionState.asks, if_pos hbefore, if_neg happlied] at hitems
        exact .detached (hmarks.trans (marks_leaving ht hitems))

/-! ## sequences of roles -/

namespace Engine

variable {config : Config} {e e' : Engine} {log : List Exchange}

/-- Roles that are told one after the other. -/
theorem marks_handleAll {roles : List Role} (h : AtRest turns e)
    (hpath : Path (handleAll (roles.map .roleChanged) e) log e') (hgranted : Granted log) :
    Marks e.config (changes e.session.attached (roles.map Role.isAttached)) log := by
  induction roles generalizing turns e log with
  | nil =>
      obtain ⟨rfl, -⟩ := path_done_iff.1 hpath
      exact .nothing rfl
  | cons role roles ih =>
      rw [List.map_cons, handleAll, path_bind_iff] at hpath
      obtain ⟨e₁, first, rest, rfl, hfirst, hrest⟩ := hpath
      obtain ⟨hnow, hlater⟩ := granted_append.1 hgranted
      obtain ⟨t, ht, hinput, rfl, rfl, rfl⟩ :=
        (path_take_iff (.event (.roleChanged role))).1 hfirst
      have hstart : t.input = .start → t.before.state ≠ .connected := fun h =>
        absurd h (Turn.ne_start_of_event hinput)
      have hrests := h.turn ht hstart
      have hrole : t.role? = some role := by
        unfold Turn.role?
        rw [hinput]
      have hmarks := ih hrests hrest hlater
      rw [hrests.attached_of_role hrole, ht.config hstart] at hmarks
      rw [List.map_cons, changes_cons]
      exact (h.marks ht hstart (.event hinput) hnow).append hmarks

/-- Connecting and disconnecting have their effects once for each change of standing. Whatever
sequence of roles a fresh engine is told, started or not, if no join is requested and no
registration call is refused: the messages are one question for the coordinator's address for each
time it becomes attached, the registration calls are one whole registration for each such time, and
the presence light is told to be on at each such time, and to blink as disconnected at each time it
becomes detached; nothing else is sent, registered or shown. -/
theorem role_changes_marked_once {e₀ : Engine} (hnew : Engine.new config = .ok e₀)
    (roles : List Role) (hgranted : Granted log) :
    (Path (handleAll (roles.map .roleChanged) e₀) log e →
      Marks config (changes false (roles.map Role.isAttached)) log) ∧
    (Path (e₀.start >>= handleAll (roles.map .roleChanged)) log e →
      ∃ role, log.findSome? Exchange.role? = some role ∧
        ((config.autoJoin = true → role.isAttached = true) →
          Marks config (changes false ((role :: roles).map Role.isAttached)) log)) := by
  have hrest := atRest_new hnew
  obtain ⟨-, interval, he₀⟩ := Engine.eq_of_new hnew
  have hconfig : e₀.config = config := by rw [he₀]
  have hdetached : e₀.session.attached = false := by rw [he₀]; rfl
  constructor
  · intro hpath
    have hmarks := marks_handleAll hrest hpath hgranted
    rwa [hconfig, hdetached] at hmarks
  · intro hpath
    obtain ⟨e₁, first, rest, rfl, hfirst, hlater⟩ := path_bind_iff.1 hpath
    obtain ⟨t, ht, hinput, rfl, rfl, rfl⟩ := (path_take_iff .start).1 hfirst
    have hstart : t.input = .start → t.before.state ≠ .connected := fun _ =>
      Engine.state_new hnew
    obtain ⟨role, hrole, hlog⟩ := ht.answered hinput (hstart hinput)
    refine ⟨role, by simp [hlog], fun hjoin => ?_⟩
    have hrests := hrest.turn ht hstart
    obtain ⟨hopening, hothers⟩ := granted_append.1 hgranted
    have hmarks := marks_handleAll hrests hlater hothers
    rw [hrests.attached_of_role hrole, ht.config hstart, hconfig] at hmarks
    have hmarked := hrest.marks ht hstart (.start hinput hrole (by rwa [hconfig])) hopening
    rw [hconfig, hdetached] at hmarked
    rw [List.map_cons, changes_cons]
    exact hmarked.append hmarks

/-- A simulated node that is told to be attached, twice, then detached, and then attached again;
before its start, and with the start at a time when it is attached already. -/
theorem role_changes_marked_once_simulated :
    (∃ log e, Path (handleAll ([.child, .router, .detached, .leader].map .roleChanged)
        Engine.default) log e ∧ Granted log ∧ Marks .default [true, false, true] log) ∧
    ∃ log e, Path (Engine.default.start >>= handleAll ([.router, .detached].map .roleChanged))
        log e ∧ Granted log ∧ log.findSome? Exchange.role? = some .child ∧
      Marks .default [true, false] log := by
  constructor
  · have hpath := path_run Host.answer
      (handleAll ([.child, .router, .detached, .leader].map .roleChanged) Engine.default)
      (.initial .disabled)
    have hgranted : Granted ((handleAll ([.child, .router, .detached, .leader].map .roleChanged)
        Engine.default).exchanges Host.answer (.initial .disabled)) := by
      unfold Granted
      decide +kernel
    have hmarks := (role_changes_marked_once Engine.new_default _ hgranted).1 hpath
    exact ⟨_, _, hpath, hgranted, hmarks⟩
  · have hpath := path_run Host.answer
      (Engine.default.start >>= handleAll ([.router, .detached].map .roleChanged)) (.initial .child)
    have hgranted : Granted ((Engine.default.start >>=
        handleAll ([.router, .detached].map .roleChanged)).exchanges Host.answer
          (.initial .child)) := by
      unfold Granted
      decide +kernel
    have hchild : ((Engine.default.start >>=
        handleAll ([.router, .detached].map .roleChanged)).exchanges Host.answer
          (.initial .child)).findSome? Exchange.role? = some .child := by
      decide +kernel
    obtain ⟨role, hrole, hmarks⟩ :=
      (role_changes_marked_once Engine.new_default _ hgranted).2 hpath
    obtain rfl : role = .child := Option.some.inj (hrole.symm.trans hchild)
    exact ⟨_, _, hpath, hgranted, hchild, hmarks fun _ => rfl⟩

end Engine

end MeshLight
