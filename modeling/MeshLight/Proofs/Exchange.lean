import MeshLight.Prog.Path

/-!
# MeshLight.Proofs.Exchange

Kinds of calls: those that only ask, those that were refused, and those that put a message on the
mesh. A log is read for what its calls say (`collect`), and for the requests in it.
-/

namespace MeshLight

/-! ## reading a log -/

/-- What the calls of a log are read as, in their order. Calls that are read as nothing are left
out. -/
def collect (read : Call → Option α) (log : List Exchange) : List α :=
  log.filterMap fun x => read x.call

section

variable {read : Call → Option α} {log : List Exchange}

@[simp] theorem collect_nil : collect read [] = [] := rfl

@[simp] theorem collect_append (first rest : List Exchange) :
    collect read (first ++ rest) = collect read first ++ collect read rest :=
  List.filterMap_append

@[simp] theorem collect_cons (x : Exchange) (log : List Exchange) :
    collect read (x :: log) = (read x.call).toList ++ collect read log := by
  unfold collect
  cases h : read x.call <;> simp [h]

theorem collect_flatMap (logs : List β) (f : β → List Exchange) :
    collect read (logs.flatMap f) = logs.flatMap fun x => collect read (f x) :=
  List.filterMap_flatMap

theorem collect_eq_nil_iff : collect read log = [] ↔ ∀ x ∈ log, read x.call = none :=
  List.filterMap_eq_nil_iff

/-- What a log is read as depends on its calls alone. -/
theorem collect_eq_filterMap_calls :
    collect read log = (log.map Exchange.call).filterMap read := by
  rw [List.filterMap_map]
  rfl

theorem collect_of_timers {calls : List TimerCall}
    (h : log.map Exchange.call = calls.map Call.timer) :
    collect read log = calls.filterMap fun c => read (.timer c) := by
  rw [collect_eq_filterMap_calls, h, List.filterMap_map]
  rfl

end

/-! ## calls that change nothing -/

/-- Whether a call only asks. -/
def Call.isQuestion : Call → Bool
  | .mesh .role | .mesh .linkMode | .mesh .pollPeriod | .mesh .identity => true
  | .board (.groupStatus _) | .board .pins | .board .readings => true
  | .timer (.isRunning _) | .timer .now => true
  | _ => false

/-- Whether a call was refused. -/
def Exchange.isRefused : Exchange → Bool
  | ⟨.mesh (.setLinkMode _), .error _⟩ | ⟨.mesh (.setPollPeriod _), .error _⟩
  | ⟨.mesh .startJoiner, .error _⟩ | ⟨.mesh (.setHostName _), .error _⟩
  | ⟨.mesh (.setHostAddress _), .error _⟩ | ⟨.mesh (.addService _), .error _⟩
  | ⟨.mesh .enableAutostart, .error _⟩ | ⟨.mesh (.removeAll _), .error _⟩
  | ⟨.mesh (.send _), .error _⟩ | ⟨.mesh (.respond _ _), .error _⟩
  | ⟨.board (.setGroupPower _ _), .error _⟩ | ⟨.board (.setGroupColor _ _), .error _⟩
  | ⟨.board (.groupStatus _), .error _⟩ | ⟨.board (.setPin _ _), .error _⟩
  | ⟨.board .sample, .error _⟩ => true
  | _ => false

/-- A call that only asked or was refused. -/
def Exchange.isIdle (x : Exchange) : Bool := x.call.isQuestion || x.isRefused

/-! ## messages -/

/-- The request that a call sends. -/
def Call.request? : Call → Option Request
  | .mesh (.send request) => some request
  | _ => none

/-- Whether a call puts a message on the mesh, a request or a response. -/
def Call.isMessage : Call → Bool
  | .mesh (.send _) | .mesh (.respond _ _) => true
  | _ => false

/-- The answer to a request that a call sends: the token of the request, and a body. -/
def Call.response? : Call → Option (UInt32 × Bytes)
  | .mesh (.respond token body) => some (token, body)
  | _ => none

/-- The command that a call notes as handled, by its name, with the code of the answer. -/
def Call.handled? : Call → Option (String × Int)
  | .emit (.commandHandled command code) => some (command, code)
  | _ => none

theorem Call.request?_of_isMessage {c : Call} (h : c.isMessage = false) : c.request? = none := by
  unfold isMessage at h
  unfold request?
  split
  · cases h
  · rfl

theorem Call.response?_of_isMessage {c : Call} (h : c.isMessage = false) : c.response? = none := by
  unfold isMessage at h
  unfold response?
  split
  · cases h
  · rfl

/-- The requests that were sent, in their order. Those that could not be sent count as well. -/
def requests (log : List Exchange) : List Request := log.filterMap fun x => x.call.request?

@[simp] theorem requests_nil : requests [] = [] := rfl

@[simp] theorem requests_append (first rest : List Exchange) :
    requests (first ++ rest) = requests first ++ requests rest :=
  collect_append first rest

@[simp] theorem requests_cons (x : Exchange) (log : List Exchange) :
    requests (x :: log) = x.call.request?.toList ++ requests log :=
  collect_cons x log

theorem requests_eq_nil_iff {log : List Exchange} :
    requests log = [] ↔ ∀ x ∈ log, x.call.request? = none :=
  collect_eq_nil_iff

/-- Nothing is sent by calls that are no messages. -/
theorem requests_of_isMessage {log : List Exchange} (h : ∀ x ∈ log, x.call.isMessage = false) :
    requests log = [] :=
  requests_eq_nil_iff.2 fun x hx => Call.request?_of_isMessage (h x hx)

end MeshLight
