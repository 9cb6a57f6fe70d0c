import MeshLight.Command.Dispatch
import MeshLight.Event
import MeshLight.Join
import MeshLight.PollBoost
import MeshLight.Provisioning

/-!
# MeshLight.Engine

The engine of the node. An event is dealt with in three steps: it is applied to the session, the
machine follows the facts, and then all waiting work is done, oldest first. Whatever the engine
wants from its surroundings it asks for by calls.
-/

namespace MeshLight

structure Engine where
  config : Config
  machine : Machine
  session : Session
  join : Join
  boost : PollBoost

namespace Engine

/-- A disconnected engine with a configuration it can run with. -/
def new (config : Config) : Except Config.Defect Engine := do
  let config ← config.validate
  match ReportInterval.ofSecs? config.reportIntervalSecs with
  | none => .error .zeroReportInterval
  | some interval =>
    return {
      config := config
      machine := .initial .disconnected
      session := .initial interval
      join := .initial config.commissioningTimeoutSecs.toNat config.maxJoinAttempts.toNat
      boost := .none }

/-! ## views -/

def state (e : Engine) : SessionState := e.machine.state

def isConnected (e : Engine) : Bool := e.state = .connected

/-- Asks for work. -/
def submit (w : Work) (e : Engine) : Engine := { e with session := e.session.submit w }

/-- Goes back to the poll period from before the boost, if one is held. -/
def restorePoll (e : Engine) : Prog Engine := do
  return { e with boost := ← e.boost.restore }

/-! ## joining and roles -/

/-- Tells the session whether a join is in progress and lets the machine follow. -/
def sync (e : Engine) : Prog Engine := do
  let (machine, session) := e.machine.step { e.session with joinActive := e.join.isJoining }
  if machine.state ≠ e.machine.state then
    Prog.emit (.sessionChanged e.machine.state machine.state)
  return { e with machine := machine, session := session }

/-- The role changed. -/
def onRole (role : Role) (e : Engine) : Prog Engine :=
  let join := if role.isAttached then e.join.succeed else e.join
  sync { e with session := { e.session with attached := role.isAttached }, join := join }

/-- Begins a join unless the node is connected or a join is in progress or has succeeded. -/
def requestJoin (e : Engine) : Prog Engine := do
  if e.isConnected then return e
  match e.join.begin (← Prog.timer .now) with
  | .error _ => return e
  | .ok join =>
    match ← Prog.mesh .startJoiner with
    | .ok _ => (submit .indicateJoining { e with join := join }).sync
    | .error _ => sync { e with join := join.abandon }

/-- An attempt to join ended without success. -/
def onJoinerIdle (e : Engine) : Prog Engine := do
  let (decision, join) := e.join.attemptEnded (← Prog.timer .now)
  let e := { e with join := join }
  match decision with
  | .retry _ =>
    match ← Prog.mesh .startJoiner with
    | .ok _ => return e
    | .error _ => return submit .indicateIdle { e with join := e.join.abandon }
  | .giveUp attempts =>
    Prog.emit (.joinGaveUp attempts)
    return e.submit .indicateIdle
  | .ignore => return e

/-- An attempt to join made progress. -/
def onJoiner (state : JoinerState) (e : Engine) : Prog Engine := do
  match state with
  | .idle => (← e.onJoinerIdle).sync
  | .joined => sync { e with join := e.join.succeed }
  | .discover | .connect | .connected | .entrust => e.sync

/-! ## replies -/

/-- A reply to the provisioning question came. Its address counts only while connected. -/
def onProvisioningReply (payload : Bytes) (e : Engine) : Prog Engine := do
  let e ← e.restorePoll
  match Provisioning.parseReply payload with
  | .error _ => return e
  | .ok address =>
    if e.isConnected then
      Prog.emit (.peerDiscovered address)
      return submit .reportStatus { e with session := { e.session with peer := some address } }
    else return e

def onReply (kind : ReplyKind) (payload : Bytes) (e : Engine) : Prog Engine :=
  match kind with
  | .provisioning => e.onProvisioningReply payload
  | .status | .trigger => return e

def onReplyTimeout (kind : ReplyKind) (e : Engine) : Prog Engine :=
  match kind with
  | .provisioning => e.restorePoll
  | .status | .trigger => return e

/-! ## registration -/

/-- Starts the report timer with the current interval. -/
def startReports (e : Engine) : Prog Unit :=
  Prog.timer <|
    .startPeriodic .report e.config.reportInitialDelayMs.toNat e.session.interval.period

/-- The registrar answered. The first success starts management and, outside testing mode, the
reports. -/
def onRegistration (outcome : RegistrationOutcome) (e : Engine) : Prog Engine := do
  let (advance, registration) := e.session.registration.apply outcome
  let e := { e with session := { e.session with registration := registration } }
  match advance with
  | .unchanged => return e
  | .failed =>
    Prog.emit (.registrationChanged registration.state)
    return e
  | .firstSuccess =>
    Prog.board .startManagement
    if !e.session.testing then e.startReports
    Prog.emit (.registrationChanged registration.state)
    return e

/-! ## commands -/

/-- A request came. Only a put is a command; it is answered before anything it leaves to be done. -/
def onCommand (request : InboundRequest) (e : Engine) : Prog Engine := do
  if request.method ≠ .put then return e
  let (session, outcome) ← dispatch e.config request.payload e.session
  let e := { e with session := session }
  let _ ← Prog.mesh (.respond request.token (utf8 outcome.body))
  Prog.emit (.commandHandled outcome.commandName outcome.code)
  match outcome.followUp with
  | some work => return e.submit work
  | none => return e

/-! ## timers and testing mode -/

def onTimer (timer : Timer) (e : Engine) : Prog Engine := do
  match timer with
  | .report => return e.submit .reportStatus
  | .lightOff group =>
    let _ ← Prog.board (.setGroupPower group false)
    return e

/-- Enters testing mode, which only a connected node does, or leaves it. There are no reports in
testing mode. -/
def setTesting (on : Bool) (e : Engine) : Prog Engine := do
  if on == e.session.testing || (on && !e.isConnected) then return e
  let e := { e with session := { e.session with testing := on } }
  if on then Prog.timer (.stop .report)
  else if e.session.registration.state = .registered then e.startReports
  Prog.emit (.testingChanged on)
  return e

/-- Applies an event, without doing the work it asks for. -/
def apply (event : Event) (e : Engine) : Prog Engine :=
  match event with
  | .roleChanged role => e.onRole role
  | .joinerChanged state => e.onJoiner state
  | .reply kind payload => e.onReply kind payload
  | .replyTimedOut kind => e.onReplyTimeout kind
  | .registrationCompleted outcome => e.onRegistration outcome
  | .commandReceived request => e.onCommand request
  | .timerFired timer => e.onTimer timer
  | .joinRequested => e.requestJoin
  | .factoryResetRequested => return e.submit (.factoryReset 0)
  | .reportRequested => return e.submit .reportStatus
  | .setTesting on => e.setTesting on
  | .trigger event => return e.submit (.emitTrigger event)

/-! ## work -/

/-- Asks all nodes for the coordinator's address, polling faster until a reply comes. -/
def sendProvisioning (e : Engine) : Prog Engine := do
  if !e.isConnected || e.session.testing then return e
  let e := { e with boost := ← e.boost.engage e.config.boostedPollPeriodMs }
  match ← Prog.mesh (.send Provisioning.request) with
  | .ok _ => return e
  | .error _ => e.restorePoll

/-- Hands host and service to the registration client, up to the first refusal. -/
def advertise (e : Engine) : ExceptT RegistrationFault Prog Unit := do
  let id ← (Prog.mesh .identity : Prog Identity)
  ExceptT.mk (Prog.mesh (.setHostName id.extended.text))
  ExceptT.mk (Prog.mesh (.setHostAddress id.advertised))
  ExceptT.mk <| Prog.mesh <| .addService <|
    .ofNode id e.config.instanceLabel.text e.config.servicePort e.config.softwareVersion.text
  ExceptT.mk (Prog.mesh .enableAutostart)

/-- Changes the progress of the registration. -/
def setRegistration (r : Registration) (e : Engine) : Prog Engine := do
  Prog.emit (.registrationChanged r.state)
  return { e with session := { e.session with registration := r } }

/-- Begins the registration, unless that was done in this connection already. -/
def beginRegistration (e : Engine) : Prog Engine := do
  if !e.session.registration.canBegin then return e
  match ← e.advertise.run with
  | .ok _ => e.setRegistration e.session.registration.begin
  | .error _ => e.setRegistration e.session.registration.fail

/-- The brief flash of the presence light after something was sent. -/
def pulse (e : Engine) : Prog Unit :=
  Prog.board (.setIndicator (.pulse e.config.triggerPulseMs))

/-- Samples the sensors and sends a report to the peer. Readings that could not be renewed are sent
as they are. -/
def sendReport (peer : Address) (e : Engine) : Prog Engine := do
  let _ ← Prog.board .sample
  let id ← Prog.mesh .identity
  let readings ← Prog.board .readings
  let report := StatusReport.ofNode id readings e.session.interval e.config.softwareVersion.text
    e.config.firmwareType.text
  match ← Prog.mesh (.send ⟨.put, .unicast peer, "status", utf8 report.text, some .status⟩) with
  | .error _ => return e
  | .ok _ =>
    e.pulse
    Prog.emit (.statusReported peer)
    return e

/-- Reports the status, or asks for the coordinator's address if it is not known. -/
def reportStatus (e : Engine) : Prog Engine :=
  if e.session.testing || !e.isConnected then return e
  else
    match e.session.peer with
    | none => return e.submit .sendProvisioning
    | some peer => e.sendReport peer

/-- Sends a notification along its route. Only the peer is asked to reply. -/
def sendAlong (route : Route) (event : TriggerEvent) (e : Engine) : Prog Engine := do
  let id ← Prog.mesh .identity
  let broadcast := match route.destination with
    | .multicast _ => true
    | .unicast _ => false
  let reply := if broadcast then none else some .trigger
  let payload := utf8 (event.notification id.eui64.text)
  match ← Prog.mesh (.send ⟨.put, route.destination, route.resource, payload, reply⟩) with
  | .error _ => return e
  | .ok _ =>
    if route.pulse then e.pulse
    Prog.emit (.triggerSent event.kind broadcast)
    return e

/-- Sends a notification, or asks for the coordinator's address if that is needed first. -/
def emitTrigger (event : TriggerEvent) (e : Engine) : Prog Engine :=
  if !e.isConnected then return e
  else
    match Route.choose e.session.testing e.session.peer with
    | .error _ => return e.submit .sendProvisioning
    | .ok route => e.sendAlong route event

/-- Waits, takes the node off the registrar, and wipes its membership. -/
def factoryReset (graceMs : UInt32) (e : Engine) : Prog Engine := do
  Prog.board (.delay graceMs)
  let _ ← Prog.mesh (.removeAll e.config.deregisterTimeoutMs)
  Prog.mesh .factoryReset
  return { e with join := e.join.reset }

/-- Sets the mode of the presence light. -/
def indicate (mode : IndicatorMode) (e : Engine) : Prog Engine := do
  Prog.board (.setIndicator mode)
  return e

/-- Does one piece of work. -/
def execute (work : Work) (e : Engine) : Prog Engine :=
  match work with
  | .indicateConnected => e.indicate .on
  | .indicateDisconnected => e.indicate (.blink e.config.disconnectedBlinkMs)
  | .indicateJoining => e.indicate (.blink e.config.joiningBlinkMs)
  | .indicateIdle => e.indicate .off
  | .sendProvisioning => e.sendProvisioning
  | .releasePollBoost => e.restorePoll
  | .beginRegistration => e.beginRegistration
  | .reportStatus => e.reportStatus
  | .emitTrigger event => e.emitTrigger event
  | .startManagement => do
    Prog.board .startManagement
    return e
  | .factoryReset graceMs => e.factoryReset graceMs
  | .reboot graceMs => do
    Prog.board (.delay graceMs)
    Prog.board .reboot
    return e

/-! ## running -/

/-- Takes the oldest work. -/
def nextWork? (e : Engine) : Option (Work × Engine) :=
  match e.session.work.pop? with
  | none => none
  | some (w, rest) => some (w, { e with session := { e.session with work := rest } })

/-- Does waiting work, oldest first, at most the given number of pieces. -/
def drain : (pieces : Nat) → Engine → Prog Engine
  | 0, e => return e
  | pieces + 1, e =>
    match e.nextWork? with
    | none => return e
    | some (w, e) => do drain pieces (← e.execute w)

/-- The most work that doing a piece comes to, itself included: a report or a notification may ask
for the coordinator's address. -/
def workload : Work → Nat
  | .reportStatus | .emitTrigger _ => 2
  | _ => 1

/-- Does all waiting work, and what that asks for. -/
def runPending (e : Engine) : Prog Engine := e.drain (e.session.work.weigh workload)

/-- An engine without waiting work is left as it is. -/
theorem runPending_of_items_eq_nil {e : Engine} (h : e.session.work.items = []) :
    e.runPending = return e := by
  simp [runPending, WorkQueue.weigh_of_items_eq_nil _ h, drain]

/-- Starts the engine. The stack may be attached already; if not, a join may be configured. -/
def start (e : Engine) : Prog Engine := do
  let e := { e with session := e.machine.start e.session }
  Prog.emit (.started e.state)
  let role ← Prog.mesh .role
  let e ←
    if role.isAttached then e.onRole role
    else if e.config.autoJoin then e.requestJoin
    else pure e
  e.runPending

/-- Deals with an event. -/
def handle (event : Event) (e : Engine) : Prog Engine := do (← e.apply event).runPending

/-- Deals with events, one after the other. -/
def handleAll : List Event → Engine → Prog Engine
  | [], e => return e
  | event :: rest, e => do handleAll rest (← e.handle event)

theorem handleAll_append (first rest : List Event) (e : Engine) :
    handleAll (first ++ rest) e = handleAll first e >>= handleAll rest := by
  induction first generalizing e with
  | nil => rfl
  | cons event first ih => simp only [List.cons_append, handleAll, ih, bind_assoc]

end Engine

end MeshLight
