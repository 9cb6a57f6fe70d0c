import MeshLight.Script.Names

/-!
# MeshLight.Script.Values

Values of the node's types in scripts and records.
-/

namespace MeshLight.Script

open MeshLight.Json

/-! ## results -/

/-- A failure. -/
def refusal (fault : String) : Value := .object [("err", .string fault)]

/-- Success, or a failure. -/
def okOr [Named ε] [DecidableEq ε] : Except ε Unit → Value
  | .ok _ => .string "ok"
  | .error e => refusal (nameOf e)

/-! ## lights and indicator -/

def rgb (c : Rgb) : Value := .array [nat c.red.toNat, nat c.green.toNat, nat c.blue.toNat]

def rgb? (r g b : Value) : Option Rgb := do some ⟨← u8? r, ← u8? g, ← u8? b⟩

def groupStatus (g : GroupStatus) : Value := .array [.bool g.on, rgb g.color]

def pins (ps : List PinState) : Value :=
  .array (ps.map fun p => .array [.string p.name, .bool p.high])

/-- The number after a label. -/
def labelled? (label s : String) : Option UInt32 :=
  if s.startsWith label then (s.drop label.length).toNat?.map UInt32.ofNat else none

def indicatorMode? (v : Value) : Option IndicatorMode := do
  let s ← v.string?
  if s = "Off" then some .off
  else if s = "On" then some .on
  else ((labelled? "Blink:" s).map .blink).or ((labelled? "Pulse:" s).map .pulse)

def indicatorMode : IndicatorMode → Value
  | .off => .string "Off"
  | .on => .string "On"
  | .blink period => .string ("Blink:" ++ decimalText period.toNat)
  | .pulse duration => .string ("Pulse:" ++ decimalText duration.toNat)

/-! ## mesh -/

def linkMode? (v : Value) : Option LinkMode := do LinkMode.ofFlags? (← v.string?)

def linkMode (m : LinkMode) : Value := .string m.text

def outcome? (v : Value) : Option RegistrationOutcome := do
  let s ← v.string?
  if s = "Registered" then some .registered
  else if s = "Removed" then some .removed
  else if s.startsWith "Failed:" then (ofName? (s.drop 7).copy).map .failed
  else none

def outcome : RegistrationOutcome → Value
  | .registered => .string "Registered"
  | .removed => .string "Removed"
  | .failed fault => .string ("Failed(" ++ nameOf fault ++ ")")

def destination : Destination → Value
  | .multicast a => .string ("multicast " ++ a.text)
  | .unicast a => .string ("unicast " ++ a.text)

/-- A request with its payload written as told. -/
def request (payload : Bytes → Value) (r : Request) : List Value :=
  [name r.method, destination r.destination, .string r.resource, payload r.payload,
    orNull name r.reply]

def service (s : ServiceRecord) : Value := .object [("instance", .string s.name),
  ("type", .string s.type), ("port", nat s.port.toNat), ("txt", .array (s.txt.map .string))]

/-- An identity; members that are missing are those of `base`. -/
def identity? (base : Identity) (v : Value) : Option Identity := do
  some {
    eui64 := ← memberOr? "eui64" base.eui64 (octets? 8) v
    extended := ← memberOr? "ext_address" base.extended (octets? 8) v
    rloc16 := ← memberOr? "rloc16" base.rloc16 u16? v
    meshLocal := ← memberOr? "mesh_local_eid" base.meshLocal address? v
    global := ← memberOr? "slaac" base.global (nullable? address?) v
    stackVersion := ← memberOr? "stack_version" base.stackVersion Value.string? v
    threadVersion := ← memberOr? "thread_version" base.threadVersion u16? v }

/-! ## readings and triggers -/

def readings (r : Readings) : Value :=
  .array [bits r.temperature, bits r.humidity, bits r.light, bits r.pressure, bits r.battery]

def readings? : List Value → Option Readings
  | [t, h, l, p, b] => do some ⟨← bits? t, ← bits? h, ← bits? l, ← bits? p, ← bits? b⟩
  | _ => none

def trigger (e : TriggerEvent) : List Value := [name e.kind, .string e.object, orNull bits e.value]

def trigger? (kind object value : Value) : Option TriggerEvent := do
  some ⟨← named? kind, ← object.string?, ← nullable? bits? value⟩

/-! ## work and events -/

def work? (v : Value) : Option Work := do
  match ← items? v with
  | [.string "EmitTrigger", kind, object, value] => (trigger? kind object value).map .emitTrigger
  | [.string "FactoryReset", ms] => (u32? ms).map .factoryReset
  | [.string "Reboot", ms] => (u32? ms).map .reboot
  | [w] => named? w
  | _ => none

def work : Work → Value
  | .emitTrigger e => .array (.string "EmitTrigger" :: trigger e)
  | .factoryReset ms => .array [.string "FactoryReset", nat ms.toNat]
  | .reboot ms => .array [.string "Reboot", nat ms.toNat]
  | w => .array [name w]

/-- A body is a text, or bytes in hexadecimal. -/
def body? : Value → Option Bytes
  | .string s => some (utf8 s)
  | v => member? "hex" hex? v

/-- An event, or a local input, which may stand for none. -/
def event? (testing : Bool) (v : Value) : Option (Option Event) := do
  match ← items? v with
  | [.string "role", r] => some (some (.roleChanged (← named? r)))
  | [.string "joiner", s] => some (some (.joinerChanged (← named? s)))
  | [.string "reply", k, h] => some (some (.reply (← named? k) (← hex? h)))
  | [.string "timeout", k] => some (some (.replyTimedOut (← named? k)))
  | [.string "registration", o] => some (some (.registrationCompleted (← outcome? o)))
  | [.string "cmd", m, t, b] =>
    some (some (.commandReceived ⟨← u32? t, ← named? m, ← body? b⟩))
  | [.string "timer", t] => some (some (.timerFired (← named? t)))
  | [.string "join"] => some (some .joinRequested)
  | [.string "factory_reset"] => some (some .factoryResetRequested)
  | [.string "report"] => some (some .reportRequested)
  | [.string "testing", b] => some (some (.setTesting (← b.bool?)))
  | [.string "trigger", k, o, x] => some (some (.trigger (← trigger? k o x)))
  | [.string "rotate", n] => some (some (rotationEvent (← int? n)))
  | [.string "button", b, g] =>
    let button : Button ← named? b
    some (button.event? testing (← named? g))
  | _ => none

def event : Event → Value
  | .roleChanged r => .array [.string "role", name r]
  | .joinerChanged s => .array [.string "joiner", name s]
  | .reply k p => .array [.string "reply", name k, hexValue p]
  | .replyTimedOut k => .array [.string "timeout", name k]
  | .registrationCompleted o => .array [.string "registration", outcome o]
  | .commandReceived r =>
    .array [.string "cmd", name r.method, nat r.token.toNat, hexValue r.payload]
  | .timerFired t => .array [.string "timer", name t]
  | .joinRequested => .array [.string "join"]
  | .factoryResetRequested => .array [.string "factory_reset"]
  | .reportRequested => .array [.string "report"]
  | .setTesting b => .array [.string "testing", .bool b]
  | .trigger e => .array (.string "trigger" :: trigger e)

end MeshLight.Script
