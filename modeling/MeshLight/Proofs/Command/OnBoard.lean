import MeshLight.Node
import MeshLight.Proofs.Command.Dispatch

/-!
# MeshLight.Proofs.Command.OnBoard

What a command does to the board, if the board is there to answer (`Board.Serves`). An action that
is carried out has changed lights or pins as it says (`Action.onBoard`), and one that is rejected
has left them alone (`onBoard_of_dispatch`). Stack and timers may answer in any way.
-/

namespace MeshLight

open Prog

/-! ## serving -/

namespace Board

variable {b b' : Board} {first rest : List Exchange}

/-- The board answers its calls in a log, and is `b'` afterwards. Nothing is said about the answers
to other calls. -/
def Serves : List Exchange → Board → Board → Prop
  | [], b, b' => b' = b
  | ⟨.board c, reply⟩ :: rest, b, b' => reply = (answer c b).1 ∧ Serves rest (answer c b).2 b'
  | _ :: rest, b, b' => Serves rest b b'

theorem serves_append_iff :
    Serves (first ++ rest) b b' ↔ ∃ mid, Serves first b mid ∧ Serves rest mid b' := by
  induction first generalizing b with
  | nil => simp [Serves]
  | cons x first ih =>
      obtain ⟨c, reply⟩ := x
      cases c with
      | board c => simp only [List.cons_append, Serves, ih, and_assoc, exists_and_left]
      | mesh c | timer c | emit c => exact ih

end Board

/-- The board of a simulated host serves every program that runs on that host. -/
theorem Host.serves_board (p : Prog α) (h : Host) :
    Board.Serves (p.exchanges Host.answer h) h.board (p.run Host.answer h).2.board := by
  induction p generalizing h with
  | done a => rfl
  | call c next ih =>
      have hrest := ih (Host.answer c h).1 (Host.answer c h).2
      cases c with
      | board c => exact ⟨rfl, hrest⟩
      | mesh c | timer c | emit c => exact hrest

/-- Every program runs on a simulated host, whose board serves it. -/
theorem Host.exists_path (p : Prog α) (h : Host) :
    ∃ log a, ∃ h' : Host, Path p log a ∧ Board.Serves log h.board h'.board :=
  ⟨_, _, (p.run answer h).2, path_run answer p h, serves_board p h⟩

/-! ## actions -/

/-- Drives all pins of the given name. -/
def PinBank.drive (name : String) (high : Bool) (bank : PinBank) : PinBank :=
  ⟨bank.pins.map fun p => if p.name = name then { p with high := high } else p⟩

theorem PinBank.set?_cases (name : String) (high : Bool) (bank : PinBank) :
    bank.set? name high = some (bank.drive name high) ∨ bank.set? name high = none := by
  unfold set?
  split
  · exact .inl rfl
  · exact .inr rfl

namespace Action

variable {config : Config} {s : Session} {log : List Exchange} {b b' : Board}

/-- The board after an action that was carried out. -/
def onBoard : Action → Board → Board
  | .setPower group on _, b => { b with strip := b.strip.setPower group on }
  | .setColor group color, b => { b with strip := b.strip.setColor group color }
  | .setPin name high, b => { b with pins := b.pins.drive name high }
  | _, b => b

/-- The board tells the state of each group it is asked for. -/
theorem entries_of_path {groups : List LightGroup} {r : Except CommandFault (List Json.Value)}
    (h : Path (lightEntries groups).run log r) (hb : Board.Serves log b b') :
    b' = b ∧ r = .ok (groups.map fun group => lightEntry group (b.strip.status group)) := by
  induction groups generalizing log r with
  | nil =>
      obtain ⟨rfl, rfl⟩ := path_done_iff.1 h
      exact ⟨hb, rfl⟩
  | cons group groups ih =>
      rw [lightEntries, path_run_bind_iff] at h
      obtain ⟨status, first, rest, rfl, hfirst, h⟩ | ⟨fault, rfl, hfirst⟩ := h
      all_goals
        obtain ⟨answer, hask, hr⟩ := path_actuate hfirst
        obtain rfl := path_board_iff.1 hask
        obtain ⟨rfl, hrest⟩ := hb
      · obtain rfl : b.strip.status group = status := (Except.ok.inj hr).symm
        rw [path_run_bind_iff] at h
        obtain ⟨entries, second, last, rfl, hentries, h⟩ | ⟨fault, rfl, hentries⟩ := h
        · obtain ⟨rfl, rfl⟩ := path_done_iff.1 h
          rw [List.append_nil] at hrest
          obtain ⟨rfl, hok⟩ := ih hentries hrest
          exact ⟨rfl, by rw [Except.ok.inj hok]; rfl⟩
        · obtain ⟨-, hok⟩ := ih hentries hrest
          cases hok
      · cases hr

/-- An action that was carried out has changed the board as it says. A rejected one has not. -/
theorem onBoard_of_path {action : Action} {r : Except CommandFault Effect}
    (h : Path (perform config s action).run log r) (hb : Board.Serves log b b') :
    (∃ effect, r = .ok effect ∧ b' = action.onBoard b) ∨ ∃ fault, r = .error fault ∧ b' = b := by
  cases action with
  | setPower group on delaySecs =>
      obtain ⟨answer, hp, rfl⟩ := path_perform_setPower h
      obtain ⟨reply, rest, rfl, ⟨⟨fault, rfl, rfl⟩, rfl⟩ | ⟨rfl, rfl, rfl⟩⟩ := path_power hp
      · cases hb.1
      · refine .inl ⟨_, rfl, ?_⟩
        obtain ⟨-, hrest⟩ := hb
        split at hrest <;> exact hrest
  | setColor group color =>
      obtain ⟨answer, rfl, rfl⟩ := path_perform_setColor h
      obtain ⟨rfl, hrest⟩ := hb
      exact .inl ⟨_, rfl, hrest⟩
  | setPin name high =>
      obtain ⟨answer, rfl, rfl⟩ := path_perform_setPin h
      obtain ⟨hanswer, hrest⟩ := hb
      rw [Board.answer] at hanswer hrest
      obtain hset | hset := b.pins.set?_cases name high
      · rw [hset] at hanswer hrest
        rw [hanswer]
        exact .inl ⟨_, rfl, hrest⟩
      · rw [hset] at hanswer hrest
        rw [hanswer]
        exact .inr ⟨_, rfl, hrest⟩
  | setLinkMode mode =>
      obtain ⟨answer, rfl, rfl⟩ := path_perform_setLinkMode h
      cases answer with
      | ok u => exact .inl ⟨_, rfl, hb⟩
      | error fault => exact .inr ⟨_, rfl, hb⟩
  | lightStatus =>
      obtain ⟨answer, hp, rfl⟩ := path_perform_lightStatus h
      obtain ⟨rfl, rfl⟩ := entries_of_path hp hb
      exact .inl ⟨_, rfl, rfl⟩
  | pinStatus =>
      obtain ⟨pins, rfl, rfl⟩ := path_perform_pinStatus h
      exact .inl ⟨_, rfl, hb.2⟩
  | setReportInterval interval =>
      obtain ⟨hp, rfl⟩ := path_perform_setReportInterval h
      obtain rfl | rfl := path_restartReports hp <;> exact .inl ⟨_, rfl, hb⟩
  | upgrade | factoryReset | reboot =>
      obtain ⟨rfl, rfl⟩ := path_done_iff.1 h
      exact .inl ⟨_, rfl, hb⟩

end Action

/-! ## dispatch -/

/-- The action of a body that was accepted, given the code it was answered with. -/
def acceptedAction? (body : Bytes) (code : Int) : Option Action :=
  match readCommand body with
  | .ok (_, action) => if code = 0 then some action else none
  | .error _ => none

theorem acceptedAction?_of_ok {body : Bytes} {command : Command} {action : Action} (code : Int)
    (h : readCommand body = .ok (command, action)) :
    acceptedAction? body code = if code = 0 then some action else none := by
  rw [acceptedAction?, h]

/-- A body that was accepted has changed the board as its action says, and any other has not. -/
theorem onBoard_of_dispatch {config : Config} {body : Bytes} {s s' : Session} {outcome : Outcome}
    {log : List Exchange} {b b' : Board} (h : Path (dispatch config body s) log (s', outcome))
    (hb : Board.Serves log b b') :
    b' = match acceptedAction? body outcome.code with
      | some action => action.onBoard b
      | none => b := by
  obtain ⟨_, _, hread, rfl, -, rfl⟩ | ⟨_, _, r, hread, hp, hr⟩ := path_dispatch h
  · rw [acceptedAction?, hread]
    exact hb
  · rw [acceptedAction?_of_ok outcome.code hread]
    obtain ⟨effect, rfl, hdone⟩ | ⟨fault, rfl, hdone⟩ := Action.onBoard_of_path hp hb
    · obtain ⟨_, ⟨⟩, -, rfl⟩ | ⟨_, ⟨⟩, -⟩ := hr
      exact hdone
    · obtain ⟨_, ⟨⟩, -⟩ | ⟨_, ⟨⟩, -, rfl⟩ := hr
      rw [if_neg (show (Outcome.rejected _ fault).code ≠ 0 from fault.code_ne_zero)]
      exact hdone

end MeshLight
