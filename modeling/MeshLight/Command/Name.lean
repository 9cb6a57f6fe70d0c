/-!
# MeshLight.Command.Name

The commands a node understands and the names they go by.
-/

namespace MeshLight

inductive Command where
  | onOff
  | changeColor
  | setPin
  | lightStatus
  | pinStatus
  | setReportInterval
  | setLinkMode
  | upgrade
  | factoryReset
  | reboot
  deriving DecidableEq

namespace Command

/-- Every name with its command. Of several names the first is the one that is written. -/
def names : List (String × Command) := [
  ("onoff", onOff),
  ("on_off", onOff),
  ("change_color", changeColor),
  ("set_gpio", setPin),
  ("get_led_status", lightStatus),
  ("get_gpio_status", pinStatus),
  ("set_report_interval", setReportInterval),
  ("set_ot_mode", setLinkMode),
  ("upgrade", upgrade),
  ("factoryreset", factoryReset),
  ("factory_reset", factoryReset),
  ("reboot", reboot)]

/-- The command with the given name. -/
def ofName? (name : String) : Option Command := names.lookup name

/-- The name of a command. -/
def name (c : Command) : String :=
  match names.find? (·.2 = c) with
  | some (n, _) => n
  | none => "?"

theorem ofName?_name (c : Command) : ofName? c.name = some c := by
  cases c <;> decide

end Command

end MeshLight
