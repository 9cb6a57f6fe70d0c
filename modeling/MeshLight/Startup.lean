import MeshLight.Fault

/-!
# MeshLight.Startup

Bringing up the board's pins and their interrupts, and access to single pins. On the simulated board
nothing can go wrong: inputs read high, as open buttons do, and outputs can be driven.
-/

namespace MeshLight

/-- The board could not be brought up; the number is the platform's return code. -/
inductive StartupFault where
  | gpioConfigFailed (code : Int)
  | isrInstallFailed (code : Int)
  deriving DecidableEq

def StartupFault.message : StartupFault → String
  | .gpioConfigFailed code => "GPIO config failed (rc=" ++ decimalText code ++ ")"
  | .isrInstallFailed code => "GPIO ISR service install failed (rc=" ++ decimalText code ++ ")"

namespace Startup

def configurePins : Except StartupFault Unit := .ok ()

def installInterrupts : Except StartupFault Unit := .ok ()

/-- The level of an input pin. -/
def readPin (_pin : Int) : Bool := true

/-- Drives an output pin. Tells whether that was possible. -/
def writePin (_pin : Int) (_high : Bool) : Bool := true

end Startup

end MeshLight
