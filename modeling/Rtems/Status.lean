import Mathlib.Init

/-! # Status codes of the directives -/

namespace Rtems

/-- Of `rtems_status_code`, what the modelled directives return. -/
inductive Status
  | successful
  | invalidClock
  | notDefined
  | timeout
  | unsatisfied
  | invalidSize
  | invalidAddress
  | notImplemented
  | resourceInUse
  | invalidName
  | invalidId
  | invalidPriority
  | mpNotConfigured
  | tooMany
  | noMemory
  | notOwnerOfResource
  | internalError
  deriving DecidableEq, Repr

end Rtems
