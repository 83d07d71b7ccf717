set_option autoImplicit false

/-!
# RIO: errors

`rio/error.rs`.  A report is the error with the note it was made with; the values and
the scopes that are attached to it on its way are left out.
-/

namespace Veloq.Rio

/-- `RioError`. -/
inductive RioError where
  | libraryLoad
  | bufferRegistration
  | cqCreation
  | rqCreation
  | datapath
  | invalidInput
  | resourceExhaustion
  | notSupported
  | internal
  deriving DecidableEq, Repr

/-- `Report<RioError>`. -/
structure Report where
  error : RioError
  note : String
  deriving DecidableEq, Repr

/-- `RioResult`. -/
abbrev RioResult (α : Type) := Except Report α

end Veloq.Rio
