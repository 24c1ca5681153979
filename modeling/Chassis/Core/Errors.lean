/-!
# Errors

Every failure is an `Err`: what class it is of, its message and its structured context.

* `ErrorKind.isException`   `except Exception` catches it; the others (`CancelledError`,
                            `KeyboardInterrupt`) pass through;
* `CleanupFailure`          a failure that is recorded instead of raised; some errors carry them.
-/

namespace Chassis

/-- the classes of errors the control plane raises or tells apart -/
inductive ErrorKind
  | ConfigurationError
  | HarnessStateError
  | PluginLoadError
  | PluginSetupError
  | PluginContractError
  | PluginCycleError
  | HookExecutionError
  | EffectCleanupError
  | GenerationConflictError
  | ScopeClosedError
  | UnknownLeaseError
  | BudgetExceeded
  | PolicyDenied
  | ToolNotFound
  | ToolExecutionError
  | ReplayMismatch
  | FormatError
  | GraphBuildError
  | CapabilityNotFound
  | CapabilityVersionMismatch
  | CapabilityAmbiguous
  | SecretResolutionError
  | TimeoutError
  /-- any other subclass of `Exception` -/
  | Other
  /-- a `BaseException` that is not an `Exception` -/
  | Base
  deriving DecidableEq, Repr

def ErrorKind.isException : ErrorKind → Bool
  | .Base => false
  | _ => true

/-- one failure of an unwind: what was unwound, the class of the error and its message -/
structure CleanupFailure where
  description : String
  kind : ErrorKind
  message : String
  deriving DecidableEq, Repr

/-- an exception, its `context` in the order it was given, and the failures it aggregates -/
structure Err where
  kind : ErrorKind
  message : String
  context : List (String × String) := []
  failures : List CleanupFailure := []
  deriving DecidableEq, Repr

def Err.recorded (e : Err) (description : String) : CleanupFailure :=
  ⟨description, e.kind, e.message⟩

def ConfigurationError (message : String) (context : List (String × String) := []) : Err :=
  { kind := .ConfigurationError, message := message, context := context }

def HarnessStateError (message : String) (context : List (String × String) := []) : Err :=
  { kind := .HarnessStateError, message := message, context := context }

def PluginLoadError (message : String) (context : List (String × String) := []) : Err :=
  { kind := .PluginLoadError, message := message, context := context }

def GraphBuildError (message : String) (context : List (String × String) := []) : Err :=
  { kind := .GraphBuildError, message := message, context := context }

def GenerationConflictError (message : String) (context : List (String × String) := []) : Err :=
  { kind := .GenerationConflictError, message := message, context := context }

def EffectCleanupError (scopeName : String) (failures : List CleanupFailure) : Err :=
  { kind := .EffectCleanupError
    message := toString failures.length ++ " cleanup failure(s) while closing scope '" ++
      scopeName ++ "'"
    context := [("scope", scopeName), ("failures", toString failures.length)]
    failures := failures }

end Chassis
