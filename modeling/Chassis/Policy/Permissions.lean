import Chassis.Core.Errors
import Chassis.Lib.Text

/-!
# Permissions

A permission names an operation, optionally narrowed to a resource: `name` or `name:resource`.
-/

namespace Chassis
open Py

structure Permission where
  name : String
  resource : Option String := none
  deriving DecidableEq, Repr

namespace Permission

/-- the checks of the constructor -/
def of (name : String) (resource : Option String) : Except Err Permission :=
  if name = "" ∨ name ≠ strip name then
    .error (ConfigurationError "permission name must be a non-empty, trimmed string")
  else if startsWith name ":" ∨ endsWith name ":" then
    .error (ConfigurationError "permission name must not contain an empty segment"
      [("permission", name)])
  else if resource = some "" then
    .error (ConfigurationError "permission resource must not be empty" [("permission", name)])
  else .ok ⟨name, resource⟩

/-- a name that is empty has failed in the constructor already -/
def parse (text : String) : Except Err Permission :=
  if text = "" then .error (ConfigurationError "permission text must not be empty")
  else
    let name := String.ofList (text.toList.takeWhile (· ≠ ':'))
    match text.toList.dropWhile (· ≠ ':') with
    | [] => of (strip name) none
    | _ :: resource => of (strip name) (some (strip (String.ofList resource)))

def str (p : Permission) : String :=
  match p.resource with
  | none => p.name
  | some resource => p.name ++ ":" ++ resource

end Permission

structure ToolPolicy where
  permissions : List String := []
  sideEffects : List String := []
  timeoutSeconds : Option Rat := none
  approvalRequired : Bool := false
  deriving DecidableEq

def ToolPolicy.permissionObjects (p : ToolPolicy) : Except Err (List Permission) :=
  p.permissions.mapM Permission.parse

end Chassis
