import Mathlib.Logic.Basic
import Chassis.Lib.Text
import Chassis.Core.Errors

/-!
# Capability contracts

* `Packaging`               what is used of the `packaging` library: versions and specifiers;
* `CapabilityKey`           a contract, `name` and generation, valid by construction;
* `CapabilityRequirement`   a requirement on a contract, and which offers it `accepts`;
* `specifierMajor`          the generation a specifier pins, if it pins one.
-/

namespace Chassis
open Py

/-- a PEP 440 version, by its canonical text (`str(version)`) -/
structure Version where
  text : String
  deriving DecidableEq, Repr

/-- a specifier set, by its canonical text (`str(specifier)`) -/
structure SpecifierSet where
  text : String
  deriving DecidableEq, Repr

/-- The `packaging` library.  Two versions may be equal (`versionEq`) and render differently. -/
class Packaging where
  parseVersion : String → Option Version
  major : Version → Nat
  minor : Version → Nat
  micro : Version → Nat
  versionEq : Version → Version → Bool
  versionLt : Version → Version → Bool
  parseSpecifierSet : String → Option SpecifierSet
  /-- operator and version text of each specifier, in iteration order -/
  specifiers : SpecifierSet → List (String × String)
  contains : SpecifierSet → Version → Bool

set_option linter.unusedSectionVars false

variable [Packaging]

/-- `ceiling` and `floor` of a list of versions: the first of the least, of the greatest -/
def minVersion (v : Version) (l : List Version) : Version :=
  l.foldl (fun m x => if Packaging.versionLt x m then x else m) v

def maxVersion (v : Version) (l : List Version) : Version :=
  l.foldl (fun m x => if Packaging.versionLt m x then x else m) v

structure CapabilityKey where
  name : String
  apiVersion : String
  name_ok : name ≠ "" ∧ strip name = name
  apiVersion_ok : apiVersion = "" ∨ isdigit apiVersion = true
  deriving DecidableEq

omit [Packaging] in
theorem CapabilityKey.generation_one : "1" = "" ∨ isdigit "1" = true := by decide +kernel

omit [Packaging] in
theorem CapabilityKey.named_db : "db" ≠ "" ∧ strip "db" = "db" := by decide +kernel

/-- `CapabilityKey(name, api_version)` -/
def CapabilityKey.make (name apiVersion : String) : Except Err CapabilityKey :=
  if hn : name ≠ "" ∧ strip name = name then
    if ha : apiVersion = "" ∨ isdigit apiVersion = true then
      .ok ⟨name, apiVersion, hn, ha⟩
    else
      .error (ConfigurationError "capability api_version must be a numeric contract generation"
        [("capability", name), ("api_version", apiVersion)])
  else
    .error (ConfigurationError "capability name must be a non-empty, trimmed string"
      [("capability", name)])

def parseVersion (value capability : String) : Except Err Version :=
  match Packaging.parseVersion value with
  | some v => .ok v
  | none => .error (ConfigurationError "capability version is not PEP 440 compliant"
      [("capability", capability), ("version", value)])

/-- the contract a provided implementation version registers -/
def CapabilityKey.fromVersion (name version : String) : Except Err CapabilityKey := do
  let parsed ← parseVersion version name
  CapabilityKey.make name (toString (Packaging.major parsed))

def CapabilityKey.str (k : CapabilityKey) : String :=
  if k.apiVersion = "" then k.name else k.name ++ "@" ++ k.apiVersion

/-- a bare version is an exact match -/
def parseSpecifier (value capability : String) : Except Err SpecifierSet :=
  let text := strip value
  let text := match text.toList with
    | [] => text
    | c :: _ => if ['<', '>', '=', '!', '~'].contains c then text else "==" ++ text
  match Packaging.parseSpecifierSet text with
  | some s => .ok s
  | none => .error (ConfigurationError "capability requirement is not a valid PEP 440 specifier set"
      [("capability", capability), ("requirement", value)])

/-- what `specifier_major` collects: exact versions, lower and upper bounds -/
structure Bounds where
  pinned : List Version := []
  lower : List Version := []
  upper : List (String × Version) := []

def Bounds.add (b : Bounds) (spec : String × String) : Bounds :=
  if spec.1 = "!=" then b
  else
    let raw := if endsWith spec.2 ".*" then dropEnd 2 spec.2 else spec.2
    match Packaging.parseVersion raw with
    | none => b
    | some version =>
      if spec.1 = "==" ∨ spec.1 = "===" ∨ spec.1 = "~=" then
        { b with pinned := b.pinned ++ [version] }
      else if spec.1 = ">=" ∨ spec.1 = ">" then
        { b with lower := b.lower ++ [version] }
      else if spec.1 = "<" ∨ spec.1 = "<=" then
        { b with upper := b.upper ++ [(spec.1, version)] }
      else b

/-- The contract generation the specifier proves, if it proves one: an exact version, or bounds
that agree on the major. -/
def specifierMajor (specifier : SpecifierSet) : Option String :=
  let b := (Packaging.specifiers specifier).foldl Bounds.add {}
  match b.pinned with
  | v :: l => some (toString (Packaging.major (minVersion v l)))
  | [] =>
    match b.lower, b.upper with
    | v :: l, u :: us =>
      let floor := maxVersion v l
      let (operator, ceiling) :=
        us.foldl (fun m x => if Packaging.versionLt x.2 m.2 then x else m) u
      let ceilingMajor : Int :=
        if operator = "<" ∧ Packaging.minor ceiling = 0 ∧ Packaging.micro ceiling = 0 then
          (Packaging.major ceiling : Int) - 1
        else Packaging.major ceiling
      if (Packaging.major floor : Int) = ceilingMajor then
        some (toString (Packaging.major floor))
      else none
    | _, _ => none

structure CapabilityRequirement where
  key : CapabilityKey
  specifier : SpecifierSet
  optional : Bool := false
  deriving DecidableEq

/-- a manifest-style requirement; the generation is the one the specifier pins, or none -/
def CapabilityRequirement.parse (name requirement : String) (optional : Bool := false) :
    Except Err CapabilityRequirement := do
  let specifier ← parseSpecifier requirement name
  let key ← CapabilityKey.make name ((specifierMajor specifier).getD "")
  return ⟨key, specifier, optional⟩

def CapabilityRequirement.name (r : CapabilityRequirement) : String := r.key.name

/-- whether a provider offering `key` at `version` satisfies the requirement -/
def CapabilityRequirement.accepts (r : CapabilityRequirement) (key : CapabilityKey)
    (version : Version) : Bool :=
  if key.name ≠ r.key.name then false
  else if r.key.apiVersion ≠ "" ∧ key.apiVersion ≠ r.key.apiVersion then false
  else Packaging.contains r.specifier version

def CapabilityRequirement.str (r : CapabilityRequirement) : String :=
  let rendered := if r.specifier.text = "" then "*" else r.specifier.text
  if r.optional then r.name ++ " " ++ rendered ++ " (optional)" else r.name ++ " " ++ rendered

/-! ## what a parse returns -/

theorem CapabilityKey.make_eq {name apiVersion : String} {k : CapabilityKey}
    (h : CapabilityKey.make name apiVersion = .ok k) : k.name = name ∧ k.apiVersion = apiVersion := by
  simp only [CapabilityKey.make] at h
  split at h
  · split at h
    · cases h
      exact ⟨rfl, rfl⟩
    · cases h
  · cases h

theorem CapabilityRequirement.parse_eq {name requirement : String} {optional : Bool}
    {r : CapabilityRequirement} (h : CapabilityRequirement.parse name requirement optional = .ok r) :
    r.name = name ∧ r.optional = optional := by
  simp only [CapabilityRequirement.parse, bind, Except.bind] at h
  split at h
  · cases h
  · split at h
    · cases h
    · rename_i key hkey
      cases h
      exact ⟨(CapabilityKey.make_eq hkey).1, rfl⟩

theorem CapabilityRequirement.accepts_name {r : CapabilityRequirement} {key : CapabilityKey}
    {version : Version} (h : r.accepts key version = true) : key.name = r.name := by
  simp only [CapabilityRequirement.accepts] at h
  split at h
  · cases h
  · rename_i hne
    exact not_not.1 hne

end Chassis
