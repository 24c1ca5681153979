import Chassis.Core.Platform
import Chassis.Capabilities.Keys

/-!
# Plain versions

The part of `packaging` that concrete runs of this development need: release versions of
numbers and dots, and specifier sets of the six comparisons between them.
-/

namespace Chassis.Plain
open Py

def release (v : Version) : List Nat := (split '.' v.text).map toNat

/-- comparison of releases, the shorter one continued with zeros -/
def releaseLt : List Nat → List Nat → Bool
  | [], l => l.any (0 < ·)
  | _, [] => false
  | a :: l, b :: l' => a < b || (a = b && releaseLt l l')

def versionLt (v w : Version) : Bool := releaseLt (release v) (release w)

def parseVersion (s : String) : Option Version :=
  let segments := split '.' (strip s)
  if segments.all isDecimal then some ⟨join "." (segments.map fun t => toString (toNat t))⟩ else none

/-- operator and version of one comparison -/
def parseSpecifier (s : String) : Option (String × String) :=
  let operator := s.toList.takeWhile ['<', '>', '=', '!'].contains
  let version := strip (String.ofList (s.toList.drop operator.length))
  if ["==", "!=", ">=", "<=", ">", "<"].contains (String.ofList operator) &&
      (parseVersion version).isSome then
    some (String.ofList operator, version)
  else none

def specifiersOf (s : String) : Option (List (String × String)) :=
  if strip s = "" then some [] else (split ',' s).mapM fun t => parseSpecifier (strip t)

def compare (v : Version) (spec : String × String) : Bool :=
  let w : Version := ⟨spec.2⟩
  match spec.1 with
  | "==" => !versionLt v w && !versionLt w v
  | "!=" => versionLt v w || versionLt w v
  | ">=" => !versionLt v w
  | "<=" => !versionLt w v
  | ">" => versionLt w v
  | "<" => versionLt v w
  | _ => false

scoped instance packaging : Packaging where
  parseVersion := parseVersion
  major v := (release v).getD 0 0
  minor v := (release v).getD 1 0
  micro v := (release v).getD 2 0
  versionEq v w := !versionLt v w && !versionLt w v
  versionLt := versionLt
  parseSpecifierSet s := (specifiersOf s).map fun l => ⟨join "," (l.map fun p => p.1 ++ p.2)⟩
  specifiers s := (specifiersOf s.text).getD []
  contains s v := ((specifiersOf s.text).getD []).all (compare v)

example : (packaging.parseSpecifierSet ">=1, <2").map (fun s => packaging.contains s ⟨"1.4"⟩)
    = some true := by decide +kernel

/-- texts are their own digests, and identifiers are numbered -/
scoped instance platform : Platform where
  hashText := id
  floatRepr q := toString q.num ++ "/" ++ toString q.den
  fresh := padded
  fresh_injective _ _ := padded_injective

end Chassis.Plain
