import Mathlib.Logic.Function.Basic

/-!
# The platform

What the harness uses of Python's library besides the containers: digests, random identifiers and
the text of a float.
-/

namespace Chassis

/-- `fresh n` is the text of the `n`-th identifier drawn (`uuid4().hex[:12]`). -/
class Platform where
  /-- the hexadecimal digest of a text -/
  hashText : String → String
  floatRepr : Rat → String
  fresh : Nat → String
  fresh_injective : Function.Injective fresh

variable [Platform]

def freshId (kind : String) (n : Nat) : String := kind ++ "_" ++ Platform.fresh n

theorem freshId_injective (kind : String) : Function.Injective (freshId kind) := by
  intro m n h
  have hsuffix : (kind ++ "_").toList ++ (Platform.fresh m).toList
      = (kind ++ "_").toList ++ (Platform.fresh n).toList := by
    rw [← String.toList_append, ← String.toList_append]
    exact congrArg String.toList h
  exact Platform.fresh_injective (String.toList_inj.1 (List.append_cancel_left hsuffix))

end Chassis
