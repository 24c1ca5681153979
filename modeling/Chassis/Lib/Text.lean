/-!
# Text

The string operations the messages and the checks of the source are written with.

* `strip`, `isdigit`, `join`   as `str.strip`, `str.isdigit` (of Unicode 15), `sep.join`;
* `quoted`                     the quoted form `!r` puts into a message;
* `replace`, `padded`          as `str.replace`, and `:04d` of a format.
-/

namespace Py

/-- the white space `str.strip` removes -/
def isSpace (c : Char) : Bool :=
  let n := c.toNat
  (9 ≤ n && n ≤ 13) || (28 ≤ n && n ≤ 32) || n == 0x85 || n == 0xa0 || n == 0x1680 ||
    (0x2000 ≤ n && n ≤ 0x200a) || n == 0x2028 || n == 0x2029 || n == 0x202f || n == 0x205f ||
    n == 0x3000

def strip (s : String) : String :=
  String.ofList ((s.toList.dropWhile isSpace).reverse.dropWhile isSpace).reverse

/-- the zeros of the scripts that have decimal digits -/
def digitZeros : List Nat := [
  0x30, 0x660, 0x6f0, 0x7c0, 0x966, 0x9e6, 0xa66, 0xae6, 0xb66, 0xbe6, 0xc66, 0xce6, 0xd66,
  0xde6, 0xe50, 0xed0, 0xf20, 0x1040, 0x1090, 0x17e0, 0x1810, 0x1946, 0x19d0, 0x1a80, 0x1a90,
  0x1b50, 0x1bb0, 0x1c40, 0x1c50, 0xa620, 0xa8d0, 0xa900, 0xa9d0, 0xa9f0, 0xaa50, 0xabf0, 0xff10,
  0x104a0, 0x10d30, 0x11066, 0x110f0, 0x11136, 0x111d0, 0x112f0, 0x11450, 0x114d0, 0x11650,
  0x116c0, 0x11730, 0x118e0, 0x11950, 0x11c50, 0x11d50, 0x11da0, 0x11f50, 0x16a60, 0x16ac0,
  0x16b50, 0x1d7ce, 0x1d7d8, 0x1d7e2, 0x1d7ec, 0x1d7f6, 0x1e140, 0x1e2f0, 0x1e4f0, 0x1e950,
  0x1fbf0]

/-- digits that are no decimals: superscripts, and numbers in a circle or with a mark -/
def otherDigits : List (Nat × Nat) := [
  (0xb2, 0xb3), (0xb9, 0xb9), (0x1369, 0x1371), (0x19da, 0x19da), (0x2070, 0x2070),
  (0x2074, 0x2079), (0x2080, 0x2089), (0x2460, 0x2468), (0x2474, 0x247c), (0x2488, 0x2490),
  (0x24ea, 0x24ea), (0x24f5, 0x24fd), (0x24ff, 0x24ff), (0x2776, 0x277e), (0x2780, 0x2788),
  (0x278a, 0x2792), (0x10a40, 0x10a43), (0x10e60, 0x10e68), (0x11052, 0x1105a),
  (0x1f100, 0x1f10a)]

/-- `str.isdigit`: digits of any script, at least one -/
def isdigit (s : String) : Bool :=
  !s.toList.isEmpty && s.toList.all fun c => c.isDigit ||
    digitZeros.any (fun z => z ≤ c.toNat && c.toNat ≤ z + 9) ||
    otherDigits.any fun r => r.1 ≤ c.toNat && c.toNat ≤ r.2

/-- one or more of the digits from `0` to `9` -/
def isDecimal (s : String) : Bool := !s.toList.isEmpty && s.toList.all Char.isDigit

def join (sep : String) (l : List String) : String := String.intercalate sep l

def hexDigit (n : Nat) : Char := Nat.digitChar (n % 16)

def reprChar (q c : Char) : List Char :=
  if c = q || c = '\\' then ['\\', c]
  else if c = '\n' then ['\\', 'n']
  else if c = '\r' then ['\\', 'r']
  else if c = '\t' then ['\\', 't']
  else if c.toNat < 32 || c.toNat = 127 then
    ['\\', 'x', hexDigit (c.toNat / 16), hexDigit c.toNat]
  else [c]

/-- `f"{s!r}"`: single quotes, unless only they occur in the text -/
def quoted (s : String) : String :=
  let q := if s.toList.contains '\'' && !s.toList.contains '"' then '"' else '\''
  String.ofList (q :: s.toList.flatMap (reprChar q) ++ [q])

/-- `s[:-2]` -/
def dropEnd (n : Nat) (s : String) : String := String.ofList (s.toList.take (s.toList.length - n))

/-- the pieces between the separators -/
def splitChars (sep : Char) : List Char → List Char → List (List Char)
  | acc, [] => [acc]
  | acc, c :: l => if c = sep then acc :: splitChars sep [] l else splitChars sep (acc ++ [c]) l

def split (sep : Char) (s : String) : List String := (splitChars sep [] s.toList).map String.ofList

theorem splitChars_flatMap (sep : Char) (acc l : List Char) :
    (splitChars sep acc l).flatMap (fun piece => sep :: piece) = sep :: (acc ++ l) := by
  induction l generalizing acc with
  | nil => simp [splitChars]
  | cons c l ih =>
    rw [splitChars]
    split
    · rename_i hc
      rw [List.flatMap_cons, ih, hc]
      rfl
    · rw [ih, List.append_assoc]
      rfl

theorem splitChars_no_sep {sep : Char} {acc l : List Char} (h : sep ∉ acc) {piece : List Char}
    (hp : piece ∈ splitChars sep acc l) : sep ∉ piece := by
  induction l generalizing acc with
  | nil =>
    rw [splitChars, List.mem_singleton] at hp
    exact hp ▸ h
  | cons c l ih =>
    rw [splitChars] at hp
    split at hp
    · rcases List.mem_cons.1 hp with rfl | hp
      · exact h
      · exact ih List.not_mem_nil hp
    · rename_i hc
      refine ih (fun hin => ?_) hp
      rcases List.mem_append.1 hin with hin | hin
      · exact h hin
      · exact hc (List.mem_singleton.1 hin).symm

theorem splitChars_flatMap_cons {sep : Char} (acc piece : List Char) {l : List (List Char)}
    (hpiece : sep ∉ piece) (hl : ∀ p ∈ l, sep ∉ p) :
    splitChars sep acc (piece ++ l.flatMap fun p => sep :: p) = (acc ++ piece) :: l := by
  induction l generalizing acc piece with
  | nil =>
    rw [List.flatMap_nil, List.append_nil]
    induction piece generalizing acc with
    | nil => rw [splitChars, List.append_nil]
    | cons c piece ih =>
      rw [splitChars, if_neg (List.ne_of_not_mem_cons hpiece).symm,
        ih _ (fun hin => hpiece (List.mem_cons_of_mem _ hin)), List.append_assoc]
      rfl
  | cons p l ihl =>
    induction piece generalizing acc with
    | nil =>
      rw [List.nil_append, List.flatMap_cons, List.cons_append, splitChars, if_pos rfl,
        ihl [] p (hl p List.mem_cons_self) (fun q hq => hl q (List.mem_cons_of_mem _ hq)),
        List.append_nil, List.nil_append]
    | cons c piece ih =>
      rw [List.cons_append, splitChars, if_neg (List.ne_of_not_mem_cons hpiece).symm,
        ih _ (fun hin => hpiece (List.mem_cons_of_mem _ hin)), List.append_assoc]
      rfl

/-- `int(s)` of a string of digits -/
def toNat (s : String) : Nat := s.toList.foldl (fun n c => 10 * n + (c.toNat - 48)) 0

def endsWith (s t : String) : Bool := t.toList.isSuffixOf s.toList

def startsWith (s t : String) : Bool := t.toList.isPrefixOf s.toList

/-- every occurrence of `old`, from the left, gives way to `new`; `n` bounds what is looked at -/
def replaceChars (old new : List Char) : Nat → List Char → List Char
  | 0, l => l
  | _ + 1, [] => []
  | n + 1, c :: l =>
    if old.isPrefixOf (c :: l) then new ++ replaceChars old new n ((c :: l).drop old.length)
    else c :: replaceChars old new n l

/-- `s.replace(old, new)` of a nonempty `old` -/
def replace (s old new : String) : String :=
  String.ofList (replaceChars old.toList new.toList s.toList.length s.toList)

/-- `f"{n:04d}"` -/
def padded (n : Nat) : String :=
  let digits := (toString n).toList
  String.ofList (List.replicate (4 - digits.length) '0' ++ digits)

theorem padded_injective {m n : Nat} (h : padded m = padded n) : m = n := by
  have hvalue : ∀ n, Nat.ofDigitChars 10 (padded n).toList 0 = n := fun n => by
    rw [padded, String.toList_ofList, Nat.ofDigitChars_append, Nat.ofDigitChars_replicate_zero,
      Nat.mul_zero, Nat.toString_eq_repr, Nat.toList_repr, Nat.ofDigitChars_ten_toDigits]
  rw [← hvalue m, h, hvalue n]

end Py
