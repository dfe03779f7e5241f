import Mathlib.Data.List.Basic
import Mathlib.Data.Int.Notation

/-!
# RevenueOS.Py.Text — the Python `str` operations the backend calls

Python strings are sequences of code points; Lean's `String` is read through `String.toList`.  The
operations follow the language reference: `split` and `replace` scan from the left without overlaps,
`strip` removes the characters of `str.isspace`, `lower` is exact on every character whose lower case
form contains an ASCII letter (ASCII itself, U+0130 and U+212A) and the identity elsewhere, which is
all that a search for ASCII text can observe.  `int` accepts every Unicode decimal digit, `isdigit`
also the superscript and circled digits that `int` refuses.
-/

namespace RevenueOS.Py

/-! ## Character classes -/

/-- `str.isspace`: the characters `str.strip()` removes. -/
def isSpace (c : Char) : Bool :=
  [9, 10, 11, 12, 13, 28, 29, 30, 31, 32, 133, 160, 5760, 8192, 8193, 8194, 8195, 8196, 8197, 8198, 8199,
    8200, 8201, 8202, 8232, 8233, 8239, 8287, 12288].contains c.toNat

/-- The code points of the zeros of the Unicode decimal digit runs. -/
def decimalZeros : List ℕ :=
  [0x30, 0x660, 0x6f0, 0x7c0, 0x966, 0x9e6, 0xa66, 0xae6, 0xb66, 0xbe6, 0xc66, 0xce6, 0xd66, 0xde6, 0xe50,
    0xed0, 0xf20, 0x1040, 0x1090, 0x17e0, 0x1810, 0x1946, 0x19d0, 0x1a80, 0x1a90, 0x1b50, 0x1bb0, 0x1c40,
    0x1c50, 0xa620, 0xa8d0, 0xa900, 0xa9d0, 0xa9f0, 0xaa50, 0xabf0, 0xff10, 0x104a0, 0x10d30, 0x11066,
    0x110f0, 0x11136, 0x111d0, 0x112f0, 0x11450, 0x114d0, 0x11650, 0x116c0, 0x11730, 0x118e0, 0x11950,
    0x11c50, 0x11d50, 0x11da0, 0x11f50, 0x16a60, 0x16ac0, 0x16b50, 0x1d7ce, 0x1d7d8, 0x1d7e2, 0x1d7ec, 0x1d7f6,
    0x1e140, 0x1e2f0, 0x1e4f0, 0x1e950, 0x1fbf0]

/-- The value of a decimal digit (`str.isdecimal`), in any script. -/
def decimalValue? (c : Char) : Option ℕ :=
  (decimalZeros.find? (fun z => z ≤ c.toNat && c.toNat < z + 10)).map (fun z => c.toNat - z)

/-- Ranges of the characters that are digits (`str.isdigit`) but not decimals. -/
def digitRanges : List (ℕ × ℕ) :=
  [(178, 179), (185, 185), (4969, 4977), (6618, 6618), (8304, 8304), (8308, 8313), (8320, 8329),
    (9312, 9320), (9332, 9340), (9352, 9360), (9450, 9450), (9461, 9469), (9471, 9471), (10102, 10110),
    (10112, 10120), (10122, 10130), (68160, 68163), (69216, 69224), (69714, 69722), (127232, 127242)]

/-- `str.isdigit` on one character. -/
def isDigit (c : Char) : Bool :=
  (decimalValue? c).isSome || digitRanges.any (fun r => r.1 ≤ c.toNat && c.toNat ≤ r.2)

/-- `str.isdigit`: non-empty and all digits. -/
def isDigitStr (s : String) : Bool := !s.toList.isEmpty && s.toList.all isDigit

/-- `str.isprintable` on one character, exact below U+0378; the few unassigned or invisible characters
above are taken as printable. -/
def isPrintable (c : Char) : Bool :=
  !(c.toNat ≤ 31 || (127 ≤ c.toNat && c.toNat ≤ 160) || c.toNat == 173)

/-! ## Scanning -/

/-- `c in s` for a substring. -/
def isInfix (sub : List Char) : List Char → Bool
  | [] => sub.isEmpty
  | c :: s => sub.isPrefixOf (c :: s) || isInfix sub s

/-- `sub in s`. -/
def contains (s sub : String) : Bool := isInfix sub.toList s.toList

def startsWith (s p : String) : Bool := p.toList.isPrefixOf s.toList

def endsWith (s p : String) : Bool := p.toList.isSuffixOf s.toList

/-- `s.removeprefix(p)`. -/
def removePrefix (s p : String) : String := if startsWith s p then String.ofList (s.toList.drop p.length) else s

/-- Left-to-right scan for `sep`: `skip` counts the characters of a match still to be passed over. -/
def splitAux (sep : List Char) : ℕ → List Char → List Char → List (List Char)
  | _, acc, [] => [acc.reverse]
  | skip + 1, acc, _ :: s => splitAux sep skip acc s
  | 0, acc, c :: s =>
    if sep.isPrefixOf (c :: s) then acc.reverse :: splitAux sep (sep.length - 1) [] s
    else splitAux sep 0 (c :: acc) s

/-- `s.split(sep)` for a non-empty separator. -/
def split (s sep : String) : List String := (splitAux sep.toList 0 [] s.toList).map String.ofList

/-- `sep.join(parts)`. -/
def join (sep : String) : List String → String
  | [] => ""
  | [s] => s
  | s :: rest => s ++ sep ++ join sep rest

/-- `s.replace(old, new)` for a non-empty `old`. -/
def replace (s old new : String) : String := join new (split s old)

/-- `s.split(sep)[0]`. -/
def beforeFirst (s sep : String) : String := (split s sep).headD ""

/-- `s.rsplit(sep, 1)[0]` for a one-character separator. -/
def beforeLast (s : String) (sep : Char) : String :=
  if sep ∈ s.toList then String.ofList ((s.toList.reverse.dropWhile (· != sep)).drop 1).reverse else s

/-- Strip the characters of a class from both ends. -/
def stripWith (p : Char → Bool) (s : String) : String :=
  String.ofList ((s.toList.dropWhile p).reverse.dropWhile p).reverse

/-- `s.strip()`. -/
def strip (s : String) : String := stripWith isSpace s

/-- `s.strip(chars)`. -/
def stripChars (chars s : String) : String := stripWith (fun c => chars.toList.contains c) s

/-- Lower case of one character (see the header for its exactness). -/
def lowerChar (c : Char) : List Char :=
  if c.toNat = 0x130 then ['i', Char.ofNat 0x307]
  else if c.toNat = 0x212a then ['k']
  else [c.toLower]

/-- `s.lower()`. -/
def lower (s : String) : String := String.ofList (s.toList.flatMap lowerChar)

theorem toNat_toLower (c : Char) :
    c.toLower.toNat = if 65 ≤ c.toNat ∧ c.toNat ≤ 90 then c.toNat + 32 else c.toNat := by
  unfold Char.toLower
  have hiff : (c.val ≥ 'A'.val ∧ c.val ≤ 'Z'.val) ↔ 65 ≤ c.toNat ∧ c.toNat ≤ 90 := Iff.rfl
  split_ifs with h h' h'
  · change (c.val + 32).toNat = c.val.toNat + 32
    have : c.val.toNat ≤ 90 := h'.2
    rw [UInt32.toNat_add]
    change (_ + 32) % _ = _
    omega
  · exact absurd (hiff.mp h) h'
  · exact absurd (hiff.mpr h') h
  · rfl

theorem flatMap_lowerChar (c : Char) : (lowerChar c).flatMap lowerChar = lowerChar c := by
  unfold lowerChar
  split_ifs with hi hk
  · decide
  · decide
  · have hlower := toNat_toLower c
    have htwice := toNat_toLower c.toLower
    rw [List.flatMap_singleton, if_neg, if_neg]
    · rw [List.singleton_inj]
      refine Char.ext (UInt32.toNat_inj.mp ?_)
      change c.toLower.toLower.toNat = c.toLower.toNat
      grind
    · grind
    · grind

theorem lower_lower (s : String) : lower (lower s) = lower s := by
  unfold lower
  rw [String.toList_ofList, List.flatMap_assoc, funext flatMap_lowerChar]

/-- `s[:n]`. -/
def slice (s : String) (n : ℕ) : String := String.ofList (s.toList.take n)

/-! ## `int(text)` -/

/-- Digits with single underscores between them, most significant first. -/
def digitsValue? : Option ℕ → List Char → Option ℕ
  | acc, [] => acc
  | acc, '_' :: c :: s =>
    match acc, decimalValue? c with
    | some a, some d => digitsValue? (some (10 * a + d)) s
    | _, _ => none
  | acc, c :: s =>
    match decimalValue? c with
    | some d => digitsValue? (some (10 * acc.getD 0 + d)) s
    | none => none

/-- `sys.int_info.default_max_str_digits`: `int` refuses longer texts. -/
def maxStrDigits : ℕ := 4300

/-- The digits of a text within the length limit; underscores do not count. -/
def boundedDigits? (ds : List Char) : Option ℕ :=
  if maxStrDigits < (ds.filter (· != '_')).length then none else digitsValue? none ds

/-- `int(s)` on text; `none` is a `ValueError`. -/
def parseInt? (s : String) : Option ℤ :=
  match (strip s).toList with
  | '-' :: ds => (boundedDigits? ds).map (fun n => -(n : ℤ))
  | '+' :: ds => (boundedDigits? ds).map (fun n => (n : ℤ))
  | ds => (boundedDigits? ds).map (fun n => (n : ℤ))

example : split "a.b..c" "." = ["a", "b", "", "c"] ∧ parseInt? " 1_000 " = some 1000 ∧
    parseInt? "²" = none ∧ isDigitStr "²" = true := by decide

end RevenueOS.Py
