import Mathlib.Data.List.Basic

/-!
# RevenueOS.Lib.Regex — regular expressions with backtracking

The syntax of patterns that most engines share: ASCII characters and their escapes, classes without a negation, groups,
`|`, the quantifiers `?`, `*`, `+` and those in braces, and `\b`; other patterns are refused.  A pattern matches from
a position up to the positions `ends` lists, in the order in which a backtracking engine tries them, so that the first
of them is the match.

* `parse`: the reader of patterns; groups are not captured.
* `search`, `sub`, `subWith`: whether a text has a match, and the text with its matches replaced.
* `sub_ne_nil`: a text does not vanish in a replacement.
-/

namespace RevenueOS.Lib

/-- An item of a class. -/
inductive Regex.Item where
  | range (lo hi : Char)
  | word
  | space
deriving DecidableEq

inductive Regex where
  | empty
  | set (items : List Regex.Item)
  | boundary
  | seq (r s : Regex)
  | alt (r s : Regex)
  | star (r : Regex)

namespace Regex

/-- One character. -/
def char (c : Char) : Regex := .set [.range c c]

/-- `n` times. -/
def times (r : Regex) : ℕ → Regex
  | 0 => .empty
  | n + 1 => .seq r (times r n)

/-- At most `n` times, the more the better. -/
def upTo (r : Regex) : ℕ → Regex
  | 0 => .empty
  | n + 1 => .alt (.seq r (upTo r n)) .empty

/-! ## The reader -/

/-- What an escape stands for in a class; letters other than these are refused. -/
def escaped? : Char → Option Item
  | 'w' => some .word
  | 's' => some .space
  | 't' => some (.range '\t' '\t')
  | 'r' => some (.range '\r' '\r')
  | 'n' => some (.range '\n' '\n')
  | c => if c.isAlphanum then none else some (.range c c)

/-- The items of a class up to its bracket. -/
def parseItems : List Char → Option (List Item × List Char)
  | ']' :: cs => some ([], cs)
  | '\\' :: c :: cs => do
    let item ← escaped? c
    let (items, rest) ← parseItems cs
    return (item :: items, rest)
  | c :: '-' :: ']' :: cs => some ([.range c c, .range '-' '-'], cs)
  | c :: '-' :: hi :: cs => do
    let (items, rest) ← parseItems cs
    return (.range c hi :: items, rest)
  | c :: cs => do
    let (items, rest) ← parseItems cs
    return (.range c c :: items, rest)
  | [] => none

/-- A number, if there is one. -/
def parseNat (cs : List Char) : Option ℕ × List Char :=
  let digits := cs.takeWhile Char.isDigit
  (if digits = [] then none else some (digits.foldl (fun n c => 10 * n + (c.toNat - 48)) 0), cs.drop digits.length)

inductive Token where
  | atom (r : Regex)
  | quantifier (q : Regex → Regex)
  | bar
  | opening
  | closing

/-- A quantifier in braces, after its brace. -/
def braces (cs : List Char) : Option (Token × List Char) :=
  match parseNat cs with
  | (some m, '\x7d' :: rest) => some (.quantifier fun r => r.times m, rest)
  | (some m, ',' :: rest) =>
    match parseNat rest with
    | (none, '\x7d' :: rest) => some (.quantifier fun r => .seq (r.times m) (.star r), rest)
    | (some n, '\x7d' :: rest) => some (.quantifier fun r => .seq (r.times m) (r.upTo (n - m)), rest)
    | _ => none
  | _ => none

/-- The token that begins with a character, and what follows it. -/
def token (c : Char) (cs : List Char) : Option (Token × List Char) :=
  match c with
  | '?' => some (.quantifier fun r => .alt r .empty, cs)
  | '*' => some (.quantifier .star, cs)
  | '+' => some (.quantifier fun r => .seq r (.star r), cs)
  | '\x7b' => braces cs
  | '|' => some (.bar, cs)
  | '(' => some (.opening, if cs.take 2 = ['?', ':'] then cs.drop 2 else cs)
  | ')' => some (.closing, cs)
  | '[' =>
    if cs.head? = some '^' ∨ cs.head? = some ']' then none
    else (parseItems cs).map fun p => (.atom (.set p.1), p.2)
  | '\\' =>
    match cs with
    | 'b' :: cs => some (.atom .boundary, cs)
    | c :: cs => (escaped? c).map fun item => (.atom (.set [item]), cs)
    | [] => none
  | c => if c ∈ ['.', '^', '$'] then none else some (.atom (.char c), cs)

/-- The tokens of a pattern; `skip` counts the characters of a token still to be passed over. -/
def tokens : ℕ → List Char → Option (List Token)
  | _, [] => some []
  | skip + 1, _ :: cs => tokens skip cs
  | 0, c :: cs =>
    match token c cs with
    | some (t, rest) => (tokens (cs.length - rest.length) cs).map (t :: ·)
    | none => none

/-- A group that is being read: the alternatives before the last bar and the atoms after it, the last one first. -/
structure Frame where
  before : Option Regex
  atoms : List Regex

namespace Frame

/-- The sequence of the atoms. -/
def sequence (f : Frame) : Regex := f.atoms.foldl (fun r atom => .seq atom r) .empty

/-- What was read. -/
def close (f : Frame) : Regex :=
  match f.before with
  | some r => .alt r f.sequence
  | none => f.sequence

def push (f : Frame) (r : Regex) : Frame := ⟨f.before, r :: f.atoms⟩

end Frame

/-- The reader: the innermost group and the groups around it. -/
def build : List Token → Frame → List Frame → Option Regex
  | [], f, [] => some f.close
  | [], _, _ :: _ => none
  | .atom r :: ts, f, outer => build ts (f.push r) outer
  | .quantifier _ :: .quantifier _ :: _, _, _ => none
  | .quantifier q :: ts, f, outer =>
    match f.atoms with
    | r :: atoms => build ts ⟨f.before, q r :: atoms⟩ outer
    | [] => none
  | .bar :: ts, f, outer => build ts ⟨some f.close, []⟩ outer
  | .opening :: ts, f, outer => build ts ⟨none, []⟩ (f :: outer)
  | .closing :: ts, f, parent :: outer => build ts (parent.push f.close) outer
  | .closing :: _, _, [] => none

/-- The characters of an ASCII text. -/
def asciiChars (text : String) : Option (List Char) :=
  let bytes := text.toByteArray.data.toList
  if bytes.all (· < 128) then some (bytes.map fun b => Char.ofNat b.toNat) else none

/-- A pattern; `none` if it cannot be read. -/
def parse (pattern : String) : Option Regex := do
  let cs ← asciiChars pattern
  let ts ← tokens 0 cs
  build ts ⟨none, []⟩ []

/-! ## Matches -/

/-- A position in a text: the character before it and what follows. -/
structure Cursor where
  before : Option Char
  rest : List Char

/-- What depends on the alphabet: the letters of words, the spaces, and the characters that count as one with a
character. -/
structure Alphabet where
  isWord : Char → Bool
  isSpace : Char → Bool
  same : Char → List Char

variable (a : Alphabet)

def Item.holds (c : Char) : Item → Bool
  | .range lo hi => (a.same c).any fun d => lo ≤ d && d ≤ hi
  | .word => a.isWord c
  | .space => a.isSpace c

/-- Between a letter of a word and something else. -/
def Cursor.atBoundary (p : Cursor) : Bool := p.before.any a.isWord != p.rest.head?.any a.isWord

/-- Steps that go forward, as many as possible first. -/
def iterate (next : Cursor → List Cursor) : ℕ → Cursor → List Cursor
  | 0, p => [p]
  | n + 1, p => ((next p).filter fun q => q.rest.length < p.rest.length).flatMap (iterate next n) ++ [p]

/-- Where a match from a position can stop, the preferred positions first. -/
def ends : Regex → Cursor → List Cursor
  | .empty, p => [p]
  | .set items, p =>
    match p.rest with
    | c :: cs => if items.any (Item.holds a c) then [⟨some c, cs⟩] else []
    | [] => []
  | .boundary, p => if p.atBoundary a then [p] else []
  | .seq r s, p => (ends r p).flatMap (ends s)
  | .alt r s, p => ends r p ++ ends s p
  | .star r, p => iterate (ends r) p.rest.length p

/-- A match from some position on. -/
def searchFrom (r : Regex) : Option Char → List Char → Bool
  | before, [] => !(r.ends a ⟨before, []⟩).isEmpty
  | before, c :: cs => !(r.ends a ⟨before, c :: cs⟩).isEmpty || searchFrom r (some c) cs

/-- Whether a text has a match. -/
def search (r : Regex) (text : List Char) : Bool := r.searchFrom a none text

/-- The replacement from some position on; `skip` counts the characters of a match still to be passed over. -/
def subFrom (r : Regex) (replacement : List Char) : ℕ → Option Char → List Char → List Char
  | _, _, [] => []
  | skip + 1, _, c :: cs => subFrom r replacement skip (some c) cs
  | 0, before, c :: cs =>
    match r.ends a ⟨before, c :: cs⟩ with
    | [] => c :: subFrom r replacement 0 (some c) cs
    | stop :: _ => replacement ++ subFrom r replacement (cs.length - stop.rest.length) (some c) cs

/-- A text with its matches replaced, from the left; for a pattern that does not match the empty text. -/
def sub (r : Regex) (replacement text : List Char) : List Char := r.subFrom a replacement 0 none text

/-- The same where the replacement depends on the match. -/
def subWithFrom (r : Regex) (replace : List Char → List Char) : ℕ → Option Char → List Char → List Char
  | _, _, [] => []
  | skip + 1, _, c :: cs => subWithFrom r replace skip (some c) cs
  | 0, before, c :: cs =>
    match r.ends a ⟨before, c :: cs⟩ with
    | [] => c :: subWithFrom r replace 0 (some c) cs
    | stop :: _ =>
      replace (c :: cs.take (cs.length - stop.rest.length)) ++
        subWithFrom r replace (cs.length - stop.rest.length) (some c) cs

def subWith (r : Regex) (replace : List Char → List Char) (text : List Char) : List Char :=
  r.subWithFrom a replace 0 none text

variable {a}

/-- **A text does not vanish** where its matches are replaced by some text. -/
theorem sub_ne_nil (r : Regex) {replacement text : List Char} (hreplacement : replacement ≠ []) (htext : text ≠ []) :
    r.sub a replacement text ≠ [] := by
  obtain ⟨c, cs, rfl⟩ := List.exists_cons_of_ne_nil htext
  unfold sub subFrom
  split
  · exact List.cons_ne_nil _ _
  · exact List.append_ne_nil_of_left_ne_nil hreplacement _

end Regex

end RevenueOS.Lib
