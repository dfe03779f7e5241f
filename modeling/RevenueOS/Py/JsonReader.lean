import Mathlib.Algebra.Order.Field.Rat
import RevenueOS.Lib.Assoc
import RevenueOS.Py.Json

/-!
# RevenueOS.Py.JsonReader — `json.loads` of any text

The reader of the standard library, which takes `NaN` and infinities for numbers, keeps lone surrogates in strings, and
gives up on texts that nest too deep or hold an integer of too many digits.  How deep it may nest is a parameter.

* `loads_ne_outOfFuel`: the fuel covers every text.
-/

namespace RevenueOS.Py

/-- A `float`. -/
inductive Double where
  | finite (q : ℚ)
  | infinite (negative : Bool)
  | nan
deriving DecidableEq

/-- What `json.loads` builds; strings are kept as their code points. -/
inductive Document where
  | null
  | bool (b : Bool)
  | int (n : ℤ)
  | float (x : Double)
  | str (s : List ℕ)
  | arr (xs : List Document)
  | obj (kvs : List (List ℕ × Document))

/-! ## Numbers and equality -/

/-- `x < y`, for which `nan` is nowhere. -/
def Double.lt : Double → Double → Bool
  | .finite p, .finite q => p < q
  | .finite _, .infinite negative => !negative
  | .infinite negative, .finite _ => negative
  | .infinite n, .infinite m => n && !m
  | _, _ => false

/-- `x == y`. -/
def Double.eq : Double → Double → Bool
  | .finite p, .finite q => p == q
  | .infinite n, .infinite m => n == m
  | _, _ => false

/-- Both are there, and equal. -/
def Double.someEq : Option Double → Option Double → Bool
  | some x, some y => x.eq y
  | _, _ => false

/-- `x <= y`. -/
def Double.le (x y : Double) : Bool := x.lt y || x.eq y

/-- Of two numbers that are in some order one is below the other or not. -/
theorem Double.le_iff {x y : Double} (h : y.lt x = false) : x.le y = true ↔ x ≠ .nan ∧ y ≠ .nan := by
  cases x with
  | finite p =>
    cases y with
    | finite q =>
      have hle : p ≤ q := not_lt.mp (of_decide_eq_false h)
      simpa [Double.le, Double.lt, Double.eq] using hle.lt_or_eq
    | infinite m => simpa [Double.le, Double.lt, Double.eq] using h
    | nan => simp [Double.le, Double.lt, Double.eq]
  | infinite n =>
    cases y with
    | finite q => simpa [Double.le, Double.lt, Double.eq] using h
    | infinite m => cases n <;> cases m <;> simp [Double.le, Double.lt, Double.eq] at h ⊢
    | nan => simp [Double.le, Double.lt, Double.eq]
  | nan => simp [Double.le, Double.lt, Double.eq]

theorem Double.lt_of_le {x y : Double} (h : x.le y = true) : y.lt x = false := by
  cases x with
  | finite p =>
    cases y with
    | finite q =>
      have hle : p < q ∨ p = q := by simpa [Double.le, Double.lt, Double.eq] using h
      exact decide_eq_false (not_lt.mpr (le_iff_lt_or_eq.mpr hle))
    | infinite m => simpa [Double.le, Double.lt, Double.eq] using h
    | nan => rfl
  | infinite n =>
    cases y with
    | finite q => simpa [Double.le, Double.lt, Double.eq] using h
    | infinite m => cases n <;> cases m <;> simp [Double.le, Double.lt, Double.eq] at h ⊢
    | nan => rfl
  | nan => cases y <;> rfl

/-- The number of a JSON number. -/
def Document.number? : Document → Option Double
  | .int n => some (.finite n)
  | .float x => some x
  | _ => none

/-- `isinstance(x, (int, float))` with its value: `bool` is a subclass of `int`. -/
def Document.num? : Document → Option Double
  | .bool b => some (.finite (if b then 1 else 0))
  | x => x.number?

mutual

/-- Equality, where `num` tells what counts as a number. -/
def Document.equal (num : Document → Option Double) : Document → Document → Bool
  | .null, .null => true
  | .bool a, .bool b => a == b
  | .str a, .str b => a == b
  | .arr xs, .arr ys => equalList num xs ys
  | .obj d, .obj e => d.length == e.length && equalEntries num d e
  | x, y => Double.someEq (num x) (num y)

def Document.equalList (num : Document → Option Double) : List Document → List Document → Bool
  | [], [] => true
  | x :: xs, y :: ys => Document.equal num x y && Document.equalList num xs ys
  | _, _ => false

def Document.equalEntries (num : Document → Option Double) : List (List ℕ × Document) → List (List ℕ × Document) → Bool
  | [], _ => true
  | (k, v) :: rest, e =>
    (match e.lookup k with
      | some w => Document.equal num v w
      | none => false) && Document.equalEntries num rest e

end

theorem Double.someEq_mono {p q p' q' : Option Double} (hp : ∀ x, p = some x → p' = some x)
    (hq : ∀ x, q = some x → q' = some x) (h : Double.someEq p q = true) : Double.someEq p' q' = true := by
  cases p with
  | none => nomatch h
  | some x =>
    cases q with
    | none => nomatch h
    | some y =>
      rw [hp x rfl, hq y rfl]
      exact h

mutual

/-- The more counts as a number, the more is equal. -/
theorem Document.equal_mono {num num' : Document → Option Double}
    (h : ∀ v x, num v = some x → num' v = some x) :
    ∀ v w, Document.equal num v w = true → Document.equal num' v w = true
  | .arr xs, w, heq => by
    cases w with
    | arr ys =>
      rw [Document.equal] at heq ⊢
      exact Document.equalList_mono h xs ys heq
    | _ => exact Double.someEq_mono (h _) (h _) heq
  | .obj d, w, heq => by
    cases w with
    | obj e =>
      rw [Document.equal, Bool.and_eq_true] at heq ⊢
      exact ⟨heq.1, Document.equalEntries_mono h d e heq.2⟩
    | _ => exact Double.someEq_mono (h _) (h _) heq
  | .null, w, heq => by
    cases w with
    | null => rfl
    | _ => exact Double.someEq_mono (h _) (h _) heq
  | .bool b, w, heq => by
    cases w with
    | bool c => exact heq
    | _ => exact Double.someEq_mono (h _) (h _) heq
  | .str s, w, heq => by
    cases w with
    | str t => exact heq
    | _ => exact Double.someEq_mono (h _) (h _) heq
  | .int n, w, heq => by cases w <;> exact Double.someEq_mono (h _) (h _) heq
  | .float x, w, heq => by cases w <;> exact Double.someEq_mono (h _) (h _) heq

theorem Document.equalList_mono {num num' : Document → Option Double}
    (h : ∀ v x, num v = some x → num' v = some x) :
    ∀ xs ys, Document.equalList num xs ys = true → Document.equalList num' xs ys = true
  | [], [], _ => rfl
  | x :: xs, y :: ys, heq => by
    rw [Document.equalList, Bool.and_eq_true] at heq ⊢
    exact ⟨Document.equal_mono h x y heq.1, Document.equalList_mono h xs ys heq.2⟩

theorem Document.equalEntries_mono {num num' : Document → Option Double}
    (h : ∀ v x, num v = some x → num' v = some x) :
    ∀ d e, Document.equalEntries num d e = true → Document.equalEntries num' d e = true
  | [], _, _ => rfl
  | (k, v) :: rest, e, heq => by
    rw [Document.equalEntries, Bool.and_eq_true] at heq ⊢
    refine ⟨?_, Document.equalEntries_mono h rest e heq.2⟩
    cases hk : e.lookup k with
    | none =>
      rw [hk] at heq
      exact heq.1
    | some w =>
      rw [hk] at heq
      exact Document.equal_mono h v w heq.1

end

/-- `x == y`. -/
def Document.pyEq : Document → Document → Bool := Document.equal Document.num?

/-- The code points of a `str`. -/
def codePoints (s : String) : List ℕ := s.toList.map Char.toNat

/-! ## Reading strings -/

inductive LoadError where
  /-- `JSONDecodeError`. -/
  | decodeError (message : String)
  /-- `ValueError` of an integer with too many digits. -/
  | valueError
  | recursionError
  | outOfFuel
deriving DecidableEq

def hexDigit? (c : Char) : Option ℕ :=
  if '0' ≤ c ∧ c ≤ '9' then some (c.toNat - 48)
  else if 'a' ≤ c ∧ c ≤ 'f' then some (c.toNat - 87)
  else if 'A' ≤ c ∧ c ≤ 'F' then some (c.toNat - 55)
  else none

/-- The code unit of four hexadecimal digits. -/
def hexUnit? (a b c d : Char) : Option ℕ := do
  return 4096 * (← hexDigit? a) + 256 * (← hexDigit? b) + 16 * (← hexDigit? c) + (← hexDigit? d)

/-- What an escape of one character stands for. -/
def shortEscape? : Char → Option ℕ
  | '"' => some 34
  | '\\' => some 92
  | '/' => some 47
  | 'b' => some 8
  | 'f' => some 12
  | 'n' => some 10
  | 'r' => some 13
  | 't' => some 9
  | _ => none

def isHighSurrogate (n : ℕ) : Bool := 0xd800 ≤ n && n ≤ 0xdbff

def isLowSurrogate (n : ℕ) : Bool := 0xdc00 ≤ n && n ≤ 0xdfff

def joinSurrogates (high low : ℕ) : ℕ := 0x10000 + 1024 * (high - 0xd800) + (low - 0xdc00)

def unterminated : LoadError := .decodeError "Unterminated string starting at"

def invalidUnit : LoadError := .decodeError "Invalid \\uXXXX escape"

/-- A code unit of a string, and whether it was written as `\u`. -/
abbrev CodeUnit := Bool × ℕ

/-- One more code unit before what is read. -/
def consUnit (unit : CodeUnit) :
    Except LoadError (List CodeUnit × List Char) → Except LoadError (List CodeUnit × List Char)
  | .ok (units, rest) => .ok (unit :: units, rest)
  | .error e => .error e

/-- The code units of a string, after its opening quote. -/
def readUnits : List Char → Except LoadError (List CodeUnit × List Char)
  | [] => .error unterminated
  | '"' :: cs => .ok ([], cs)
  | ['\\'] => .error unterminated
  | '\\' :: 'u' :: a :: b :: c :: d :: cs =>
    if cs = [] then .error invalidUnit
    else
      match hexUnit? a b c d with
      | none => .error invalidUnit
      | some n => consUnit (true, n) (readUnits cs)
  | '\\' :: 'u' :: _ => .error invalidUnit
  | '\\' :: c :: cs =>
    match shortEscape? c with
    | some n => consUnit (false, n) (readUnits cs)
    | none => .error (.decodeError "Invalid \\escape")
  | c :: cs =>
    if c.toNat < 32 then .error (.decodeError "Invalid control character at")
    else consUnit (false, c.toNat) (readUnits cs)

/-- Two units that are one code point. -/
def joinUnits : List CodeUnit → List ℕ
  | (true, n) :: (true, m) :: units =>
    if isHighSurrogate n && isLowSurrogate m then joinSurrogates n m :: joinUnits units
    else n :: joinUnits ((true, m) :: units)
  | (_, n) :: units => n :: joinUnits units
  | [] => []

/-- `scanstring`, after the opening quote. -/
def readString (cs : List Char) : Except LoadError (List ℕ × List Char) := do
  let (units, rest) ← readUnits cs
  .ok (joinUnits units, rest)

/-! ## Reading numbers -/

/-- The nearest double of a decimal. -/
def toDouble (negative : Bool) (a : ℚ) : Double :=
  let q := roundDouble a
  if (2 : ℚ) ^ 1024 ≤ q then .infinite negative else .finite (if negative then -q else q)

/-- The digits after a point, if there are any. -/
def readFraction : List Char → List Char × List Char
  | '.' :: cs => if cs.takeWhile Char.isDigit = [] then ([], '.' :: cs) else cs.span Char.isDigit
  | cs => ([], cs)

/-- Whether there is a minus, and what follows it. -/
def readMinus : List Char → Bool × List Char
  | '-' :: cs => (true, cs)
  | cs => (false, cs)

/-- The sign of an exponent. -/
def readSign : List Char → Bool × List Char
  | '+' :: cs => (false, cs)
  | cs => readMinus cs

/-- The exponent after an `e`, if it has digits. -/
def readExponent : List Char → Option ℤ × List Char
  | [] => (none, [])
  | c :: cs =>
    if c = 'e' ∨ c = 'E' then
      let (negative, signed) := readSign cs
      let digits := signed.takeWhile Char.isDigit
      if digits = [] then (none, c :: cs)
      else
        let n : ℤ := Nat.ofDigitChars 10 digits 0
        (some (if negative then -n else n), signed.dropWhile Char.isDigit)
    else (none, c :: cs)

/-- The digits before a point: a zero alone, or digits that begin with another. -/
def readWhole : List Char → List Char × List Char
  | '0' :: cs => (['0'], cs)
  | cs => cs.span Char.isDigit

def expectingValue : LoadError := .decodeError "Expecting value"

/-- `_match_number`. -/
def readNumber (cs : List Char) : Except LoadError (Document × List Char) :=
  let (negative, cs) := readMinus cs
  let (whole, cs) := readWhole cs
  if whole = [] then .error expectingValue
  else
    let (fraction, cs) := readFraction cs
    let (exponent, cs) := readExponent cs
    let digits := Nat.ofDigitChars 10 (whole ++ fraction) 0
    if fraction = [] ∧ exponent = none then
      if maxStrDigits < whole.length then .error .valueError
      else .ok (.int (if negative then -(digits : ℤ) else digits), cs)
    else .ok (.float (toDouble negative (digits * (10 : ℚ) ^ (exponent.getD 0 - fraction.length))), cs)

/-! ## Reading values -/

/-- `_w(s, end).end()`. -/
def skipWhitespace (cs : List Char) : List Char := cs.dropWhile fun c => [' ', '\t', '\n', '\r'].contains c

mutual

/-- `scan_once`; `depth` counts the levels that are left. -/
def readValue : ℕ → ℕ → List Char → Except LoadError (Document × List Char)
  | 0, _, _ => .error .outOfFuel
  | fuel + 1, depth, cs =>
    match cs with
    | '"' :: cs => do
      let (s, rest) ← readString cs
      .ok (.str s, rest)
    | '\x7b' :: cs =>
      match depth with
      | 0 => .error .recursionError
      | depth + 1 =>
        match skipWhitespace cs with
        | '\x7d' :: rest => .ok (.obj [], rest)
        | cs => readMembers fuel depth [] cs
    | '[' :: cs =>
      match depth with
      | 0 => .error .recursionError
      | depth + 1 =>
        match skipWhitespace cs with
        | ']' :: rest => .ok (.arr [], rest)
        | cs => readElements fuel depth [] cs
    | 'n' :: 'u' :: 'l' :: 'l' :: rest => .ok (.null, rest)
    | 't' :: 'r' :: 'u' :: 'e' :: rest => .ok (.bool true, rest)
    | 'f' :: 'a' :: 'l' :: 's' :: 'e' :: rest => .ok (.bool false, rest)
    | 'N' :: 'a' :: 'N' :: rest => .ok (.float .nan, rest)
    | 'I' :: 'n' :: 'f' :: 'i' :: 'n' :: 'i' :: 't' :: 'y' :: rest => .ok (.float (.infinite false), rest)
    | '-' :: 'I' :: 'n' :: 'f' :: 'i' :: 'n' :: 'i' :: 't' :: 'y' :: rest => .ok (.float (.infinite true), rest)
    | cs => readNumber cs

/-- The elements of a list up to its bracket. -/
def readElements : ℕ → ℕ → List Document → List Char → Except LoadError (Document × List Char)
  | 0, _, _, _ => .error .outOfFuel
  | fuel + 1, depth, read, cs => do
    let (x, rest) ← readValue fuel depth cs
    match skipWhitespace rest with
    | ']' :: rest => .ok (.arr (read ++ [x]), rest)
    | ',' :: rest => readElements fuel depth (read ++ [x]) (skipWhitespace rest)
    | _ => .error (.decodeError "Expecting ',' delimiter")

/-- The entries of a `dict` up to its brace. -/
def readMembers : ℕ → ℕ → List (List ℕ × Document) → List Char → Except LoadError (Document × List Char)
  | 0, _, _, _ => .error .outOfFuel
  | fuel + 1, depth, read, cs =>
    match cs with
    | '"' :: cs => do
      let (key, rest) ← readString cs
      match skipWhitespace rest with
      | ':' :: rest => do
        let (x, rest) ← readValue fuel depth (skipWhitespace rest)
        match skipWhitespace rest with
        | '\x7d' :: rest => .ok (.obj (Lib.assocSet read key x), rest)
        | ',' :: rest => readMembers fuel depth (Lib.assocSet read key x) (skipWhitespace rest)
        | _ => .error (.decodeError "Expecting ',' delimiter")
      | _ => .error (.decodeError "Expecting ':' delimiter")
    | _ => .error (.decodeError "Expecting property name enclosed in double quotes")

end

/-- `json.loads`, where values nest up to `depth`. -/
def loads (depth : ℕ) (text : String) : Except LoadError Document :=
  if text.toList.head? = some '\ufeff' then
    .error (.decodeError "Unexpected UTF-8 BOM (decode using utf-8-sig)")
  else do
    let cs := skipWhitespace text.toList
    let (x, rest) ← readValue (2 * cs.length + 1) depth cs
    if skipWhitespace rest = [] then .ok x else .error (.decodeError "Extra data")

/-! ## The fuel covers every text -/

/-- A reader that leaves less than `n` characters, or fails for another reason than its fuel. -/
def Reads {α : Type} (r : Except LoadError (α × List Char)) (n : ℕ) : Prop :=
  match r with
  | .ok (_, rest) => rest.length < n
  | .error e => e ≠ .outOfFuel

theorem Reads.bind {α β : Type} {r : Except LoadError (α × List Char)}
    {f : α × List Char → Except LoadError (β × List Char)} {m n : ℕ} (h : Reads r m)
    (hf : ∀ x rest, rest.length < m → Reads (f (x, rest)) n) : Reads (r >>= f) n := by
  cases r with
  | error e => exact h
  | ok p => exact hf p.1 p.2 h

theorem Reads.mono {α : Type} {r : Except LoadError (α × List Char)} {m n : ℕ} (h : Reads r m) (hmn : m ≤ n) :
    Reads r n := by
  cases r with
  | error e => exact h
  | ok p => exact Nat.lt_of_lt_of_le h hmn

theorem length_skipWhitespace_le (cs : List Char) : (skipWhitespace cs).length ≤ cs.length :=
  (List.dropWhile_sublist _).length_le

theorem reads_consUnit {unit : CodeUnit} {r : Except LoadError (List CodeUnit × List Char)} {m n : ℕ}
    (h : Reads r m) (hmn : m ≤ n) : Reads (consUnit unit r) n := by
  cases r with
  | error e => exact h
  | ok p => exact Nat.lt_of_lt_of_le h hmn

theorem reads_readUnits (cs : List Char) : Reads (readUnits cs) (cs.length + 1) := by
  fun_induction readUnits cs with
  | case1 | case3 | case4 | case5 | case7 | case9 | case10 => simp [Reads, unterminated, invalidUnit]
  | case2 cs =>
    show cs.length < cs.length + 1 + 1
    omega
  | case6 a b c d cs _ _ _ ih => exact reads_consUnit ih (by simp)
  | case8 c cs _ _ n _ ih => exact reads_consUnit ih (by simp)
  | case11 c cs _ _ _ _ _ _ ih => exact reads_consUnit ih (by simp)

theorem reads_readString (cs : List Char) : Reads (readString cs) (cs.length + 1) :=
  (reads_readUnits cs).bind fun _ _ h => h

theorem length_dropWhile_lt {p : Char → Bool} {cs : List Char} (h : cs.takeWhile p ≠ []) :
    (cs.dropWhile p).length < cs.length := by
  have hsplit := congrArg List.length (List.takeWhile_append_dropWhile (p := p) (l := cs))
  have hpos := List.length_pos_iff.mpr h
  rw [List.length_append] at hsplit
  omega

theorem length_readWhole_lt {cs : List Char} (h : (readWhole cs).1 ≠ []) : (readWhole cs).2.length < cs.length := by
  revert h
  fun_cases readWhole cs with
  | case1 cs => simp
  | case2 =>
    intro h
    rw [List.span_eq_takeWhile_dropWhile] at h ⊢
    exact length_dropWhile_lt h

theorem length_readFraction_le (cs : List Char) : (readFraction cs).2.length ≤ cs.length := by
  fun_cases readFraction cs with
  | case1 cs h => exact Nat.le_refl _
  | case2 cs h =>
    rw [List.span_eq_takeWhile_dropWhile]
    exact (List.dropWhile_sublist _).length_le.trans (Nat.le_succ _)
  | case3 => exact Nat.le_refl _

theorem length_readMinus_le (cs : List Char) : (readMinus cs).2.length ≤ cs.length := by
  fun_cases readMinus cs with
  | case1 cs => exact Nat.le_succ _
  | case2 => exact Nat.le_refl _

theorem length_readSign_le (cs : List Char) : (readSign cs).2.length ≤ cs.length := by
  fun_cases readSign cs with
  | case1 cs => exact Nat.le_succ _
  | case2 => exact length_readMinus_le cs

theorem length_readExponent_le (cs : List Char) : (readExponent cs).2.length ≤ cs.length := by
  fun_cases readExponent cs with
  | case1 => exact Nat.le_refl _
  | case2 => exact Nat.le_refl _
  | case3 c cs _ negative signed hsign =>
    have hsigned : signed.length ≤ cs.length := by
      have hle := length_readSign_le cs
      rwa [hsign] at hle
    exact (List.dropWhile_sublist _).length_le.trans (hsigned.trans (Nat.le_succ _))
  | case4 => exact Nat.le_refl _

theorem length_number_lt {cs unsigned whole a fraction b c : List Char} {negative : Bool} {exponent : Option ℤ}
    (hminus : readMinus cs = (negative, unsigned)) (hwhole : readWhole unsigned = (whole, a)) (hne : whole ≠ [])
    (hfraction : readFraction a = (fraction, b)) (hexponent : readExponent b = (exponent, c)) :
    c.length < cs.length := by
  have hc := length_readExponent_le b
  have hb := length_readFraction_le a
  have ha : a.length < unsigned.length := by
    have hlt : (readWhole unsigned).1 ≠ [] → (readWhole unsigned).2.length < unsigned.length := length_readWhole_lt
    rw [hwhole] at hlt
    exact hlt hne
  have hunsigned := length_readMinus_le cs
  rw [hexponent] at hc
  rw [hfraction] at hb
  rw [hminus] at hunsigned
  calc c.length ≤ b.length := hc
    _ ≤ a.length := hb
    _ < unsigned.length := ha
    _ ≤ cs.length := hunsigned

theorem reads_readNumber (cs : List Char) : Reads (readNumber cs) cs.length := by
  fun_cases readNumber cs with
  | case1 => exact LoadError.noConfusion
  | case2 => exact LoadError.noConfusion
  | case3 _ _ hminus _ _ hwhole hne _ _ hfraction _ _ hexponent =>
    exact length_number_lt hminus hwhole hne hfraction hexponent
  | case4 _ _ hminus _ _ hwhole hne _ _ hfraction _ _ hexponent =>
    exact length_number_lt hminus hwhole hne hfraction hexponent

/-- A fuel for the elements and the members that begin any text. -/
def Covers (fuel : ℕ) : Prop := ∀ depth cs, 2 * cs.length + 2 ≤ fuel →
  (∀ read, Reads (readElements fuel depth read cs) cs.length) ∧
    ∀ read, Reads (readMembers fuel depth read cs) cs.length

theorem reads_readValue {fuel : ℕ} (hcovers : ∀ smaller, smaller + 1 = fuel → Covers smaller) (depth : ℕ)
    (cs : List Char) (hfuel : 2 * cs.length + 1 ≤ fuel) : Reads (readValue fuel depth cs) cs.length := by
  fun_cases readValue fuel depth cs with
  | case1 => omega
  | case2 => exact (reads_readString _).bind fun s rest h => h
  | case3 | case6 => exact LoadError.noConfusion
  | case4 fuel cs depth rest hrest | case7 fuel cs depth rest hrest =>
    have hskip := length_skipWhitespace_le cs
    rw [hrest, List.length_cons] at hskip
    exact Nat.lt_succ_of_lt hskip
  | case5 fuel cs depth hbrace =>
    have hskip := length_skipWhitespace_le cs
    rw [List.length_cons] at hfuel
    exact ((hcovers fuel rfl depth (skipWhitespace cs) (by omega)).2 []).mono (Nat.le_succ_of_le hskip)
  | case8 fuel cs depth hbracket =>
    have hskip := length_skipWhitespace_le cs
    rw [List.length_cons] at hfuel
    exact ((hcovers fuel rfl depth (skipWhitespace cs) (by omega)).1 []).mono (Nat.le_succ_of_le hskip)
  | case9 | case10 | case11 | case12 | case13 | case14 => simp [Reads]; omega
  | case15 => exact reads_readNumber cs

theorem reads_readElements {fuel : ℕ} (hcovers : Covers fuel)
    (hvalue : ∀ depth cs, 2 * cs.length + 1 ≤ fuel → Reads (readValue fuel depth cs) cs.length) (depth : ℕ)
    (read : List Document) (cs : List Char) (hfuel : 2 * cs.length + 2 ≤ fuel + 1) :
    Reads (readElements (fuel + 1) depth read cs) cs.length := by
  rw [readElements]
  refine (hvalue depth cs (by omega)).bind fun x rest hrest => ?_
  have hskip := length_skipWhitespace_le rest
  dsimp only
  split
  · rename_i rest' hclose
    rw [hclose, List.length_cons] at hskip
    exact show rest'.length < cs.length by omega
  · rename_i rest' hcomma
    rw [hcomma, List.length_cons] at hskip
    have hmore := length_skipWhitespace_le rest'
    exact ((hcovers depth _ (by omega)).1 _).mono (by omega)
  · exact LoadError.noConfusion

theorem reads_readMembers {fuel : ℕ} (hcovers : Covers fuel)
    (hvalue : ∀ depth cs, 2 * cs.length + 1 ≤ fuel → Reads (readValue fuel depth cs) cs.length) (depth : ℕ)
    (read : List (List ℕ × Document)) (cs : List Char) (hfuel : 2 * cs.length + 2 ≤ fuel + 1) :
    Reads (readMembers (fuel + 1) depth read cs) cs.length := by
  cases cs with
  | nil => exact LoadError.noConfusion
  | cons c cs =>
    by_cases hc : c = '"'
    · subst hc
      rw [List.length_cons] at hfuel ⊢
      rw [readMembers]
      refine (reads_readString cs).bind fun key rest hrest => ?_
      have hkey := length_skipWhitespace_le rest
      dsimp only
      split
      · rename_i value hcolon
        rw [hcolon, List.length_cons] at hkey
        have hskip := length_skipWhitespace_le value
        refine (hvalue depth _ (by omega)).bind fun x rest hrest => ?_
        have hend := length_skipWhitespace_le rest
        dsimp only
        split
        · rename_i rest' hclose
          rw [hclose, List.length_cons] at hend
          exact show rest'.length < cs.length + 1 by omega
        · rename_i rest' hcomma
          rw [hcomma, List.length_cons] at hend
          have hmore := length_skipWhitespace_le rest'
          exact ((hcovers depth _ (by omega)).2 _).mono (by omega)
        · exact LoadError.noConfusion
      · exact LoadError.noConfusion
    · rw [readMembers.eq_3]
      · exact LoadError.noConfusion
      · rintro cs' ⟨⟩
        exact hc rfl

/-- Values, elements and members of a text within the fuel: the induction is on the fuel, which each level uses. -/
theorem covers_fuel : ∀ fuel, Covers fuel ∧
    ∀ depth cs, 2 * cs.length + 1 ≤ fuel → Reads (readValue fuel depth cs) cs.length
  | 0 => ⟨fun _ _ h => by omega, fun _ _ h => by omega⟩
  | fuel + 1 => by
    obtain ⟨hcovers, hvalue⟩ := covers_fuel fuel
    constructor
    · intro depth cs hfuel
      exact ⟨fun read => reads_readElements hcovers hvalue depth read cs hfuel,
        fun read => reads_readMembers hcovers hvalue depth read cs hfuel⟩
    · intro depth cs hfuel
      refine reads_readValue (fun smaller h => ?_) depth cs hfuel
      obtain rfl : smaller = fuel := Nat.succ_injective h
      exact hcovers

/-- `json.loads` comes to a value or an exception on every text. -/
theorem loads_ne_outOfFuel (depth : ℕ) (text : String) : loads depth text ≠ .error .outOfFuel := by
  intro hloads
  rw [loads] at hloads
  split at hloads
  · nomatch hloads
  · dsimp only at hloads
    have hread := (covers_fuel _).2 depth (skipWhitespace text.toList) (Nat.le_refl _)
    cases hvalue : readValue (2 * (skipWhitespace text.toList).length + 1) depth (skipWhitespace text.toList) with
    | error e =>
      rw [hvalue] at hread hloads
      exact hread (Except.error.inj hloads)
    | ok p =>
      rw [hvalue] at hloads
      dsimp only [bind, Except.bind] at hloads
      split at hloads
      · nomatch hloads
      · nomatch hloads

end RevenueOS.Py
