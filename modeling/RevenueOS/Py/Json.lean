import RevenueOS.Py.Text
import RevenueOS.Lib.Assoc
import Mathlib.Data.Rat.Floor
import Mathlib.Data.String.Basic

/-!
# RevenueOS.Py.Json — JSON documents as the Python values the backend computes with

A document is what `json.loads` builds: `None`, `bool`, unbounded `int`, finite `float` (kept as the
rational it denotes), `str`, `list` and `dict` in insertion order.  The operations are the ones of the
language on these values: truth, `==` (so `True == 1 == 1.0`), the order comparisons and `in` (`none`
where Python raises `TypeError`), `str`, `repr`, `int`, iteration, and membership in a `frozenset` of
strings, which raises on the unhashable `list` and `dict`.
-/

namespace RevenueOS.Py

/-- The built-in exceptions the modelled code can raise. -/
inductive PyError where
  | typeError | attributeError | keyError | valueError | indexError | overflowError | recursionError
deriving DecidableEq, Repr

inductive Json where
  | null
  | bool (b : Bool)
  | int (n : ℤ)
  | float (q : ℚ)
  | str (s : String)
  | arr (xs : List Json)
  | obj (kvs : List (String × Json))
deriving Inhabited

/-- A `dict` with string keys, in insertion order. -/
abbrev Dict := List (String × Json)

namespace Dict

/-- `d.get(k)`. -/
def get (d : Dict) (k : String) : Json := (d.lookup k).getD .null

/-- `d.get(k, dflt)`: the default stands in for a missing key only. -/
def getD (d : Dict) (k : String) (dflt : Json) : Json := (d.lookup k).getD dflt

/-- `k in d`. -/
def has (d : Dict) (k : String) : Bool := (d.lookup k).isSome

/-- `{**d, **e}`. -/
def merge (d e : Dict) : Dict :=
  d.map (fun kv => (kv.1, (e.lookup kv.1).getD kv.2)) ++ e.filter (fun kv => !d.has kv.1)

/-- In `{**d, **e}` the keys of `e` win. -/
theorem lookup_merge (d : Dict) {e : Dict} {key : String} {v : Json} (h : e.lookup key = some v) :
    (merge d e).lookup key = some v := by
  unfold merge
  rw [List.lookup_append, Lib.lookup_map_value (fun k w => (e.lookup k).getD w)]
  cases hd : d.lookup key with
  | some w =>
    rw [Option.map_some, h]
    rfl
  | none =>
    rw [Option.map_none, Lib.lookup_filter_key (fun k => !d.has k), h]
    · rfl
    · rw [has, hd]
      rfl

theorem lookup_merge_of_none (d : Dict) {e : Dict} {key : String} (h : e.lookup key = none) :
    (merge d e).lookup key = d.lookup key := by
  unfold merge
  rw [List.lookup_append, Lib.lookup_map_value (fun k w => (e.lookup k).getD w)]
  cases hd : d.lookup key with
  | some w =>
    rw [Option.map_some, h]
    rfl
  | none =>
    rw [Option.map_none, Lib.lookup_filter_key (fun k => !d.has k), h]
    · rfl
    · rw [has, hd]
      rfl

theorem lookup_of_get {d : Dict} {key : String} {v : Json} (h : d.get key = v) (hv : v ≠ .null) :
    d.lookup key = some v := by
  unfold Dict.get at h
  cases hl : d.lookup key with
  | none =>
    rw [hl, Option.getD_none] at h
    exact absurd h.symm hv
  | some w =>
    rw [hl, Option.getD_some] at h
    rw [h]

theorem getD_of_get {d : Dict} {key : String} {v : Json} (h : d.get key = v) (hv : v ≠ .null) (dflt : Json) :
    d.getD key dflt = v := by
  unfold Dict.getD
  rw [lookup_of_get h hv, Option.getD_some]

end Dict

/-! ## Views of a value -/

namespace Json

/-- `isinstance(x, int)` with its value: `bool` is a subclass of `int`. -/
def int? : Json → Option ℤ
  | .int n => some n
  | .bool b => some (if b then 1 else 0)
  | _ => none

/-- The number a value denotes. -/
def num? : Json → Option ℚ
  | .int n => some n
  | .bool b => some (if b then 1 else 0)
  | .float q => some q
  | _ => none

/-- `isinstance(x, str)`. -/
def str? : Json → Option String
  | .str s => some s
  | _ => none

/-- `isinstance(x, dict)`. -/
def dict? : Json → Option Dict
  | .obj d => some d
  | _ => none

/-- `isinstance(x, list)`. -/
def list? : Json → Option (List Json)
  | .arr xs => some xs
  | _ => none

/-- `bool(x)`. -/
def truthy : Json → Bool
  | .null => false
  | .bool b => b
  | .int n => n != 0
  | .float q => q != 0
  | .str s => s != ""
  | .arr xs => !xs.isEmpty
  | .obj d => !d.isEmpty

/-- `x or y`. -/
def or (x y : Json) : Json := if x.truthy then x else y

/-- The receiver of `x.get(..)`: anything but a `dict` has no such attribute. -/
def asDict : Json → Except PyError Dict
  | .obj d => .ok d
  | _ => .error .attributeError

/-- The items a `for` loop draws from `x`. -/
def iter : Json → Except PyError (List Json)
  | .arr xs => .ok xs
  | .obj d => .ok (d.map (fun kv => .str kv.1))
  | .str s => .ok (s.toList.map (fun c => .str (String.ofList [c])))
  | _ => .error .typeError

/-- `x in frozenset(names)`. -/
def inNames (names : List String) : Json → Except PyError Bool
  | .str s => .ok (names.contains s)
  | .arr _ => .error .typeError
  | .obj _ => .error .typeError
  | _ => .ok false

/-- `int(x)`. -/
def toInt : Json → Except PyError ℤ
  | .int n => .ok n
  | .bool b => .ok (if b then 1 else 0)
  | .float q => .ok (if q < 0 then -⌊-q⌋ else ⌊q⌋)
  | .str s =>
    match parseInt? s with
    | some n => .ok n
    | none => .error .valueError
  | _ => .error .typeError

/-! ## Equality, order, membership -/

mutual

/-- `x == y`. -/
def pyEq : Json → Json → Bool
  | .null, .null => true
  | .str a, .str b => a == b
  | .arr xs, .arr ys => pyEqList xs ys
  | .obj d, .obj e => d.length == e.length && pyEqEntries d e
  | x, y =>
    match x.num?, y.num? with
    | some p, some q => p == q
    | _, _ => false

def pyEqList : List Json → List Json → Bool
  | [], [] => true
  | x :: xs, y :: ys => pyEq x y && pyEqList xs ys
  | _, _ => false

def pyEqEntries : List (String × Json) → Dict → Bool
  | [], _ => true
  | (k, v) :: rest, e =>
    (match e.lookup k with
      | some w => pyEq v w
      | none => false) && pyEqEntries rest e

end

/-- The four order comparisons. -/
inductive Cmp where
  | lt | le | gt | ge

def Cmp.eval {α : Type} [LinearOrder α] : Cmp → α → α → Bool
  | .lt, a, b => a < b
  | .le, a, b => a ≤ b
  | .gt, a, b => b < a
  | .ge, a, b => b ≤ a

mutual

/-- `x < y` and its siblings; `none` is a `TypeError`. -/
def pyCmp (op : Cmp) : Json → Json → Option Bool
  | .str a, .str b => some (op.eval a b)
  | .arr xs, .arr ys => pyCmpList op xs ys
  | x, y =>
    match x.num?, y.num? with
    | some p, some q => some (op.eval p q)
    | _, _ => none

/-- Lists compare at their first differing items, else by length. -/
def pyCmpList (op : Cmp) : List Json → List Json → Option Bool
  | [], ys => some (op.eval 0 ys.length)
  | _ :: xs, [] => some (op.eval (xs.length + 1) 0)
  | x :: xs, y :: ys => if pyEq x y then pyCmpList op xs ys else pyCmp op x y

end

/-- `x in container`; `none` is a `TypeError`. -/
def pyIn (x : Json) : Json → Option Bool
  | .arr ys => some (ys.any (fun y => pyEq x y))
  | .str t => x.str?.map (fun s => contains t s)
  | .obj d =>
    match x with
    | .str s => some (Dict.has d s)
    | .arr _ => none
    | .obj _ => none
    | _ => some false
  | _ => none

end Json

/-! ## `str` and `repr` -/

/-- Nearest binary64 value of a positive rational (ties to even), without the overflow to infinity. -/
def roundDouble (a : ℚ) : ℚ :=
  let lg : ℤ := (Nat.log2 a.num.natAbs : ℤ) - Nat.log2 a.den
  let e : ℤ := if a < (2 : ℚ) ^ lg then lg - 1 else lg
  let k : ℤ := max (-1074) (e - 52)
  let scaled : ℚ := a / (2 : ℚ) ^ k
  let down : ℤ := ⌊scaled⌋
  let frac : ℚ := scaled - down
  let m : ℤ := if frac < 1 / 2 then down else if 1 / 2 < frac then down + 1
    else if down % 2 = 0 then down else down + 1
  m * (2 : ℚ) ^ k

/-- The decimal exponent `e` with `10 ^ e ≤ a < 10 ^ (e + 1)`, searched over the binary64 range. -/
def decimalExponent (a : ℚ) : ℤ :=
  ((List.range 640).map (fun i => (310 : ℤ) - i)).find? (fun e => (10 : ℚ) ^ e ≤ a) |>.getD (-330)

/-- The shortest digits that read back as `a`: the integer of the digits and their number. -/
def shortestDigits (a : ℚ) (e : ℤ) : ℕ × ℕ :=
  let round := fun n : ℕ => (⌊a * (10 : ℚ) ^ ((n : ℤ) - 1 - e) + 1 / 2⌋).toNat
  let good := fun n : ℕ => roundDouble (round n * (10 : ℚ) ^ (e - n + 1)) == a
  let n := ((List.range 17).map (· + 1)).find? good |>.getD 17
  (round n, n)

/-- `repr` of a float. -/
def floatRepr (q : ℚ) : String :=
  if q = 0 then "0.0" else
    let sign := if q < 0 then "-" else ""
    let a := |q|
    let e := decimalExponent a
    let (m, n) := shortestDigits a e
    -- rounding up may carry into a new leading digit
    let (m, e) := if m = 10 ^ n then (m / 10, e + 1) else (m, e)
    let digits := (toString m).toList
    let body : List Char :=
      if e < -4 ∨ 16 ≤ e then
        let tail := digits.drop 1
        let exp := (toString e.natAbs).toList
        let exp := if exp.length < 2 then '0' :: exp else exp
        digits.take 1 ++ (if tail.isEmpty then [] else '.' :: tail) ++
          'e' :: (if e < 0 then '-' else '+') :: exp
      else if e < 0 then '0' :: '.' :: List.replicate (e.natAbs - 1) '0' ++ digits
      else if n ≤ e.toNat + 1 then digits ++ List.replicate (e.toNat + 1 - n) '0' ++ ['.', '0']
      else digits.take (e.toNat + 1) ++ '.' :: digits.drop (e.toNat + 1)
    sign ++ String.ofList body

/-- Hexadecimal digits of `n`, padded to `width`. -/
def hex (width n : ℕ) : List Char :=
  let ds := Nat.toDigits 16 n
  List.replicate (width - ds.length) '0' ++ ds

/-- One character inside `repr` of a string. -/
def reprChar (quote c : Char) : List Char :=
  if c = '\\' ∨ c = quote then ['\\', c]
  else if c = '\n' then ['\\', 'n']
  else if c = '\r' then ['\\', 'r']
  else if c = '\t' then ['\\', 't']
  else if isPrintable c then [c]
  else if c.toNat < 0x100 then '\\' :: 'x' :: hex 2 c.toNat
  else if c.toNat < 0x10000 then '\\' :: 'u' :: hex 4 c.toNat
  else '\\' :: 'U' :: hex 8 c.toNat

/-- `repr` of a string: single quotes unless only double quotes avoid an escape. -/
def reprStr (s : String) : String :=
  let quote := if s.toList.contains '\'' && !s.toList.contains '"' then '"' else '\''
  String.ofList ([quote] ++ s.toList.flatMap (reprChar quote) ++ [quote])

namespace Json

mutual

/-- `repr(x)`. -/
def repr : Json → String
  | .null => "None"
  | .bool b => if b then "True" else "False"
  | .int n => toString n
  | .float q => floatRepr q
  | .str s => reprStr s
  | .arr xs => "[" ++ join ", " (reprList xs) ++ "]"
  | .obj d => "\x7b" ++ join ", " (reprEntries d) ++ "\x7d"

def reprList : List Json → List String
  | [] => []
  | x :: xs => repr x :: reprList xs

def reprEntries : List (String × Json) → List String
  | [] => []
  | (k, v) :: d => (reprStr k ++ ": " ++ repr v) :: reprEntries d

end

/-- `str(x)`. -/
def text : Json → String
  | .str s => s
  | x => repr x

@[simp] theorem text_str (s : String) : (Json.str s).text = s := rfl

end Json

end RevenueOS.Py
