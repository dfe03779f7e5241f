import RevenueOS.Py.JsonReader
import Mathlib.Data.List.Infix

/-!
# RevenueOS.Ai.OutputSchema — the structural check of model output

`validate_against_schema` of `domain/ai/guards.py` against the keywords of JSON Schema that it reads.

* `satisfies_iff`, `mistaken_iff`: what the checks of a property overlook, and what they turn away by mistake.
* `verdict_right_iff`: for which schemas and texts the verdict is the one of the keywords.
* `judged_of_plain`: for schemas of texts, Booleans, lists and objects it is, of every value.
-/

namespace RevenueOS.Ai

open Py

/-! ## Schemas -/

/-- The types of JSON Schema. -/
inductive TypeName where
  | string | number | integer | boolean | array | object | null
deriving DecidableEq

def TypeName.text : TypeName → String
  | .string => "string"
  | .number => "number"
  | .integer => "integer"
  | .boolean => "boolean"
  | .array => "array"
  | .object => "object"
  | .null => "null"

/-- The keyword `type`: one name, or a list of which one must fit. -/
inductive TypeKeyword where
  | name (t : TypeName)
  | list (ts : List TypeName)
deriving DecidableEq

/-- The keywords of a property. -/
structure PropertySpec where
  type : Option TypeKeyword := none
  minimum : Option Double := none
  maximum : Option Double := none
  enum : Option (List Document) := none

/-- `response_schema`; without `required` and `properties` they are empty. -/
structure OutputSchema where
  type : Option TypeKeyword := none
  required : List String := []
  properties : List (String × PropertySpec) := []

/-! ## The check -/

/-- An exception that escapes. -/
inductive SchemaRaise where
  | typeError | keyError
  | loads (e : LoadError)
deriving DecidableEq

/-- `key in payload`. -/
def within (key : String) : Document → Except SchemaRaise Bool
  | .obj kvs => .ok (kvs.lookup (codePoints key)).isSome
  | .arr xs => .ok (xs.any fun x => x.pyEq (.str (codePoints key)))
  | .str s => .ok (decide (codePoints key <:+: s))
  | _ => .error .typeError

/-- `payload[key]`. -/
def item (key : String) : Document → Except SchemaRaise Document
  | .obj kvs =>
    match kvs.lookup (codePoints key) with
    | some value => .ok value
    | none => .error .keyError
  | _ => .error .typeError

/-- `isinstance(value, type_map[expected])`; `null` is not in the map. -/
def typeMap? : TypeName → Option (Document → Bool)
  | .string => some fun | .str _ => true | _ => false
  | .number => some fun | .int _ | .bool _ | .float _ => true | _ => false
  | .integer => some fun | .int _ | .bool _ => true | _ => false
  | .boolean => some fun | .bool _ => true | _ => false
  | .array => some fun | .arr _ => true | _ => false
  | .object => some fun | .obj _ => true | _ => false
  | .null => none

/-- The loop over `required`; `none` if no field is missing. -/
def checkRequired (payload : Document) : List String → Except SchemaRaise (Option String)
  | [] => .ok none
  | key :: keys => do
    if ← within key payload then checkRequired payload keys
    else .ok (some ("missing required field '" ++ key ++ "'"))

/-- `value < bound` of a value that is a number. -/
def below (value : Document) (bound : Option Double) : Bool :=
  match bound, value.num? with
  | some m, some x => x.lt m
  | _, _ => false

/-- `value > bound` of a value that is a number. -/
def above (value : Document) (bound : Option Double) : Bool :=
  match bound, value.num? with
  | some m, some x => m.lt x
  | _, _ => false

/-- `value not in spec["enum"]`. -/
def notListed (value : Document) (enum : Option (List Document)) : Bool :=
  match enum with
  | some vs => !vs.any fun w => w.pyEq value
  | none => false

def isBool : Document → Bool
  | .bool _ => true
  | _ => false

def isFloat : Document → Bool
  | .float _ => true
  | _ => false

/-- `expected in type_map and not isinstance(value, type_map[expected])`, and the second check of `integer`. -/
def wrongType (expected : Option TypeName) (value : Document) : Bool :=
  match expected with
  | some t => ((typeMap? t).any fun p => !p value) || (t == .integer && isBool value)
  | none => false

/-- `spec.get("type")`, when it is looked up in `type_map`: a list is unhashable. -/
def expectedType (spec : PropertySpec) : Except SchemaRaise (Option TypeName) :=
  match spec.type with
  | some (.name t) => .ok (some t)
  | some (.list _) => .error .typeError
  | none => .ok none

/-- The checks of one property; `none` if nothing is wrong. -/
def checkValue (key : String) (spec : PropertySpec) (value : Document) : Except SchemaRaise (Option String) := do
  let expected ← expectedType spec
  if wrongType expected value then
    .ok (some ("field '" ++ key ++ "' must be of type " ++ (expected.map TypeName.text).getD ""))
  else if below value spec.minimum then .ok (some ("field '" ++ key ++ "' is below the minimum"))
  else if above value spec.maximum then .ok (some ("field '" ++ key ++ "' is above the maximum"))
  else if notListed value spec.enum then .ok (some ("field '" ++ key ++ "' is not one of the permitted values"))
  else .ok none

/-- The loop over `properties`. -/
def checkProperties (payload : Document) : List (String × PropertySpec) → Except SchemaRaise (Option String)
  | [] => .ok none
  | (key, spec) :: rest => do
    if ← within key payload then
      let value ← item key payload
      match ← checkValue key spec value with
      | some problem => .ok (some problem)
      | none => checkProperties payload rest
    else checkProperties payload rest

def isObject : Document → Bool
  | .obj _ => true
  | _ => false

/-- What the check finds in a payload; `none` if nothing is wrong. -/
def findProblem (schema : OutputSchema) (payload : Document) : Except SchemaRaise (Option String) :=
  if schema.type = some (.name .object) ∧ isObject payload = false then .ok (some "expected a JSON object")
  else do
    match ← checkRequired payload schema.required with
    | some problem => .ok (some problem)
    | none => checkProperties payload schema.properties

/-- `validate_against_schema`, under an interpreter that nests up to `depth`. -/
def validateAgainstSchema (depth : ℕ) (text : String) (schema : OutputSchema) :
    Except SchemaRaise (Bool × Option String) :=
  match loads depth text with
  | .error (.decodeError message) => .ok (false, some ("invalid JSON (" ++ message ++ ")"))
  | .error e => .error (.loads e)
  | .ok payload => do
    let problem ← findProblem schema payload
    .ok (problem.isNone, problem)

/-! ## The keywords -/

/-- The values of a type; a number without a fraction is an integer, `true` is no number. -/
def HasType : TypeName → Document → Prop
  | .string, .str _ => True
  | .number, .int _ => True
  | .number, .float _ => True
  | .integer, .int _ => True
  | .integer, .float (.finite q) => q.den = 1
  | .boolean, .bool _ => True
  | .array, .arr _ => True
  | .object, .obj _ => True
  | .null, .null => True
  | _, _ => False

/-- The values that the keyword `type` admits. -/
def Admits : Option TypeKeyword → Document → Prop
  | none, _ => True
  | some (.name t), v => HasType t v
  | some (.list ts), v => ∃ t ∈ ts, HasType t v

/-- The same JSON value. -/
def Same : Document → Document → Bool := Document.equal Document.number?

/-- The keywords of a property hold of a value. -/
structure Satisfies (spec : PropertySpec) (v : Document) : Prop where
  type : Admits spec.type v
  minimum : ∀ m x, spec.minimum = some m → v.number? = some x → m.le x = true
  maximum : ∀ m x, spec.maximum = some m → v.number? = some x → x.le m = true
  enum : ∀ vs, spec.enum = some vs → ∃ w ∈ vs, Same w v = true

/-- The keywords of a schema hold of a value; `required` and `properties` are about objects. -/
structure Valid (schema : OutputSchema) (v : Document) : Prop where
  type : Admits schema.type v
  required : ∀ kvs, v = .obj kvs → ∀ key ∈ schema.required, (kvs.lookup (codePoints key)).isSome
  properties : ∀ kvs, v = .obj kvs → ∀ p ∈ schema.properties, ∀ w, kvs.lookup (codePoints p.1) = some w →
    Satisfies p.2 w

/-- The check returns, and it accepts exactly a text that parses to what the keywords hold of. -/
def VerdictRight (depth : ℕ) (schema : OutputSchema) (text : String) : Prop :=
  ∃ accepted problem, validateAgainstSchema depth text schema = .ok (accepted, problem) ∧
    (accepted = true ↔ ∃ v, loads depth text = .ok v ∧ Valid schema v)

/-! ## When the verdict is right -/

/-- The checks of a property let a value pass. -/
structure Passes (spec : PropertySpec) (v : Document) : Prop where
  type : ∀ t, spec.type = some (.name t) → wrongType (some t) v = false
  minimum : below v spec.minimum = false
  maximum : above v spec.maximum = false
  enum : notListed v spec.enum = false

def TypeList (spec : PropertySpec) : Prop := ∃ ts, spec.type = some (.list ts)

/-- What the checks of a property overlook: a Boolean for a number, anything for `null`, a number that is in no order to
a bound, and a member that is equal as `True == 1` is. -/
def Overlooked (spec : PropertySpec) (v : Document) : Prop :=
  (spec.type = some (.name .number) ∧ isBool v = true) ∨ (spec.type = some (.name .null) ∧ v ≠ .null) ∨
    (∃ m x, (spec.minimum = some m ∨ spec.maximum = some m) ∧ v.number? = some x ∧ (m = .nan ∨ x = .nan)) ∨
    ∃ vs, spec.enum = some vs ∧ ∀ w ∈ vs, Same w v = false

/-- What the checks of a property turn away for no keyword: a number without a fraction that is a `float`, and a Boolean
outside the bounds of numbers. -/
def Mistaken (spec : PropertySpec) (v : Document) : Prop :=
  Satisfies spec v ∧ ((spec.type = some (.name .integer) ∧ isFloat v = true) ∨
    (isBool v = true ∧ (below v spec.minimum = true ∨ above v spec.maximum = true)))

/-- An object has a property, and its checks do not let the value pass. -/
def Stops (kvs : List (List ℕ × Document)) (p : String × PropertySpec) : Prop :=
  ∃ w, kvs.lookup (codePoints p.1) = some w ∧ (TypeList p.2 ∨ ¬Passes p.2 w)

/-- The property at which the loop stops is no list for a type and turned away by a keyword, or one by mistake in an
object that another keyword does not hold of. -/
def RightStop (schema : OutputSchema) (kvs : List (List ℕ × Document)) (p : String × PropertySpec) : Prop :=
  ¬TypeList p.2 ∧ ((∃ w, kvs.lookup (codePoints p.1) = some w ∧ ¬Mistaken p.2 w) ∨ ¬Admits schema.type (.obj kvs) ∨
    ∃ q ∈ schema.properties, ∃ w, kvs.lookup (codePoints q.1) = some w ∧ ¬Satisfies q.2 w)

/-- The objects that are judged rightly.  One that lacks a required field is.  One that no property stops must be
admitted and nothing in it overlooked.  Any other must be stopped rightly by the first property that does. -/
def ObjectJudged (schema : OutputSchema) (kvs : List (List ℕ × Document)) : Prop :=
  (∃ key ∈ schema.required, kvs.lookup (codePoints key) = none) ∨
    ((∀ p ∈ schema.properties, ¬Stops kvs p) ∧ Admits schema.type (.obj kvs) ∧
      ∀ p ∈ schema.properties, ∀ w, kvs.lookup (codePoints p.1) = some w → ¬Overlooked p.2 w) ∨
    ∃ earlier p later, schema.properties = earlier ++ p :: later ∧ (∀ q ∈ earlier, ¬Stops kvs q) ∧ Stops kvs p ∧
      RightStop schema kvs p

/-- The lists and the texts that are judged rightly, by the names that they contain. -/
def ContainerJudged (schema : OutputSchema) (v : Document) (contains : String → Prop) : Prop :=
  ((∀ key ∈ schema.required, contains key) → Admits schema.type v ∧ ∀ p ∈ schema.properties, ¬contains p.1) ∧
    ((∃ key ∈ schema.required, ¬contains key) → ¬Admits schema.type v)

/-- The values that are judged rightly. -/
def Judged (schema : OutputSchema) : Document → Prop
  | .obj kvs => ObjectJudged schema kvs
  | v => schema.type = some (.name .object) ∨
    match v with
    | .arr xs => ContainerJudged schema (.arr xs) fun key => xs.any (fun x => x.pyEq (.str (codePoints key))) = true
    | .str s => ContainerJudged schema (.str s) fun key => codePoints key <:+: s
    | v => schema.required = [] ∧ schema.properties = [] ∧ Admits schema.type v

/-- The texts on which the verdict is right: those that `json.loads` calls malformed, and those whose value is judged
rightly; an integer of too many digits or a text that nests too deep is neither. -/
def TextJudged (depth : ℕ) (schema : OutputSchema) (text : String) : Prop :=
  match loads depth text with
  | .ok v => Judged schema v
  | .error e => ∃ message, e = .decodeError message

theorem hasType_iff {t : TypeName} {v : Document} (h : wrongType (some t) v = false) :
    HasType t v ↔ ¬(t = .number ∧ isBool v = true) ∧ ¬(t = .null ∧ v ≠ .null) := by
  cases t <;> cases v <;> simp [wrongType, typeMap?, isBool, HasType] at h ⊢

theorem num?_of_number? {v : Document} {x : Double} (h : v.number? = some x) : v.num? = some x := by
  cases v with
  | int n => exact h
  | float x => exact h
  | null => nomatch h
  | bool b => nomatch h
  | str s => nomatch h
  | arr xs => nomatch h
  | obj kvs => nomatch h

/-- A value that is not below a bound is within it if there is an order between them. -/
theorem le_of_below {v : Document} {m x : Double} (h : below v (some m) = false) (hx : v.number? = some x) :
    m.le x = true ↔ m ≠ .nan ∧ x ≠ .nan := by
  unfold below at h
  rw [num?_of_number? hx] at h
  exact Double.le_iff h

theorem le_of_above {v : Document} {m x : Double} (h : above v (some m) = false) (hx : v.number? = some x) :
    x.le m = true ↔ x ≠ .nan ∧ m ≠ .nan := by
  unfold above at h
  rw [num?_of_number? hx] at h
  exact Double.le_iff h

theorem float_of_wrongType {t : TypeName} {v : Document} (hwrong : wrongType (some t) v = true) (h : HasType t v) :
    t = .integer ∧ isFloat v = true := by
  cases t <;> cases v <;> simp [wrongType, typeMap?, isBool, isFloat, HasType] at hwrong h ⊢

theorem exists_of_below {v : Document} {bound : Option Double} (h : below v bound = true) :
    ∃ m x, bound = some m ∧ v.num? = some x ∧ x.lt m = true := by
  unfold below at h
  split at h
  · exact ⟨_, _, rfl, ‹_›, h⟩
  · nomatch h

theorem exists_of_above {v : Document} {bound : Option Double} (h : above v bound = true) :
    ∃ m x, bound = some m ∧ v.num? = some x ∧ m.lt x = true := by
  unfold above at h
  split at h
  · exact ⟨_, _, rfl, ‹_›, h⟩
  · nomatch h

theorem isBool_or_number? {v : Document} {x : Double} (h : v.num? = some x) :
    isBool v = true ∨ v.number? = some x := by
  cases v with
  | bool b => exact .inl rfl
  | _ => exact .inr h

section Values

variable {spec : PropertySpec} {v : Document}

theorem admits_iff (hlist : ¬TypeList spec) (hpass : Passes spec v) : Admits spec.type v ↔
    ¬(spec.type = some (.name .number) ∧ isBool v = true) ∧ ¬(spec.type = some (.name .null) ∧ v ≠ .null) := by
  cases htype : spec.type with
  | none => simp [Admits]
  | some keyword =>
    cases keyword with
    | name t => simpa [Admits] using hasType_iff (hpass.type t htype)
    | list ts => exact absurd ⟨ts, htype⟩ hlist

theorem within_bounds_iff (hpass : Passes spec v) :
    ((∀ m x, spec.minimum = some m → v.number? = some x → m.le x = true) ∧
        ∀ m x, spec.maximum = some m → v.number? = some x → x.le m = true) ↔
      ¬∃ m x, (spec.minimum = some m ∨ spec.maximum = some m) ∧ v.number? = some x ∧ (m = .nan ∨ x = .nan) := by
  constructor
  · rintro ⟨hmin, hmax⟩ ⟨m, x, hbound | hbound, hx, hnan⟩
    · have hm := (le_of_below (hbound ▸ hpass.minimum) hx).mp (hmin m x hbound hx)
      exact hnan.elim hm.1 hm.2
    · have hm := (le_of_above (hbound ▸ hpass.maximum) hx).mp (hmax m x hbound hx)
      exact hnan.elim hm.2 hm.1
  · intro hfree
    constructor
    · intro m x hbound hx
      exact (le_of_below (hbound ▸ hpass.minimum) hx).mpr
        ⟨fun h => hfree ⟨m, x, .inl hbound, hx, .inl h⟩, fun h => hfree ⟨m, x, .inl hbound, hx, .inr h⟩⟩
    · intro m x hbound hx
      exact (le_of_above (hbound ▸ hpass.maximum) hx).mpr
        ⟨fun h => hfree ⟨m, x, .inr hbound, hx, .inr h⟩, fun h => hfree ⟨m, x, .inr hbound, hx, .inl h⟩⟩

/-- Of what passes the checks the keywords hold unless something is overlooked. -/
theorem satisfies_iff (hlist : ¬TypeList spec) (hpass : Passes spec v) : Satisfies spec v ↔ ¬Overlooked spec v := by
  have htype := admits_iff hlist hpass
  have hbounds := within_bounds_iff hpass
  constructor
  · rintro hsat (hnumber | hnull | hnan | ⟨vs, hvs, hnone⟩)
    · exact (htype.mp hsat.type).1 hnumber
    · exact (htype.mp hsat.type).2 hnull
    · exact hbounds.mp ⟨hsat.minimum, hsat.maximum⟩ hnan
    · obtain ⟨w, hw, hsame⟩ := hsat.enum vs hvs
      exact absurd hsame (Bool.eq_false_iff.mp (hnone w hw))
  · intro hfree
    obtain ⟨hmin, hmax⟩ := hbounds.mpr fun h => hfree (.inr (.inr (.inl h)))
    refine ⟨htype.mpr ⟨fun h => hfree (.inl h), fun h => hfree (.inr (.inl h))⟩, hmin, hmax, fun vs hvs => ?_⟩
    by_contra hnone
    exact hfree (.inr (.inr (.inr ⟨vs, hvs, fun w hw => Bool.eq_false_iff.mpr fun h => hnone ⟨w, hw, h⟩⟩)))

/-- Of what does not pass the checks the keywords hold only by a mistake of theirs. -/
theorem mistaken_iff (hpass : ¬Passes spec v) : Mistaken spec v ↔ Satisfies spec v := by
  refine ⟨fun h => h.1, fun hsat => ⟨hsat, ?_⟩⟩
  by_contra hnone
  rw [not_or] at hnone
  refine hpass ⟨fun t ht => ?_, ?_, ?_, ?_⟩
  · have htype := hsat.type
    rw [ht] at htype
    refine Bool.eq_false_iff.mpr fun hwrong => hnone.1 ?_
    obtain ⟨rfl, hfloat⟩ := float_of_wrongType hwrong htype
    exact ⟨ht, hfloat⟩
  · refine Bool.eq_false_iff.mpr fun hbelow => hnone.2 ⟨?_, .inl hbelow⟩
    obtain ⟨m, x, hm, hx, hlt⟩ := exists_of_below hbelow
    rcases isBool_or_number? hx with hbool | hx
    · exact hbool
    · exact absurd hlt (Bool.eq_false_iff.mp (Double.lt_of_le (hsat.minimum m x hm hx)))
  · refine Bool.eq_false_iff.mpr fun habove => hnone.2 ⟨?_, .inr habove⟩
    obtain ⟨m, x, hm, hx, hlt⟩ := exists_of_above habove
    rcases isBool_or_number? hx with hbool | hx
    · exact hbool
    · exact absurd hlt (Bool.eq_false_iff.mp (Double.lt_of_le (hsat.maximum m x hm hx)))
  · unfold notListed
    cases henum : spec.enum with
    | none => rfl
    | some vs =>
      obtain ⟨w, hw, hsame⟩ := hsat.enum vs henum
      have heq : w.pyEq v = true := Document.equal_mono (fun _ _ => num?_of_number?) w v hsame
      simpa using ⟨w, hw, heq⟩

theorem checkValue_of_list {key : String} (h : TypeList spec) : checkValue key spec v = .error .typeError := by
  obtain ⟨ts, hts⟩ := h
  rw [checkValue, expectedType, hts]
  rfl

/-- The checks of a property return, and find nothing exactly in what passes them. -/
theorem checkValue_spec (key : String) (v : Document) (hlist : ¬TypeList spec) :
    ∃ problem, checkValue key spec v = .ok problem ∧ (problem = none ↔ Passes spec v) := by
  have hexpected : ∃ expected, expectedType spec = .ok expected ∧
      (wrongType expected v = false ↔ ∀ t, spec.type = some (.name t) → wrongType (some t) v = false) := by
    cases htype : spec.type with
    | none => exact ⟨none, by rw [expectedType, htype], by simp [wrongType]⟩
    | some keyword =>
      cases keyword with
      | name t => exact ⟨some t, by rw [expectedType, htype], by simp⟩
      | list ts => exact absurd ⟨ts, htype⟩ hlist
  obtain ⟨expected, hexpected, htype⟩ := hexpected
  rw [checkValue, hexpected]
  dsimp only [bind, Except.bind]
  split_ifs with hwrong hbelow habove hlisted
  · refine ⟨_, rfl, iff_of_false (Option.some_ne_none _) fun h => ?_⟩
    exact absurd hwrong (Bool.eq_false_iff.mp (htype.mpr h.type))
  · exact ⟨_, rfl, iff_of_false (Option.some_ne_none _) fun h => absurd hbelow (Bool.eq_false_iff.mp h.minimum)⟩
  · exact ⟨_, rfl, iff_of_false (Option.some_ne_none _) fun h => absurd habove (Bool.eq_false_iff.mp h.maximum)⟩
  · exact ⟨_, rfl, iff_of_false (Option.some_ne_none _) fun h => absurd hlisted (Bool.eq_false_iff.mp h.enum)⟩
  · exact ⟨none, rfl, iff_of_true rfl ⟨htype.mp (Bool.eq_false_iff.mpr hwrong), Bool.eq_false_iff.mpr hbelow,
      Bool.eq_false_iff.mpr habove, Bool.eq_false_iff.mpr hlisted⟩⟩

end Values

/-! ### The loops -/

/-- Where membership is answered the first loop returns, and finds nothing exactly if every name is within. -/
theorem checkRequired_spec {payload : Document} {inside : String → Bool}
    (hwithin : ∀ key, within key payload = .ok (inside key)) : ∀ keys,
    ∃ problem, checkRequired payload keys = .ok problem ∧ (problem = none ↔ ∀ key ∈ keys, inside key = true)
  | [] => ⟨none, rfl, by simp⟩
  | key :: keys => by
    obtain ⟨problem, hrest, hiff⟩ := checkRequired_spec hwithin keys
    rw [checkRequired, hwithin key]
    dsimp only [bind, Except.bind]
    cases hkey : inside key with
    | false => exact ⟨_, rfl, iff_of_false (Option.some_ne_none _) fun h =>
        Bool.false_ne_true (hkey.symm.trans (h key List.mem_cons_self))⟩
    | true => exact ⟨problem, hrest, by simp [hiff, hkey]⟩

section Objects

variable {kvs : List (List ℕ × Document)}

variable (kvs) in
theorem within_obj (key : String) : within key (.obj kvs) = .ok (kvs.lookup (codePoints key)).isSome := rfl

theorem item_obj {key : String} {w : Document} (h : kvs.lookup (codePoints key) = some w) :
    item key (.obj kvs) = .ok w := by
  unfold item
  dsimp only
  rw [h]

/-- The second loop goes past the properties that do not stop it. -/
theorem checkProperties_append {later : List (String × PropertySpec)} : ∀ {earlier : List (String × PropertySpec)},
    (∀ p ∈ earlier, ¬Stops kvs p) →
      checkProperties (.obj kvs) (earlier ++ later) = checkProperties (.obj kvs) later
  | [], _ => rfl
  | (key, spec) :: earlier, h => by
    have ih : checkProperties (.obj kvs) (earlier ++ later) = checkProperties (.obj kvs) later :=
      checkProperties_append fun p hp => h p (List.mem_cons_of_mem _ hp)
    have hfirst := h _ List.mem_cons_self
    rw [List.cons_append, checkProperties, within_obj]
    dsimp only [bind, Except.bind]
    cases hkey : kvs.lookup (codePoints key) with
    | none => exact ih
    | some w =>
      have hlist : ¬TypeList spec := fun hlist => hfirst ⟨w, hkey, .inl hlist⟩
      have hpass : Passes spec w := by_contra fun hpass => hfirst ⟨w, hkey, .inr hpass⟩
      obtain ⟨problem, hvalue, hiff⟩ := checkValue_spec key w hlist
      obtain rfl := hiff.mpr hpass
      rw [item_obj hkey, Option.isSome_some, if_pos rfl]
      dsimp only
      rw [hvalue]
      exact ih

theorem checkProperties_append_cons {properties earlier later : List (String × PropertySpec)}
    {p : String × PropertySpec} (hsplit : properties = earlier ++ p :: later) (h : ∀ q ∈ earlier, ¬Stops kvs q) :
    checkProperties (.obj kvs) properties = checkProperties (.obj kvs) (p :: later) := by
  rw [hsplit]
  exact checkProperties_append h

theorem checkProperties_free {properties : List (String × PropertySpec)} (h : ∀ p ∈ properties, ¬Stops kvs p) :
    checkProperties (.obj kvs) properties = .ok none := by
  have happend : checkProperties (.obj kvs) (properties ++ []) = checkProperties (.obj kvs) [] :=
    checkProperties_append h
  rwa [List.append_nil] at happend

/-- A property that stops the loop raises if its type is a list, and else is the problem that is found. -/
theorem checkProperties_stop {p : String × PropertySpec} (later : List (String × PropertySpec)) (h : Stops kvs p) :
    (TypeList p.2 → checkProperties (.obj kvs) (p :: later) = .error .typeError) ∧
      (¬TypeList p.2 → ∃ problem, checkProperties (.obj kvs) (p :: later) = .ok (some problem)) := by
  obtain ⟨key, spec⟩ := p
  obtain ⟨w, hkey, hstop⟩ := h
  rw [checkProperties, within_obj, hkey, Option.isSome_some]
  dsimp only [bind, Except.bind]
  rw [if_pos rfl, item_obj hkey]
  dsimp only
  constructor
  · intro hlist
    rw [checkValue_of_list hlist]
  · intro hlist
    obtain ⟨problem, hvalue, hiff⟩ := checkValue_spec key w hlist
    rw [hvalue]
    cases problem with
    | none => exact absurd (hiff.mp rfl) (hstop.resolve_left hlist)
    | some problem => exact ⟨problem, rfl⟩

theorem exists_first_stop {properties : List (String × PropertySpec)} (h : ∃ p ∈ properties, Stops kvs p) :
    ∃ earlier p later, properties = earlier ++ p :: later ∧ (∀ q ∈ earlier, ¬Stops kvs q) ∧ Stops kvs p := by
  classical
  obtain ⟨p, hp, hstop⟩ := h
  obtain ⟨q, hq⟩ := Option.isSome_iff_exists.mp
    (List.find?_isSome (p := fun p => decide (Stops kvs p)).mpr ⟨p, hp, decide_eq_true hstop⟩)
  obtain ⟨hq, earlier, later, hsplit, hearlier⟩ := List.find?_eq_some_iff_append.mp hq
  exact ⟨earlier, q, later, hsplit, fun a ha => by simpa using hearlier a ha, of_decide_eq_true hq⟩

end Objects

/-- The check of a payload returns, and finds nothing exactly if the keywords hold. -/
def FindsRight (schema : OutputSchema) (v : Document) : Prop :=
  ∃ problem, findProblem schema v = .ok problem ∧ (problem = none ↔ Valid schema v)

section Right

variable {schema : OutputSchema}

theorem findsRight_of_none {v : Document} (h : findProblem schema v = .ok none) :
    FindsRight schema v ↔ Valid schema v := by
  constructor
  · rintro ⟨problem, hfind, hiff⟩
    rw [h] at hfind
    exact hiff.mp (Except.ok.inj hfind).symm
  · exact fun hvalid => ⟨none, h, iff_of_true rfl hvalid⟩

theorem findsRight_of_some {v : Document} {problem : String} (h : findProblem schema v = .ok (some problem)) :
    FindsRight schema v ↔ ¬Valid schema v := by
  constructor
  · rintro ⟨problem', hfind, hiff⟩ hvalid
    rw [h, hiff.mpr hvalid] at hfind
    nomatch hfind
  · exact fun hvalid => ⟨some problem, h, iff_of_false (Option.some_ne_none _) hvalid⟩

theorem not_findsRight_of_error {v : Document} {e : SchemaRaise} (h : findProblem schema v = .error e) :
    ¬FindsRight schema v := by
  rintro ⟨problem, hfind, -⟩
  rw [h] at hfind
  nomatch hfind

/-- Where a required name is missing the check finds that, else it goes on to the properties. -/
theorem findProblem_spec {v : Document} {inside : String → Bool} (hwithin : ∀ key, within key v = .ok (inside key))
    (htype : schema.type = some (.name .object) → isObject v = true) :
    ((∃ key ∈ schema.required, inside key = false) → ∃ problem, findProblem schema v = .ok (some problem)) ∧
      ((∀ key ∈ schema.required, inside key = true) → findProblem schema v = checkProperties v schema.properties) := by
  obtain ⟨problem, hrequired, hiff⟩ := checkRequired_spec hwithin schema.required
  have hfirst : ¬(schema.type = some (.name .object) ∧ isObject v = false) := fun h =>
    Bool.false_ne_true (h.2.symm.trans (htype h.1))
  unfold findProblem
  rw [if_neg hfirst, hrequired]
  constructor
  · rintro ⟨key, hkey, hout⟩
    cases problem with
    | none => exact absurd (hiff.mp rfl key hkey) (Bool.eq_false_iff.mp hout)
    | some problem => exact ⟨problem, rfl⟩
  · intro hall
    obtain rfl := hiff.mpr hall
    rfl

theorem valid_obj_iff {kvs : List (List ℕ × Document)} : Valid schema (.obj kvs) ↔
    (∀ key ∈ schema.required, (kvs.lookup (codePoints key)).isSome = true) ∧ Admits schema.type (.obj kvs) ∧
      ∀ p ∈ schema.properties, ∀ w, kvs.lookup (codePoints p.1) = some w → Satisfies p.2 w := by
  constructor
  · exact fun h => ⟨h.required kvs rfl, h.type, h.properties kvs rfl⟩
  · rintro ⟨hrequired, htype, hproperties⟩
    refine ⟨htype, ?_, ?_⟩
    · rintro _ ⟨⟩
      exact hrequired
    · rintro _ ⟨⟩
      exact hproperties

/-- Of an object with all that is required, the verdict on the properties. -/
theorem properties_right_iff {kvs : List (List ℕ × Document)}
    (hall : ∀ key ∈ schema.required, (kvs.lookup (codePoints key)).isSome = true)
    (hfind : findProblem schema (.obj kvs) = checkProperties (.obj kvs) schema.properties) :
    FindsRight schema (.obj kvs) ↔ ObjectJudged schema kvs := by
  have hpresent : ¬∃ key ∈ schema.required, kvs.lookup (codePoints key) = none := by
    rintro ⟨key, hkey, hnone⟩
    have hsome := hall key hkey
    rw [hnone] at hsome
    nomatch hsome
  by_cases hstop : ∃ p ∈ schema.properties, Stops kvs p
  · constructor
    · intro hright
      obtain ⟨earlier, p, later, hsplit, hearlier, hp⟩ := exists_first_stop hstop
      have hrun := checkProperties_append_cons hsplit hearlier
      rw [← hfind] at hrun
      have hlist : ¬TypeList p.2 := fun hlist =>
        not_findsRight_of_error (hrun.trans ((checkProperties_stop later hp).1 hlist)) hright
      obtain ⟨problem, hproblem⟩ := (checkProperties_stop later hp).2 hlist
      have hvalid := (findsRight_of_some (hrun.trans hproblem)).mp hright
      refine .inr (.inr ⟨earlier, p, later, hsplit, hearlier, hp, hlist, .inr ?_⟩)
      by_contra hnone
      rw [not_or, not_not] at hnone
      exact hvalid (valid_obj_iff.mpr ⟨hall, hnone.1, fun p hp w hw => by_contra fun h => hnone.2 ⟨p, hp, w, hw, h⟩⟩)
    · rintro (hmissing | ⟨hfree, -⟩ | ⟨earlier, p, later, hsplit, hearlier, hp, hlist, hbroken⟩)
      · exact absurd hmissing hpresent
      · obtain ⟨p, hp, hstop⟩ := hstop
        exact absurd hstop (hfree p hp)
      · have hrun := checkProperties_append_cons hsplit hearlier
        rw [← hfind] at hrun
        obtain ⟨problem, hproblem⟩ := (checkProperties_stop later hp).2 hlist
        refine (findsRight_of_some (hrun.trans hproblem)).mpr fun hvalid => ?_
        obtain ⟨-, hadmits, hsat⟩ := valid_obj_iff.mp hvalid
        rcases hbroken with ⟨w, hw, hmistaken⟩ | hbroken | ⟨q, hq, w, hw, hbroken⟩
        · obtain ⟨w', hw', hpass⟩ := hp
          obtain rfl := Option.some.inj (hw.symm.trans hw')
          have hmem : p ∈ schema.properties := by
            rw [hsplit]
            exact List.mem_append_right _ List.mem_cons_self
          exact hmistaken ((mistaken_iff (hpass.resolve_left hlist)).mpr (hsat p hmem w hw))
        · exact hbroken hadmits
        · exact hbroken (hsat q hq w hw)
  · have hfree : ∀ p ∈ schema.properties, ¬Stops kvs p := fun p hp h => hstop ⟨p, hp, h⟩
    have hsat : ∀ p ∈ schema.properties, ∀ w, kvs.lookup (codePoints p.1) = some w →
        (Satisfies p.2 w ↔ ¬Overlooked p.2 w) := fun p hp w hw =>
      satisfies_iff (fun hlist => hfree p hp ⟨w, hw, .inl hlist⟩)
        (by_contra fun hpass => hfree p hp ⟨w, hw, .inr hpass⟩)
    rw [findsRight_of_none (hfind.trans (checkProperties_free hfree)), valid_obj_iff]
    constructor
    · rintro ⟨-, hadmits, hproperties⟩
      exact .inr (.inl ⟨hfree, hadmits, fun p hp w hw => (hsat p hp w hw).mp (hproperties p hp w hw)⟩)
    · rintro (hmissing | ⟨-, hadmits, hnone⟩ | ⟨earlier, p, later, hsplit, -, hp, -⟩)
      · exact absurd hmissing hpresent
      · exact ⟨hall, hadmits, fun p hp w hw => (hsat p hp w hw).mpr (hnone p hp w hw)⟩
      · exact absurd ⟨p, by rw [hsplit]; exact List.mem_append_right _ List.mem_cons_self, hp⟩ hstop

theorem object_right_iff {kvs : List (List ℕ × Document)} :
    FindsRight schema (.obj kvs) ↔ ObjectJudged schema kvs := by
  obtain ⟨hmissing, hpresent⟩ := @findProblem_spec schema _ _ (within_obj kvs) fun _ => rfl
  by_cases hnone : ∃ key ∈ schema.required, kvs.lookup (codePoints key) = none
  · obtain ⟨key, hkey, hlookup⟩ := hnone
    obtain ⟨problem, hproblem⟩ := hmissing ⟨key, hkey, by rw [hlookup]; rfl⟩
    refine iff_of_true ((findsRight_of_some hproblem).mpr fun hvalid => ?_) (.inl ⟨key, hkey, hlookup⟩)
    have hsome := (valid_obj_iff.mp hvalid).1 key hkey
    rw [hlookup] at hsome
    nomatch hsome
  · have hall : ∀ key ∈ schema.required, (kvs.lookup (codePoints key)).isSome = true := fun key hkey =>
      Option.isSome_iff_ne_none.mpr fun h => hnone ⟨key, hkey, h⟩
    exact properties_right_iff hall (hpresent hall)

theorem valid_of_not_object {v : Document} (hv : isObject v = false) : Valid schema v ↔ Admits schema.type v := by
  have hne : ∀ kvs, v ≠ .obj kvs := by
    rintro kvs rfl
    nomatch hv
  exact ⟨fun h => h.type, fun h => ⟨h, fun kvs hkvs => absurd hkvs (hne kvs), fun kvs hkvs => absurd hkvs (hne kvs)⟩⟩

/-- What is no object is rejected at once where the schema asks for one. -/
theorem right_of_object_type {v : Document} (hv : isObject v = false) (htype : schema.type = some (.name .object)) :
    FindsRight schema v := by
  have hfind : findProblem schema v = .ok (some "expected a JSON object") := by
    unfold findProblem
    rw [if_pos ⟨htype, hv⟩]
  refine (findsRight_of_some hfind).mpr fun hvalid => ?_
  have hadmits := (valid_of_not_object hv).mp hvalid
  rw [htype] at hadmits
  cases v with
  | obj kvs => nomatch hv
  | null => exact hadmits
  | bool b => exact hadmits
  | int n => exact hadmits
  | float x => exact hadmits
  | str s => exact hadmits
  | arr xs => exact hadmits

/-- In a list or a text a name can be, but nothing can be looked up by it. -/
theorem checkProperties_container {v : Document} {inside : String → Bool}
    (hwithin : ∀ key, within key v = .ok (inside key)) (hitem : ∀ key, item key v = .error .typeError) :
    ∀ properties : List (String × PropertySpec),
      ((∀ p ∈ properties, inside p.1 = false) → checkProperties v properties = .ok none) ∧
        ((∃ p ∈ properties, inside p.1 = true) → checkProperties v properties = .error .typeError)
  | [] => ⟨fun _ => rfl, fun ⟨_, hp, _⟩ => nomatch hp⟩
  | (key, spec) :: rest => by
    obtain ⟨hout, hin⟩ := checkProperties_container hwithin hitem rest
    rw [checkProperties, hwithin key, hitem key]
    dsimp only [bind, Except.bind]
    cases hkey : inside key with
    | true =>
      refine ⟨fun h => ?_, fun _ => rfl⟩
      exact absurd (h _ List.mem_cons_self) (by rw [hkey]; exact Bool.noConfusion)
    | false =>
      refine ⟨fun h => hout fun p hp => h p (List.mem_cons_of_mem _ hp), ?_⟩
      rintro ⟨p, hp, hinside⟩
      rcases List.mem_cons.mp hp with rfl | hp
      · exact absurd hinside (by rw [hkey]; exact Bool.noConfusion)
      · exact hin ⟨p, hp, hinside⟩

theorem container_right_iff {v : Document} {inside : String → Bool} {contains : String → Prop}
    (hv : isObject v = false) (hwithin : ∀ key, within key v = .ok (inside key))
    (hitem : ∀ key, item key v = .error .typeError) (hcontains : ∀ key, inside key = true ↔ contains key)
    (htype : schema.type ≠ some (.name .object)) : FindsRight schema v ↔ ContainerJudged schema v contains := by
  obtain ⟨hmissing, hpresent⟩ := @findProblem_spec schema _ _ hwithin fun h => absurd h htype
  obtain ⟨hfree, hraise⟩ := checkProperties_container hwithin hitem schema.properties
  have hout : ∀ key, inside key = false ↔ ¬contains key := fun key => by
    rw [← hcontains, Bool.not_eq_true]
  by_cases hall : ∀ key ∈ schema.required, contains key
  · have hfind := hpresent fun key hkey => (hcontains key).mpr (hall key hkey)
    have hnone : ¬∃ key ∈ schema.required, ¬contains key := fun ⟨key, hkey, h⟩ => h (hall key hkey)
    by_cases hkeys : ∀ p ∈ schema.properties, ¬contains p.1
    · rw [findsRight_of_none (hfind.trans (hfree fun p hp => (hout p.1).mpr (hkeys p hp))), valid_of_not_object hv]
      exact ⟨fun h => ⟨fun _ => ⟨h, hkeys⟩, fun h => absurd h hnone⟩, fun h => (h.1 hall).1⟩
    · have hinside : ∃ p ∈ schema.properties, inside p.1 = true := by
        by_contra hno
        exact hkeys fun p hp h => hno ⟨p, hp, (hcontains p.1).mpr h⟩
      exact iff_of_false (not_findsRight_of_error (hfind.trans (hraise hinside))) fun h => hkeys (h.1 hall).2
  · have hsome : ∃ key ∈ schema.required, ¬contains key := by
      by_contra hno
      exact hall fun key hkey => by_contra fun h => hno ⟨key, hkey, h⟩
    obtain ⟨key, hkey, hkeyout⟩ := hsome
    obtain ⟨problem, hproblem⟩ := hmissing ⟨key, hkey, (hout key).mpr hkeyout⟩
    rw [findsRight_of_some hproblem, valid_of_not_object hv]
    exact ⟨fun h => ⟨fun h => absurd h hall, fun _ => h⟩, fun h => h.2 ⟨key, hkey, hkeyout⟩⟩

/-- Of a number, a Boolean or `null` no membership can be asked. -/
theorem plain_right_iff {v : Document} (hv : isObject v = false) (hwithin : ∀ key, within key v = .error .typeError)
    (htype : schema.type ≠ some (.name .object)) :
    FindsRight schema v ↔ schema.required = [] ∧ schema.properties = [] ∧ Admits schema.type v := by
  have hfind : findProblem schema v = (do
      match ← checkRequired v schema.required with
      | some problem => .ok (some problem)
      | none => checkProperties v schema.properties) := by
    unfold findProblem
    rw [if_neg fun h => htype h.1]
  cases hrequired : schema.required with
  | cons key keys =>
    rw [hrequired, checkRequired, hwithin key] at hfind
    exact iff_of_false (not_findsRight_of_error hfind) fun h => nomatch h.1
  | nil =>
    rw [hrequired, checkRequired] at hfind
    dsimp only [bind, Except.bind] at hfind
    cases hproperties : schema.properties with
    | cons p rest =>
      rw [hproperties, checkProperties, hwithin p.1] at hfind
      exact iff_of_false (not_findsRight_of_error hfind) fun h => nomatch h.2.1
    | nil =>
      rw [hproperties, checkProperties] at hfind
      rw [findsRight_of_none hfind, valid_of_not_object hv]
      exact ⟨fun h => ⟨rfl, rfl, h⟩, fun h => h.2.2⟩

theorem findsRight_iff (v : Document) : FindsRight schema v ↔ Judged schema v := by
  by_cases htype : schema.type = some (.name .object)
  · cases v with
    | obj kvs => exact object_right_iff
    | null => exact iff_of_true (right_of_object_type rfl htype) (.inl htype)
    | bool b => exact iff_of_true (right_of_object_type rfl htype) (.inl htype)
    | int n => exact iff_of_true (right_of_object_type rfl htype) (.inl htype)
    | float x => exact iff_of_true (right_of_object_type rfl htype) (.inl htype)
    | str s => exact iff_of_true (right_of_object_type rfl htype) (.inl htype)
    | arr xs => exact iff_of_true (right_of_object_type rfl htype) (.inl htype)
  · cases v with
    | obj kvs => exact object_right_iff
    | null => exact (plain_right_iff rfl (fun _ => rfl) htype).trans (or_iff_right htype).symm
    | bool b => exact (plain_right_iff rfl (fun _ => rfl) htype).trans (or_iff_right htype).symm
    | int n => exact (plain_right_iff rfl (fun _ => rfl) htype).trans (or_iff_right htype).symm
    | float x => exact (plain_right_iff rfl (fun _ => rfl) htype).trans (or_iff_right htype).symm
    | str s =>
      exact (container_right_iff rfl (fun _ => rfl) (fun _ => rfl) (fun _ => decide_eq_true_iff) htype).trans
        (or_iff_right htype).symm
    | arr xs =>
      exact (container_right_iff rfl (fun _ => rfl) (fun _ => rfl) (fun _ => Iff.rfl) htype).trans
        (or_iff_right htype).symm

/-- A schema of an object whose properties are texts, Booleans, lists and objects, without bounds, and whose permitted
values are texts. -/
def Plain (schema : OutputSchema) : Prop :=
  schema.type = some (.name .object) ∧ ∀ p ∈ schema.properties,
    (∃ t ∈ [TypeName.string, .boolean, .array, .object], p.2.type = some (.name t)) ∧
      p.2.minimum = none ∧ p.2.maximum = none ∧ ∀ vs, p.2.enum = some vs → ∀ w ∈ vs, ∃ s, w = .str s

theorem same_of_str {s : List ℕ} {v : Document} (h : (Document.str s).pyEq v = true) : Same (.str s) v = true := by
  cases v with
  | str t => exact h
  | _ => nomatch h

/-- Of such a schema nothing is overlooked and nothing turned away by mistake: every value is judged rightly. -/
theorem judged_of_plain (hplain : Plain schema) (v : Document) : Judged schema v := by
  obtain ⟨htype, hproperties⟩ := hplain
  cases v with
  | obj kvs =>
    have hlist : ∀ p ∈ schema.properties, ¬TypeList p.2 := by
      rintro p hp ⟨ts, hts⟩
      obtain ⟨⟨t, -, ht⟩, -⟩ := hproperties p hp
      rw [ht] at hts
      nomatch hts
    by_cases hstop : ∃ p ∈ schema.properties, Stops kvs p
    · obtain ⟨earlier, p, later, hsplit, hearlier, hp⟩ := exists_first_stop hstop
      have hmem : p ∈ schema.properties := by
        rw [hsplit]
        exact List.mem_append_right _ List.mem_cons_self
      obtain ⟨⟨t, ht, hpt⟩, hmin, hmax, -⟩ := hproperties p hmem
      have ⟨w, hw, _⟩ := hp
      refine .inr (.inr ⟨earlier, p, later, hsplit, hearlier, hp, hlist p hmem, .inl ⟨w, hw, ?_⟩⟩)
      rintro ⟨-, ⟨hinteger, -⟩ | ⟨-, hbounds⟩⟩
      · rw [hpt] at hinteger
        cases hinteger
        simp at ht
      · rw [hmin, hmax] at hbounds
        exact hbounds.elim Bool.false_ne_true Bool.false_ne_true
    · refine .inr (.inl ⟨fun p hp h => hstop ⟨p, hp, h⟩, by rw [htype]; trivial, fun p hp w hw => ?_⟩)
      obtain ⟨⟨t, ht, hpt⟩, hmin, hmax, henum⟩ := hproperties p hp
      have hpass : Passes p.2 w := by_contra fun h => hstop ⟨p, hp, w, hw, .inr h⟩
      rintro (⟨hnumber, -⟩ | ⟨hnull, -⟩ | ⟨m, x, hbound, -⟩ | ⟨vs, hvs, hnone⟩)
      · rw [hpt] at hnumber
        cases hnumber
        simp at ht
      · rw [hpt] at hnull
        cases hnull
        simp at ht
      · rw [hmin, hmax] at hbound
        exact hbound.elim (fun h => nomatch h) fun h => nomatch h
      · have hlisted := hpass.enum
        rw [hvs, notListed] at hlisted
        obtain ⟨u, hu, heq⟩ := List.any_eq_true.mp ((Bool.not_eq_false' ..).mp hlisted)
        obtain ⟨s, rfl⟩ := henum vs hvs u hu
        exact absurd (same_of_str heq) (Bool.eq_false_iff.mp (hnone _ hu))
  | _ => exact .inl htype

end Right

/-- The verdict on a text that parses is right if what is found in its value is. -/
theorem verdictRight_of_ok {depth : ℕ} {schema : OutputSchema} {text : String} {v : Document}
    (h : loads depth text = .ok v) : VerdictRight depth schema text ↔ FindsRight schema v := by
  have hvalid : (∃ w, loads depth text = .ok w ∧ Valid schema w) ↔ Valid schema v := by
    rw [h]
    constructor
    · rintro ⟨w, hw, hvalid⟩
      rwa [Except.ok.inj hw]
    · exact fun hvalid => ⟨v, rfl, hvalid⟩
  unfold VerdictRight validateAgainstSchema FindsRight
  rw [hvalid, h]
  dsimp only [bind, Except.bind]
  cases hfind : findProblem schema v with
  | error e => exact iff_of_false (fun ⟨_, _, h, _⟩ => nomatch h) fun ⟨_, h, _⟩ => nomatch h
  | ok problem =>
    constructor
    · rintro ⟨accepted, problem', heq, hiff⟩
      obtain ⟨rfl, rfl⟩ := Prod.mk.inj (Except.ok.inj heq)
      exact ⟨problem, rfl, by rwa [Option.isNone_iff_eq_none] at hiff⟩
    · rintro ⟨problem', heq, hiff⟩
      obtain rfl := Except.ok.inj heq
      exact ⟨problem.isNone, problem, rfl, by rwa [Option.isNone_iff_eq_none]⟩

/-- A text that does not parse is rejected where the exception is caught, and only there. -/
theorem verdictRight_of_error {depth : ℕ} {schema : OutputSchema} {text : String} {e : LoadError}
    (h : loads depth text = .error e) : VerdictRight depth schema text ↔ ∃ message, e = .decodeError message := by
  have hnone : ¬∃ w, loads depth text = .ok w ∧ Valid schema w := by
    rintro ⟨w, hw, -⟩
    rw [h] at hw
    nomatch hw
  unfold VerdictRight validateAgainstSchema
  rw [h] at hnone ⊢
  cases e with
  | decodeError message => exact iff_of_true ⟨false, _, rfl, iff_of_false Bool.false_ne_true hnone⟩ ⟨message, rfl⟩
  | valueError => exact iff_of_false (fun ⟨_, _, h, _⟩ => nomatch h) fun ⟨_, h⟩ => nomatch h
  | recursionError => exact iff_of_false (fun ⟨_, _, h, _⟩ => nomatch h) fun ⟨_, h⟩ => nomatch h
  | outOfFuel => exact absurd h (loads_ne_outOfFuel depth text)

/-- The verdict is right on exactly the texts that are judged rightly. -/
theorem verdict_right_iff (depth : ℕ) (schema : OutputSchema) (text : String) :
    VerdictRight depth schema text ↔ TextJudged depth schema text := by
  unfold TextJudged
  cases h : loads depth text with
  | ok v => exact (verdictRight_of_ok h).trans (findsRight_iff v)
  | error e => exact verdictRight_of_error h

/-- A schema for a score. -/
def scoreSchema : OutputSchema where
  type := some (.name .object)
  required := ["score"]
  properties := [("score", { type := some (.name .number) })]

theorem loads_trueScore : loads 1000 "\x7b\"score\": true\x7d" = .ok (.obj [(codePoints "score", .bool true)]) := by
  let rest := ['s', 'c', 'o', 'r', 'e', '"', ':', ' ', 't', 'r', 'u', 'e', '\x7d']
  have htext : ("\x7b\"score\": true\x7d" : String).toList = '\x7b' :: '"' :: rest := by decide
  have hkey : codePoints "score" = [115, 99, 111, 114, 101] := by decide
  have hstring : readString rest = .ok (codePoints "score", [':', ' ', 't', 'r', 'u', 'e', '\x7d']) := by
    decide +kernel
  have hvalue : readValue 31 1000 ('\x7b' :: '"' :: rest) = .ok (.obj [(codePoints "score", .bool true)], []) := by
    show readMembers 30 999 [] ('"' :: rest) = _
    rw [readMembers, hstring, hkey]
    rfl
  rw [loads, htext, if_neg (by decide)]
  show (readValue 31 1000 ('\x7b' :: '"' :: rest) >>= _) = _
  rw [hvalue]
  rfl

/-- The check takes `true` for a number. -/
theorem trueScore_accepted : validateAgainstSchema 1000 "\x7b\"score\": true\x7d" scoreSchema = .ok (true, none) ∧
    ¬VerdictRight 1000 scoreSchema "\x7b\"score\": true\x7d" := by
  have hfind : findProblem scoreSchema (.obj [(codePoints "score", .bool true)]) = .ok none := by decide +kernel
  constructor
  · unfold validateAgainstSchema
    rw [loads_trueScore]
    dsimp only
    rw [hfind]
    rfl
  · rw [verdictRight_of_ok loads_trueScore, findsRight_of_none hfind]
    intro hvalid
    exact (hvalid.properties _ rfl _ List.mem_cons_self (.bool true) List.lookup_cons_self).type

end RevenueOS.Ai
