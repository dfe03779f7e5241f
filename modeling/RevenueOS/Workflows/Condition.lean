import RevenueOS.Workflows.Catalog

/-!
# RevenueOS.Workflows.Condition — conditions over an execution's scope

`resolve_path` and `evaluate_condition` of `application/workflows/executor.py`.  A comparison that Python
answers with `TypeError` is caught and is `False`; everything outside that `try` (a child that is not an
object, an empty `not`, a digit `int` refuses in a path) propagates and is returned as the exception.
-/

namespace RevenueOS.Py.Json

mutual

/-- Nesting depth: the recursion bound of the evaluator. -/
def depth : Json → ℕ
  | .arr xs => depthList xs + 1
  | .obj d => depthEntries d + 1
  | _ => 0

def depthList : List Json → ℕ
  | [] => 0
  | x :: xs => max (depth x) (depthList xs)

def depthEntries : List (String × Json) → ℕ
  | [] => 0
  | (_, v) :: d => max (depth v) (depthEntries d)

end

end RevenueOS.Py.Json

namespace RevenueOS.Workflows

open RevenueOS.Py

/-- The walk of `resolve_path` along the parts of a dotted path. -/
def resolveParts : Json → List String → Except PyError Json
  | node, [] => .ok node
  | .obj d, part :: rest => resolveParts (Dict.get d part) rest
  | .arr xs, part :: rest =>
    if isDigitStr part then
      match parseInt? part with
      | some i => resolveParts (xs[i.toNat]?.getD .null) rest
      | none => .error .valueError
    else .ok .null
  | _, _ :: _ => .ok .null

/-- `resolve_path`. -/
def resolvePath (scope : Dict) (path : String) : Except PyError Json :=
  resolveParts (.obj scope) (split path ".")

/-- An operand: a template is looked up, anything else stands for itself. -/
def operand (scope : Dict) (x : Json) : Except PyError Json :=
  match x.str? with
  | some s =>
    if startsWith s "\x7b\x7b" && endsWith s "\x7d\x7d" then
      resolvePath scope (strip (stripChars "\x7b\x7d " s))
    else .ok x
  | none => .ok x

/-- The empty values of `is_empty`. -/
def isEmptyValue (x : Json) : Bool :=
  [Json.null, .str "", .arr [], .obj []].any (fun y => x.pyEq y)

/-- An order comparison guarded by `left is not None`. -/
def ordered (op : Json.Cmp) (left right : Json) : Bool :=
  match left with
  | .null => false
  | _ => (Json.pyCmp op left right).getD false

/-- `low <= left <= high` for a pair. -/
def between (left right : Json) : Bool :=
  match right with
  | .arr [low, high] => (Json.pyCmp .le low left).getD false && (Json.pyCmp .le left high).getD false
  | _ => false

/-- The comparison operators, with `TypeError` read as `False`. -/
def compareOperands (operator : Json) (left right : Json) : Bool :=
  match operator.str? with
  | some "eq" => left.pyEq right
  | some "ne" => !left.pyEq right
  | some "gt" => ordered .gt left right
  | some "gte" => ordered .ge left right
  | some "lt" => ordered .lt left right
  | some "lte" => ordered .le left right
  | some "in" => (Json.pyIn left (right.or (.arr []))).getD false
  | some "not_in" => ((Json.pyIn left (right.or (.arr []))).map not).getD false
  | some "contains" => (Json.pyIn right (left.or (.str ""))).getD false
  | some "not_contains" => ((Json.pyIn right (left.or (.str ""))).map not).getD false
  | some "starts_with" => startsWith (left.or (.str "")).text right.text
  | some "ends_with" => endsWith (left.or (.str "")).text right.text
  | some "is_empty" => isEmptyValue left
  | some "is_not_empty" => !isEmptyValue left
  | some "between" => between left right
  | _ => false

/-- `x[0]` for the operand of `not`. -/
def firstItem : Json → Except PyError Json
  | .arr (x :: _) => .ok x
  | .arr [] => .error .indexError
  | .str s =>
    match s.toList with
    | c :: _ => .ok (.str (String.ofList [c]))
    | [] => .error .indexError
  | .obj _ => .error .keyError
  | _ => .error .typeError

/-- The recursion of `evaluate_condition`; the first argument bounds the nesting. -/
def evaluateAt (scope : Dict) : ℕ → Json → Except PyError Bool
  | 0, _ => .error .attributeError
  | fuel + 1, c => do
    let condition ← c.asDict
    let operator := Dict.get condition "operator"
    match operator.str? with
    | some "and" => do
      let children ← (Dict.getD condition "conditions" (.arr [])).iter
      return (← children.mapM (evaluateAt scope fuel)).all id
    | some "or" => do
      let children ← (Dict.getD condition "conditions" (.arr [])).iter
      return (← children.mapM (evaluateAt scope fuel)).any id
    | some "not" => do
      let child ← firstItem (Dict.getD condition "conditions" (.arr [.obj []]))
      return !(← evaluateAt scope fuel child)
    | _ => do
      let left ← operand scope (Dict.get condition "left")
      let right ← operand scope (Dict.get condition "right")
      return compareOperands operator left right

/-- `evaluate_condition`. -/
def evaluateCondition (scope : Dict) (c : Json) : Except PyError Bool := evaluateAt scope (c.depth + 1) c

end RevenueOS.Workflows
