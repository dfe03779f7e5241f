import RevenueOS.Workflows.Catalog
import RevenueOS.Lib.Digraph
import Mathlib.Data.List.Sort

/-!
# RevenueOS.Workflows.Dsl — validation and compilation of workflow documents

The functions of `domain/workflows/dsl.py` over an arbitrary JSON object.  `validateWorkflow` collects
the problems in the order the source appends them; where Python raises (an attribute of a value that is
not a `dict`, an unhashable member, a bad `int`), the model returns the exception, so nothing about the
shape of a document is assumed.  `compileWorkflow` produces the execution plan.

Python sets of node ids are lists without duplicates in insertion order; where a set is iterated over, the order
is the interpreter's.  What else depends on the interpreter are the stack left for the nested calls of `_has_cycle`,
and `content_hash`, which may raise.
-/

namespace RevenueOS.Workflows

open RevenueOS.Py RevenueOS.Lib

/-- What the code asks of its surroundings. -/
structure Interpreter where
  contentHash : Dict → Except PyError String
  /-- How many calls of `visit` the stack holds. -/
  visits : ℕ
  /-- The order in which a set is iterated over. -/
  order : List String → List String
  order_perm : ∀ ids, (order ids).Perm ids

/-- One hash for all documents, the default recursion limit, and sets in insertion order. -/
def plainInterpreter : Interpreter := ⟨fun _ => .ok "hash", 1000, id, fun _ => .refl _⟩

/-! ## Reports -/

structure ValidationReport where
  valid : Bool
  problems : List String
  warnings : List String
  nodeCount : ℕ
  externalEffectNodes : List String
  approvalRequiredNodes : List String
  contentHash : String

/-- The lists a pass over the nodes appends to. -/
structure Check where
  problems : List String
  external : List String
  approvals : List String

namespace Check

def empty : Check := ⟨[], [], []⟩

def ofProblems (ps : List String) : Check := ⟨ps, [], []⟩

def append (a b : Check) : Check :=
  ⟨a.problems ++ b.problems, a.external ++ b.external, a.approvals ++ b.approvals⟩

@[simp] theorem problems_append (a b : Check) : (a.append b).problems = a.problems ++ b.problems := rfl

@[simp] theorem problems_ofProblems (ps : List String) : (ofProblems ps).problems = ps := rfl

end Check

/-- `[msg]` if the test holds, else nothing. -/
def problemIf (b : Bool) (msg : String) : List String := if b then [msg] else []

@[simp] theorem problemIf_eq_nil {b : Bool} {msg : String} : problemIf b msg = [] ↔ b = false := by
  cases b <;> simp [problemIf]

/-- `set.add`. -/
def insertId (ids : List String) (x : String) : List String := if x ∈ ids then ids else ids ++ [x]

/-! ## Expressions and conditions -/

/-- What one piece between template braces contributes. -/
def segmentProblem (path segment : String) : List String :=
  let candidate := strip segment
  if candidate == "" || (!contains candidate "." && !contains candidate "(") then []
  else
    let root := strip (beforeFirst (beforeFirst candidate ".") "(")
    problemIf (root != "" && !allowedExpressionRoots.contains root && !allowedFunctions.contains root)
      (path ++ ": expression references unavailable root '" ++ root ++ "'")

/-- `validate_expression`. -/
def validateExpression (expr path : String) : List String :=
  match forbiddenExpressionTokens.find? (fun token => contains (lower expr) token) with
  | some token => [path ++ ": expression contains forbidden token '" ++ token ++ "'"]
  | none =>
    problemIf (decide (2000 < expr.length)) (path ++ ": expression exceeds 2000 characters") ++
      (split (replace expr "\x7d\x7d" "\x7b\x7b") "\x7b\x7b").flatMap (segmentProblem path)

/-- `_validate_condition`. -/
def validateCondition (node : Dict) (path : String) : Except PyError (List String) :=
  match (node.get "condition").dict? with
  | none => .ok [path ++ ": condition node requires a 'condition' object"]
  | some cond => do
    let op := Dict.get cond "operator"
    if ← op.inNames logicalOperators then
      let children := (Dict.get cond "conditions").or (.arr [])
      return problemIf (!(children.list?.any (fun cs => !cs.isEmpty)))
        (path ++ ": logical condition requires child conditions")
    let known ← op.inNames comparisonOperators
    return problemIf (!known) (path ++ ": unsupported condition operator '" ++ op.text ++ "'") ++
      problemIf (!Dict.has cond "left") (path ++ ": condition requires a 'left' operand") ++
      (match (Dict.get cond "left").str? with
        | some left => validateExpression left (path ++ ".left")
        | none => [])

/-! ## Graph checks -/

/-- `str(edge.get("source"))` and `str(edge.get("target"))`. -/
def edgeEnds (edge : Json) : Except PyError (String × String) := do
  let e ← edge.asDict
  return ((Dict.get e "source").text, (Dict.get e "target").text)

/-- The ids of the approval nodes: a set, so an unhashable id raises. -/
def approvalIds : List Json → Except PyError (List Json)
  | [] => .ok []
  | n :: ns => do
    let node ← n.asDict
    if Json.pyEq (Dict.get node "type") (.str NodeType.approval.value) then
      let id := Dict.get node "id"
      let _ ← id.inNames []
      return id :: (← approvalIds ns)
    else approvalIds ns

/-- `_has_upstream_approval`: a stack search against the edges. -/
def hasUpstreamApproval (nodeId : String) (nodes : List Json) (edges : Json) : Except PyError Bool := do
  let approvals ← approvalIds nodes
  if approvals.isEmpty then return false
  let pairs ← (← edges.iter).mapM edgeEnds
  let incoming := fun x => (pairs.filter (fun p => p.2 == x)).map (·.1)
  return stackSearch incoming (fun x => approvals.any (fun id => id.pyEq (.str x)))
    (2 * pairs.length + 1) [] (incoming nodeId).reverse

/-- The edges between known nodes, as adjacency lists. -/
def adjacencyOf (ids : List String) (pairs : List (String × String)) (x : String) : List String :=
  (pairs.filter (fun p => p.1 == x && ids.contains p.2)).map (·.2)

/-- `adjacency` of `_has_cycle`. -/
def cycleAdjacency (ids : List String) (pairs : List (String × String)) (x : String) : List String :=
  if ids.contains x then adjacencyOf ids pairs x else []

/-- How deep the calls of `visit` nest over ids that are iterated over in this order. -/
def cycleDepth (ids : List String) (pairs : List (String × String)) : ℕ :=
  searchDepth (cycleAdjacency ids pairs) (ids.length + 1) ids (fun _ => .white)

/-- `_has_cycle`, where the stack holds so many calls of `visit`. -/
def hasCycle (visits : ℕ) (ids : List String) (edges : List Json) : Except PyError Bool := do
  let pairs ← edges.mapM edgeEnds
  if visits < cycleDepth ids pairs then .error .recursionError
  else return findsCycle (cycleAdjacency ids pairs) (ids.length + 1) ids (fun _ => .white)

/-- `_unreachable_nodes`: what a search from the first root does not see. -/
def unreachableNodes (nodes edges : List Json) : Except PyError (List String) := do
  let dicts ← nodes.mapM Json.asDict
  let ids := (dicts.filterMap (fun n =>
    if (Dict.get n "id").truthy then some (Dict.get n "id").text else none)).foldl insertId []
  if ids.isEmpty then return []
  let pairs ← edges.mapM edgeEnds
  let roots := ids.filter (fun x => !(pairs.map (·.2)).contains x)
  match roots.insertionSort (· ≤ ·) with
  | [] => return []
  | entry :: _ =>
    let next := fun x => if ids.contains x then (pairs.filter (fun p => p.1 == x)).map (·.2) else []
    let reachable := stackReach next (2 * pairs.length + 2) [] [entry]
    return ids.filter (fun x => !reachable.contains x)

/-! ## Nodes -/

/-- The `approval` branch. -/
def validateApproval (path : String) (node : Dict) : List String :=
  let assignees := node.get "assignees"
  let strategy := ((node.get "strategy").or (.str "any")).text
  let quorum := node.getD "quorum" (.int 1)
  let fits := match quorum.int?, assignees.list? with
    | some q, some xs => decide (1 ≤ q) && decide (q ≤ xs.length)
    | _, _ => false
  problemIf (!(assignees.list?.any (fun xs => !xs.isEmpty))) (path ++ ": approval node requires assignees") ++
    problemIf (!(["any", "all", "quorum"].contains strategy))
      (path ++ ": unsupported approval strategy '" ++ strategy ++ "'") ++
    problemIf (strategy == "quorum" && !fits) (path ++ ": approval quorum must fit the assignee count")

/-- An integer field within bounds; a missing key takes the default. -/
def validateRange (value : Json) (low high : ℤ) (msg : String) : List String :=
  problemIf (!(value.int?.any (fun n => decide (low ≤ n) && decide (n ≤ high)))) msg

/-- The branch of a node's type. -/
def checkNodeType (nodes : List Json) (edges : Json) (path nodeId : String) (node : Dict) :
    NodeType → Except PyError Check
  | .action =>
    let action := node.get "action"
    match actionCatalog.lookup action.text with
    | none => .ok (.ofProblems [path ++ ": unknown action '" ++ action.text ++ "'"])
    | some spec => do
      let external := if spec.externalEffect then [nodeId] else []
      if spec.requiresApproval then
        if ← hasUpstreamApproval nodeId nodes edges then return ⟨[], external, []⟩
        return ⟨[path ++ ": action '" ++ action.text ++ "' is irreversible or externally visible and " ++
          "requires an upstream approval node or explicit confirmation policy"], external, [nodeId]⟩
      return ⟨[], external, []⟩
  | .condition => do return .ofProblems (← validateCondition node path)
  | .delay =>
    .ok (.ofProblems (validateRange (node.get "delay_seconds") 1 31536000
      (path ++ ": delay_seconds must be between 1 and 31536000")))
  | .loop =>
    .ok (.ofProblems (validateRange (node.getD "max_iterations" (.int maxLoopDefault)) 1 maxLoopHard
      (path ++ ": max_iterations must be between 1 and 10000")))
  | .parallel =>
    let join := node.getD "join" (.str "all")
    .ok (.ofProblems (problemIf (!(["all", "any", "majority", "count"].any (fun s => join.pyEq (.str s))))
      (path ++ ": unsupported parallel join '" ++ join.text ++ "'")))
  | .approval => .ok ⟨validateApproval path node, [], [nodeId]⟩
  | .subworkflow => .ok .empty

/-- Templates in the `inputs` object. -/
def checkInputs (path : String) (node : Dict) : Except PyError (List String) :=
  match (node.get "inputs").or (.obj []) with
  | .obj kvs => .ok (kvs.flatMap (fun kv =>
      match kv.2.str? with
      | some value =>
        if contains value "\x7b\x7b" then validateExpression value (path ++ ".inputs." ++ kv.1) else []
      | none => []))
  | _ => .error .attributeError

/-- One turn of the loop over the nodes: the id it registers and what it appends. -/
def validateNode (nodes : List Json) (edges : Json) (ids : List String) (index : ℕ) (n : Json) :
    Except PyError (Option String × Check) := do
  let path := "nodes[" ++ toString index ++ "]"
  let node ← n.asDict
  match node.get "id" with
  | .str nodeId =>
    if nodeId = "" then return (none, .ofProblems [path ++ ": node requires a string id"])
    let dup := problemIf (ids.contains nodeId) (path ++ ": duplicate node id '" ++ nodeId ++ "'")
    match NodeType.ofJson? (node.get "type") with
    | none =>
      return (some nodeId,
        .ofProblems (dup ++ [path ++ ": unknown node type '" ++ (node.get "type").text ++ "'"]))
    | some nodeType =>
      let check ← checkNodeType nodes edges path nodeId node nodeType
      let inputs ← checkInputs path node
      return (some nodeId, ((Check.ofProblems dup).append check).append (.ofProblems inputs))
  | _ => return (none, .ofProblems [path ++ ": node requires a string id"])

/-- The loop over the nodes: `node_ids` and everything appended. -/
def validateNodes (nodes : List Json) (edges : Json) :
    ℕ → List String → List Json → Except PyError (List String × Check)
  | _, ids, [] => .ok (ids, .empty)
  | index, ids, n :: rest => do
    let (id, check) ← validateNode nodes edges ids index n
    let (ids', check') ← validateNodes nodes edges (index + 1) (id.toList.foldl insertId ids) rest
    return (ids', check.append check')

/-! ## Edges and policy -/

/-- One turn of the loop over the edges. -/
def validateEdge (ids : List String) (index : ℕ) (e : Json) : Except PyError (List String) := do
  let path := "edges[" ++ toString index ++ "]"
  let edge ← e.asDict
  let source := Dict.get edge "source"
  let target := Dict.get edge "target"
  let known ← source.inNames ids
  let known' ← target.inNames ids
  return problemIf (!known) (path ++ ": unknown source node '" ++ source.text ++ "'") ++
    problemIf (!known') (path ++ ": unknown target node '" ++ target.text ++ "'") ++
    (match (Dict.get edge "condition").str? with
      | some condition => validateExpression condition (path ++ ".condition")
      | none => [])

/-- The loop over the edges. -/
def validateEdges (ids : List String) : ℕ → List Json → Except PyError (List String)
  | _, [] => .ok []
  | index, e :: rest => do
    let here ← validateEdge ids index e
    return here ++ (← validateEdges ids (index + 1) rest)

/-- `x[key]`. -/
def getItem (x : Json) (key : String) : Except PyError Json :=
  match x with
  | .obj d =>
    match d.lookup key with
    | some v => .ok v
    | none => .error .keyError
  | _ => .error .typeError

/-- `key in x`. -/
def hasItem (x : Json) (key : String) : Except PyError Bool :=
  match Json.pyIn (.str key) x with
  | some b => .ok b
  | none => .error .typeError

/-- One bounded integer of the policy. -/
def checkPolicyInt (policy : Json) (key : String) (low high : ℤ) : Except PyError (List String) := do
  if ← hasItem policy key then
    return validateRange (← getItem policy key) low high
      ("global_policy." ++ key ++ " must be an integer between " ++ toString low ++ " and " ++ toString high)
  return []

/-- The error policy is a known one. -/
def checkErrorPolicy (policy : Json) : Except PyError (List String) := do
  if ← hasItem policy "error_policy" then
    let value ← getItem policy "error_policy"
    return problemIf (ErrorPolicy.ofJson? value).isNone ("unknown error policy '" ++ value.text ++ "'")
  return []

/-- The retry strategy is a known one. -/
def checkRetryStrategy (policy : Json) : Except PyError (List String) := do
  if ← hasItem policy "retry_strategy" then
    let value ← getItem policy "retry_strategy"
    return problemIf (!(["fixed", "exponential", "linear"].any (fun s => value.pyEq (.str s))))
      "retry_strategy must be fixed, exponential or linear"
  return []

/-- `_validate_policy`. -/
def validatePolicy (policy : Json) : Except PyError (List String) := do
  let concurrency ← checkPolicyInt policy "concurrency" 1 100
  let timeout ← checkPolicyInt policy "timeout_seconds" 60 86400
  let attempts ← checkPolicyInt policy "retry_attempts" 0 10
  let initial ← checkPolicyInt policy "retry_initial_seconds" 1 300
  let maximum ← checkPolicyInt policy "retry_max_seconds" 60 3600
  let error ← checkErrorPolicy policy
  let strategy ← checkRetryStrategy policy
  return concurrency ++ timeout ++ attempts ++ initial ++ maximum ++ error ++ strategy

/-! ## The document -/

/-- The checks on `name`, `description` and `category`. -/
def validateHeader (doc : Dict) : List String :=
  problemIf (!((doc.getD "name" (.str "")).str?.any (fun s => decide (1 ≤ s.length) && decide (s.length ≤ maxName))))
      "name must be 1-200 characters" ++
    problemIf (decide (maxDescription < (doc.getD "description" (.str "")).text.length))
      "description must be at most 2000 characters" ++
    problemIf (Category.ofJson? (doc.getD "category" (.str "custom"))).isNone
      ("unknown category '" ++ (doc.get "category").text ++ "'")

/-- The trigger's type is one of the known ones. -/
def validateTrigger (doc : Dict) : Except PyError (List String) := do
  let trigger ← ((doc.get "trigger").or (.obj [])).asDict
  let known ← (Dict.get trigger "type").inNames triggerTypes
  return problemIf (!known) ("unknown trigger type '" ++ (Dict.get trigger "type").text ++ "'")

/-- `doc.get("nodes") or []`, replaced by `[]` when it is not a list, with the problems noted. -/
def documentNodes (doc : Dict) : List Json × List String :=
  match ((doc.get "nodes").or (.arr [])).list? with
  | some (n :: ns) => (n :: ns, problemIf (decide (maxNodes < (n :: ns).length)) "a workflow may not exceed 200 nodes")
  | _ => ([], ["a workflow must declare at least one node"])

section Compile

variable (py : Interpreter)

/-- `node_ids and edges and _has_cycle(node_ids, edges)`. -/
def detectCycle (ids : List String) (edges : Json) (edgeList : List Json) : Except PyError Bool :=
  if ids.isEmpty = false ∧ edges.truthy = true then hasCycle py.visits (py.order ids) edgeList else .ok false

/-- `canonical_hash`. -/
def canonicalHash (doc : Dict) : Except PyError String :=
  py.contentHash (doc.filter (fun kv => !(["version", "content_hash", "updated_at"].contains kv.1)))

/-- `validate_workflow`. -/
def validateWorkflow (doc : Dict) : Except PyError ValidationReport := do
  let trigger ← validateTrigger doc
  let nodes := (documentNodes doc).1
  let edges := (doc.get "edges").or (.arr [])
  let (ids, check) ← validateNodes nodes edges 0 [] nodes
  let edgeList ← edges.iter
  let edgeProblems ← validateEdges ids 0 edgeList
  let cyclic ← detectCycle py ids edges edgeList
  let unreachable ← unreachableNodes nodes edgeList
  let policy ← validatePolicy ((doc.get "global_policy").or (.obj []))
  let contentHash ← canonicalHash py doc
  let problems := validateHeader doc ++ trigger ++ (documentNodes doc).2 ++ check.problems ++ edgeProblems ++
    problemIf cyclic "workflow graph must be acyclic; a cycle was detected" ++ policy
  return {
    valid := problems.isEmpty
    problems
    warnings := problemIf (!unreachable.isEmpty)
      ("unreachable nodes: " ++ (Json.arr ((unreachable.insertionSort (· ≤ ·)).map .str)).repr)
    nodeCount := nodes.length
    externalEffectNodes := check.external
    approvalRequiredNodes := check.approvals
    contentHash }

/-- An edge of the plan. -/
structure PlanEdge where
  target : String
  condition : Json
  label : Json
  priority : ℤ

/-- The immutable execution plan. -/
structure Plan where
  contentHash : String
  entryNodes : List String
  nodes : List (String × Dict)
  adjacency : List (String × List PlanEdge)
  trigger : Json
  globalPolicy : Dict
  externalEffectNodes : List String
  validation : ValidationReport

/-- `plan["adjacency"].get(id, [])`. -/
def Plan.edgesFrom (plan : Plan) (id : String) : List PlanEdge := (plan.adjacency.lookup id).getD []

/-- `compile_workflow` raises `DslValidationError` with its problems, or what Python raises. -/
inductive CompileError where
  | invalid (problems : List String)
  | raised (e : PyError)

/-- One edge of the document as an edge of the plan. -/
def planEdge (edge : Json) : Except PyError (String × PlanEdge) := do
  let source ← getItem edge "source"
  let target ← getItem edge "target"
  let e ← edge.asDict
  let priority ← (Dict.getD e "priority" (.int 0)).toInt
  return (source.text, ⟨target.text, Dict.get e "condition", Dict.get e "label", priority⟩)

/-- Group the edges by source, each group stably sorted by descending priority. -/
def groupEdges (edges : List (String × PlanEdge)) : List (String × List PlanEdge) :=
  ((edges.map (·.1)).foldl insertId []).map (fun s =>
    (s, ((edges.filter (fun e => e.1 == s)).map (·.2)).insertionSort (fun a b => b.priority ≤ a.priority)))

/-- `(str(n["id"]), n)`. -/
def planNode (n : Json) : Except PyError (String × Dict) := do
  let id ← getItem n "id"
  return (id.text, ← n.asDict)

def defaultPolicy : Dict :=
  [("error_policy", .str "stop"), ("concurrency", .int 10), ("timeout_seconds", .int 3600),
    ("retry_attempts", .int 3), ("retry_strategy", .str "exponential"), ("retry_initial_seconds", .int 1),
    ("retry_max_seconds", .int 60)]

/-- `{**defaults, **(doc.get("global_policy") or {})}`. -/
def mergedPolicy (doc : Dict) : Except PyError Dict :=
  match (doc.get "global_policy").or (.obj []) with
  | .obj p => .ok (defaultPolicy.merge p)
  | _ => .error .typeError

/-- The plan of a validated document. -/
def buildPlan (doc : Dict) (report : ValidationReport) : Except PyError Plan := do
  let edges ← (← (doc.getD "edges" (.arr [])).iter).mapM planEdge
  let nodes ← (← (← getItem (.obj doc) "nodes").iter).mapM planNode
  let targets := edges.map (fun e => e.2.target)
  let policy ← mergedPolicy doc
  return {
    contentHash := report.contentHash
    entryNodes := (nodes.map (·.1)).filter (fun id => !targets.contains id)
    nodes
    adjacency := groupEdges edges
    trigger := doc.getD "trigger" (.obj [])
    globalPolicy := policy
    externalEffectNodes := report.externalEffectNodes
    validation := report }

/-- `compile_workflow`. -/
def compileWorkflow (doc : Dict) : Except CompileError Plan :=
  match validateWorkflow py doc with
  | .error e => .error (.raised e)
  | .ok report =>
    if report.valid then
      match buildPlan doc report with
      | .error e => .error (.raised e)
      | .ok plan => .ok plan
    else .error (.invalid report.problems)

end Compile

end RevenueOS.Workflows
