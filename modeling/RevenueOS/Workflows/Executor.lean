import RevenueOS.Workflows.Dsl
import RevenueOS.Workflows.Condition
import RevenueOS.Shared.Timeutil

/-!
# RevenueOS.Workflows.Executor — the workflow engine

`WorkflowEngine` of `application/workflows/executor.py`: a first-in first-out worklist over the plan's
nodes that runs actions with bounded retry, branches on conditions, and suspends at delays and approvals.

Everything the engine does not compute itself comes from an environment `Env W` over an arbitrary world
`W`: the action runner (which may also change the context it is handed), the kill check, the node
persister and the clock.  Quantifying over `W` and `Env W` therefore covers every behaviour of them.  One
pass through `while queue` is `turn`; `runTurns n` iterates it.  `Loop.calls` records the calls made to the
action runner and has no counterpart in the source.  Logging, metrics and the backoff sleep are left out; the
computation of the delay stays, as far as it can raise.
-/

namespace RevenueOS.Workflows

open RevenueOS.Py

/-! ## States and records -/

inductive ExecutionState where
  | pending | running | waiting | completed | failed | cancelled
deriving DecidableEq, Repr

namespace ExecutionState

def value : ExecutionState → String
  | .pending => "pending"
  | .running => "running"
  | .waiting => "waiting"
  | .completed => "completed"
  | .failed => "failed"
  | .cancelled => "cancelled"

end ExecutionState

inductive NodeState where
  | pending | running | retrying | completed | failed | skipped
deriving DecidableEq, Repr

/-- Instants in microseconds. -/
abbrev Instant := ℤ

def seconds (n : ℤ) : ℤ := n * 1000000

structure ExecutionContext where
  executionId : String
  tenantId : String
  workflowId : String
  versionId : String
  contentHash : String
  triggerPayload : Dict
  entity : Dict
  vars : Dict
  dryRun : Bool
  correlationId : Option String
  startedAt : Instant

structure NodeResult where
  nodeId : String
  state : NodeState
  attempt : ℤ
  output : Dict
  error : Dict
  idempotencyKey : String
  skippedReason : Option String

/-- A result with the dataclass defaults. -/
def NodeResult.plain (nodeId : String) (state : NodeState) (output : Dict) : NodeResult :=
  ⟨nodeId, state, 1, output, [], "", none⟩

/-- The columns of `workflow_node_executions` hold the result; the key is made of the id of the execution, the node
and the attempt, and fits its column when they do. -/
def NodeResult.storable (r : NodeResult) : Bool := r.nodeId.length ≤ 120 && Shared.cInt r.attempt

structure ExecutionResult where
  executionId : String
  state : ExecutionState
  nodes : List NodeResult
  error : Dict
  resumeAt : Option Instant
  waitingOn : Option String
  resumeNodes : List String
  externalEffects : List String

/-- `action_idempotency_key`. -/
def actionIdempotencyKey (executionId nodeId : String) (attempt : ℤ) : String :=
  executionId ++ ":" ++ nodeId ++ ":" ++ toString attempt

/-! ## Retry classes -/

inductive RetryClass where
  | transient | provider | terminal | rateLimited
deriving DecidableEq, Repr

/-- The exception families `classify_exception` tells apart, in its order of tests. -/
inductive ExceptionKind where
  | rateLimited | providerUnavailable | domainError | terminalException | other
deriving DecidableEq, Repr

/-- `classify_exception`. -/
def classifyException : ExceptionKind → RetryClass
  | .rateLimited => .rateLimited
  | .providerUnavailable => .provider
  | .domainError => .terminal
  | .terminalException => .terminal
  | .other => .transient

/-- `should_retry`. -/
def shouldRetry (cls : RetryClass) (attempt maxAttempts : ℤ) : Bool :=
  cls != .terminal && decide (attempt < maxAttempts)

/-- The class after the action's own declaration was consulted. -/
def effectiveClass (action : String) (cls : RetryClass) : RetryClass :=
  match actionCatalog.lookup action with
  | none => cls
  | some spec =>
    if cls = .terminal then .terminal
    else
      match spec.retryClass with
      | .none => .terminal
      | .transient => if cls = .rateLimited then .rateLimited else .transient
      | .provider => if cls = .rateLimited then .rateLimited else .provider

/-! ## Backoff -/

/-- The integers from here on overflow the conversion to `float`. -/
def floatOverflow : ℤ := 2 ^ 1024 - 2 ^ 970

/-- The first attempt for which `backoff_delay` raises `OverflowError`, if there is one: a linear delay
multiplies by the attempt, an exponential one by `2 ** (attempt - 1)`. -/
def backoffLimit (policy : Dict) : Option ℤ :=
  match (policy.getD "retry_strategy" (.str "exponential")).text with
  | "fixed" => none
  | "linear" => some floatOverflow
  | _ => some 1025

/-- Whether `backoff_delay(attempt, backoff)` raises. -/
def backoffRaises (policy : Dict) (attempt : ℤ) : Bool :=
  (backoffLimit policy).any (fun limit => decide (limit ≤ attempt))

/-! ## The environment -/

/-- What one call of the action runner comes back with. -/
inductive ActionOutcome where
  | returned (output : Dict)
  | terminal (message : String)
  | killed
  | raised (kind : ExceptionKind) (typeName message : String)

/-- `reread` is a scope built earlier as it reads now: its dictionaries are shared with the context, so the
action runner may have changed them in place. -/
structure Env (W : Type) where
  runAction : String → Json → ExecutionContext → String → W → ActionOutcome × ExecutionContext × W
  reread : Dict → W → Dict
  killCheck : Option (ExecutionContext → W → Bool × W)
  persistNode : Option (NodeResult → ExecutionContext → W → W)
  utcnow : W → Instant × W
  isoformat : Instant → String

/-- `_killed`. -/
def Env.killed {W : Type} (env : Env W) (ctx : ExecutionContext) (w : W) : Bool × W :=
  match env.killCheck with
  | none => (false, w)
  | some check => check ctx w

/-- Exceptions that leave `execute`. -/
inductive EngineError where
  | hashMismatch
  | workflowKilled
  | raised (e : PyError)
deriving DecidableEq, Repr

/-- A call of the action runner. -/
structure ActionCall where
  nodeId : String
  action : String
  inputs : Json
  key : String

/-! ## Actions with retry -/

/-- The outcome of `_run_with_retry`, with the calls it made. -/
structure ActionRun (W : Type) where
  result : Except EngineError NodeResult
  context : ExecutionContext
  world : W
  calls : List ActionCall

section Engine

variable {W : Type} (env : Env W)

/-- The attempts `attempt, attempt + 1, ..`, `left` of them. -/
def attemptLoop (policy : Dict) (action nodeId : String) (inputs : Json) (maxAttempts : ℤ) :
    ℕ → ℤ → ExecutionContext → W → List ActionCall → ActionRun W
  | 0, _, ctx, w, calls =>
    ⟨.ok ⟨nodeId, .failed, maxAttempts, [], [("message", .str "exhausted")], "", none⟩, ctx, w, calls⟩
  | left + 1, attempt, ctx, w, calls =>
    let key := actionIdempotencyKey ctx.executionId nodeId attempt
    if ctx.dryRun then
      let external := match actionCatalog.lookup action with
        | some spec => spec.externalEffect
        | none => false
      ⟨.ok ⟨nodeId, .skipped, attempt,
        [("dry_run", .bool true), ("would_call", .str action), ("external_effect", .bool external)],
        [], key, some "dry run performs no external effect"⟩, ctx, w, calls⟩
    else
      let (outcome, ctx', w') := env.runAction action inputs ctx key w
      let calls' := calls ++ [⟨nodeId, action, inputs, key⟩]
      match outcome with
      | .returned output => ⟨.ok ⟨nodeId, .completed, attempt, output, [], key, none⟩, ctx', w', calls'⟩
      | .terminal message =>
        ⟨.ok ⟨nodeId, .failed, attempt, [],
          [("type", .str "terminal"), ("message", .str message), ("retried", .bool false)], key, none⟩,
          ctx', w', calls'⟩
      | .killed => ⟨.error .workflowKilled, ctx', w', calls'⟩
      | .raised kind typeName message =>
        if shouldRetry (effectiveClass action (classifyException kind)) attempt maxAttempts then
          if backoffRaises policy attempt then ⟨.error (.raised .overflowError), ctx', w', calls'⟩
          else attemptLoop policy action nodeId inputs maxAttempts left (attempt + 1) ctx' w' calls'
        else
          ⟨.ok ⟨nodeId, .failed, attempt, [],
            [("type", .str typeName), ("message", .str message), ("attempts", .int attempt)], key, none⟩,
            ctx', w', calls'⟩

/-- `int(node.get("retry_attempts", policy["retry_attempts"])) + 1`. -/
def maxAttempts (policy node : Dict) : Except PyError ℤ := do
  let dflt ← getItem (.obj policy) "retry_attempts"
  return (← (node.getD "retry_attempts" dflt).toInt) + 1

/-- `_run_with_retry`. -/
def runWithRetry (policy node : Dict) (ctx : ExecutionContext) (w : W) : ActionRun W :=
  match maxAttempts policy node with
  | .error e => ⟨.error (.raised e), ctx, w, []⟩
  | .ok n =>
    attemptLoop env policy (node.get "action").text (node.get "id").text (node.getD "inputs" (.obj [])) n n.toNat
      1 ctx w []

/-! ## Following edges -/

/-- The branch test on an edge's label. -/
def labelBlocks (branch : Option Bool) (label : Json) : Bool :=
  match branch with
  | none => false
  | some taken => (label.pyEq (.str "true") && !taken) || (label.pyEq (.str "false") && taken)

/-- Whether an edge's object condition rejects the scope. -/
def conditionBlocks (scope : Dict) (condition : Json) : Except PyError Bool :=
  match condition with
  | .obj _ => do return !(← evaluateCondition scope condition)
  | _ => .ok false

/-- The targets of the edges that are followed. -/
def follow (scope : Dict) (branch : Option Bool) : List PlanEdge → Except PyError (List String)
  | [] => .ok []
  | e :: es =>
    if labelBlocks branch e.label then follow scope branch es
    else do
      if ← conditionBlocks scope e.condition then follow scope branch es
      else return e.target :: (← follow scope branch es)

/-- `_next_nodes`. -/
def nextNodes (plan : Plan) (nodeId : String) (scope : Dict) (branch : Option Bool) :
    Except PyError (List String) :=
  follow scope branch (plan.edgesFrom nodeId)

/-- `_scope`. -/
def scopeOf (ctx : ExecutionContext) : Dict :=
  [("event", .obj ctx.triggerPayload), ("entity", .obj ctx.entity), ("trigger", .obj ctx.triggerPayload),
    ("workflow", .obj [("id", .str ctx.workflowId), ("execution_id", .str ctx.executionId),
      ("content_hash", .str ctx.contentHash)]),
    ("node", .obj ctx.vars)]

/-! ## The worklist -/

/-- The local variables of `execute`, and what it has done so far, in order: the calls of the action runner, the nodes
whose body has run, and the loop nodes whose successors were queued. -/
structure Loop (W : Type) where
  queue : List String
  visited : List String
  loopCounts : List (String × ℤ)
  results : List NodeResult
  external : List String
  context : ExecutionContext
  world : W
  calls : List ActionCall
  ran : List String
  expanded : List String

/-- What one turn of the loop does. -/
inductive Turn (W : Type) where
  | more (σ : Loop W)
  | done (r : ExecutionResult) (σ : Loop W)
  | raised (e : EngineError) (σ : Loop W)

/-- The loop variables after the turn. -/
def Turn.loop : Turn W → Loop W
  | .more σ => σ
  | .done _ σ => σ
  | .raised _ σ => σ

namespace Loop

/-- An `ExecutionResult` without suspension. -/
def result (σ : Loop W) (state : ExecutionState) (error : Dict) : ExecutionResult :=
  ⟨σ.context.executionId, state, σ.results, error, none, none, [], σ.external⟩

/-- An `ExecutionResult` that suspends at `nodeId`. -/
def suspended (σ : Loop W) (nodeId : String) (resumeAt : Option Instant) (next : List String) :
    ExecutionResult :=
  ⟨σ.context.executionId, .waiting, σ.results, [], resumeAt, some nodeId, next, σ.external⟩

/-- `queue.extend(next)`, or the exception of `_next_nodes`. -/
def extend (σ : Loop W) : Except PyError (List String) → Turn W
  | .ok next => .more { σ with queue := σ.queue ++ next }
  | .error e => .raised (.raised e) σ

def addResult (σ : Loop W) (r : NodeResult) : Loop W := { σ with results := σ.results ++ [r] }

/-- The body runs for this node. -/
def enter (σ : Loop W) (nodeId : String) : Loop W := { σ with ran := σ.ran ++ [nodeId] }

end Loop

/-- `plan["nodes"].get(id, {}).get("type")` as a node type. -/
def Plan.typeOf (plan : Plan) (nodeId : String) : Option NodeType :=
  (plan.nodes.lookup nodeId).bind (fun node => NodeType.ofJson? (Dict.get node "type"))

/-- `policy["error_policy"] == "stop"`. -/
def Plan.stops (plan : Plan) : Bool := (Dict.get plan.globalPolicy "error_policy").pyEq (.str "stop")

variable (plan : Plan)

def processCondition (nodeId : String) (node : Dict) (σ : Loop W) : Turn W :=
  match evaluateCondition (scopeOf σ.context) (node.getD "condition" (.obj [])) with
  | .error e => .raised (.raised e) σ
  | .ok passed =>
    (σ.addResult (.plain nodeId .completed [("result", .bool passed)])).extend
      (nextNodes plan nodeId (scopeOf σ.context) (some passed))

def processDelay (nodeId : String) (node : Dict) (σ : Loop W) : Turn W :=
  match getItem (.obj node) "delay_seconds" >>= Json.toInt with
  | .error e => .raised (.raised e) σ
  | .ok delay =>
    let (now, w) := env.utcnow σ.world
    let resumeAt := now + seconds delay
    let σ' := { σ with world := w }.addResult
      (.plain nodeId .completed [("resume_at", .str (env.isoformat resumeAt))])
    match nextNodes plan nodeId (scopeOf σ.context) none with
    | .error e => .raised (.raised e) σ'
    | .ok next => .done (σ'.suspended nodeId (some resumeAt) next) σ'

def processApproval (nodeId : String) (σ : Loop W) : Turn W :=
  let σ' := σ.addResult (.plain nodeId .pending [("approval", .str "requested")])
  match nextNodes plan nodeId (scopeOf σ.context) none with
  | .error e => .raised (.raised e) σ'
  | .ok next => .done (σ'.suspended nodeId none next) σ'

/-- `min(int(node.get("max_iterations", 1_000)), MAX_LOOP_HARD)`. -/
def loopLimit (node : Dict) : Except PyError ℤ := do
  return min (← (node.getD "max_iterations" (.int 1000)).toInt) maxLoopHard

def processLoop (nodeId : String) (node : Dict) (σ : Loop W) : Turn W :=
  match loopLimit node with
  | .error e => .raised (.raised e) σ
  | .ok limit =>
    let count := (σ.loopCounts.lookup nodeId).getD 0 + 1
    let σ := { σ with loopCounts := (nodeId, count) :: σ.loopCounts }
    if limit < count then
      let σ' := σ.addResult ⟨nodeId, .failed, 1, [], [("reason", .str "loop limit reached")], "", none⟩
      if plan.stops then
        .done (σ'.result .failed [("node_id", .str nodeId), ("reason", .str "loop limit reached")]) σ'
      else .more σ'
    else
      { σ with visited := σ.visited.filter (· != nodeId), expanded := σ.expanded ++ [nodeId] }.extend
        (nextNodes plan nodeId (scopeOf σ.context) none)

def processParallel (nodeId : String) (node : Dict) (σ : Loop W) : Turn W :=
  (σ.addResult (.plain nodeId .completed [("join", node.getD "join" (.str "all"))])).extend
    (nextNodes plan nodeId (scopeOf σ.context) none)

/-- Whether a result counts as an external effect. -/
def isExternalEffect (node : Dict) (result : NodeResult) : Bool :=
  match actionCatalog.lookup (node.get "action").text with
  | some spec => spec.externalEffect && result.state == .completed
  | none => false

/-- `_persist_node`, when there is one. -/
def Env.persisted (result : NodeResult) (ctx : ExecutionContext) (w : W) : W :=
  match env.persistNode with
  | some persist => persist result ctx w
  | none => w

/-- The bookkeeping after an action: its result, its external effect, its persisted evidence. -/
def recordAction (nodeId : String) (node : Dict) (result : NodeResult) (σ : Loop W) : Loop W :=
  { σ with
    results := σ.results ++ [result]
    external := if isExternalEffect node result then σ.external ++ [nodeId] else σ.external
    world := env.persisted result σ.context σ.world }

def processAction (nodeId : String) (node : Dict) (σ : Loop W) : Turn W :=
  let run := runWithRetry env plan.globalPolicy node σ.context σ.world
  -- the scope is built before the action runs
  let scope := scopeOf σ.context
  let σ := { σ with context := run.context, world := run.world, calls := σ.calls ++ run.calls }
  match run.result with
  | .error e => .raised e σ
  | .ok result =>
    let σ := recordAction env nodeId node result σ
    if result.state = .failed ∧ plan.stops = true then
      .done (σ.result .failed (Dict.merge [("node_id", .str nodeId)] result.error)) σ
    else σ.extend (nextNodes plan nodeId (env.reread scope σ.world) none)

/-- The body of the loop after `visited.add(node_id)`. -/
def processNode (nodeId : String) (σ : Loop W) : Turn W :=
  match plan.nodes.lookup nodeId with
  | none => .more σ
  | some node =>
    match NodeType.ofJson? (Dict.get node "type") with
    | some .condition => processCondition plan nodeId node (σ.enter nodeId)
    | some .delay => processDelay env plan nodeId node (σ.enter nodeId)
    | some .approval => processApproval plan nodeId (σ.enter nodeId)
    | some .loop => processLoop plan nodeId node (σ.enter nodeId)
    | some .parallel => processParallel plan nodeId node (σ.enter nodeId)
    | some .action => processAction env plan nodeId node (σ.enter nodeId)
    | _ => (σ.enter nodeId).extend (nextNodes plan nodeId (scopeOf σ.context) none)

/-- One evaluation of `while queue` and its body. -/
def turn (deadline : Instant) (σ : Loop W) : Turn W :=
  match σ.queue with
  | [] => .done (σ.result .completed []) σ
  | nodeId :: rest =>
    let (killed, w) := env.killed σ.context σ.world
    if killed then
      .done (σ.result .cancelled [("reason", .str "kill switch engaged")]) { σ with world := w }
    else
      let (now, w') := env.utcnow w
      if deadline < now then
        .done (σ.result .failed [("reason", .str "workflow timeout exceeded")]) { σ with world := w' }
      else
        let σ' := { σ with queue := rest, world := w' }
        if nodeId ∈ σ.visited ∧ plan.typeOf nodeId ≠ some .loop then .more σ'
        else processNode env plan nodeId { σ' with visited := insertId σ.visited nodeId }

/-- At most `n` turns. -/
def runTurns (deadline : Instant) : ℕ → Loop W → Turn W
  | 0, σ => .more σ
  | n + 1, σ =>
    match turn env plan deadline σ with
    | .more σ' => runTurns deadline n σ'
    | t => t

/-- The loop variables before the first turn: the entry nodes, or the nodes to resume from. -/
def startLoop (ctx : ExecutionContext) (resumeFrom : Option (List String)) (w : W) : Loop W :=
  ⟨resumeFrom.getD plan.entryNodes, [], [], [], [], ctx, w, [], [], []⟩

/-- `context.started_at + timedelta(seconds=int(policy["timeout_seconds"]))`. -/
def deadlineOf (ctx : ExecutionContext) : Except PyError Instant := do
  let timeout ← (← getItem (.obj plan.globalPolicy) "timeout_seconds").toInt
  return ctx.startedAt + seconds timeout

/-- `WorkflowEngine.execute`, stopped after `n` turns of its loop. -/
def execute (n : ℕ) (ctx : ExecutionContext) (resumeFrom : Option (List String)) (w : W) : Turn W :=
  let σ := startLoop plan ctx resumeFrom w
  if plan.contentHash ≠ ctx.contentHash then .raised .hashMismatch σ
  else
    match deadlineOf plan ctx with
    | .error e => .raised (.raised e) σ
    | .ok deadline => runTurns env plan deadline n σ

end Engine

/-- A world without state in which every action succeeds and no time passes. -/
def calmEnv : Env Unit where
  runAction _ _ ctx _ w := (.returned [], ctx, w)
  reread scope _ := scope
  killCheck := none
  persistNode := none
  utcnow w := (0, w)
  isoformat _ := ""

end RevenueOS.Workflows
