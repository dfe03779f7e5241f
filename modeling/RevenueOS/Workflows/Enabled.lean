import RevenueOS.Workflows.Gating
import RevenueOS.Workflows.Approvals
import RevenueOS.Lib.Traversal

/-!
# RevenueOS.Workflows.Enabled — the graph a run traverses

In a fixed scope the edges that the engine follows form a graph (`enabledNext`), acyclic because the document
is.  In a calm environment (actions succeed and leave the context alone, no kill switch, no deadline) a turn
of the engine's loop is a turn of a worklist traversal of that graph, or suspends.

* `calm_turn`: the simulation of one turn.
* `segment_outcome`: a whole segment completes with every action its start reaches run once, or suspends at a
  node it reaches.
-/

namespace RevenueOS.Workflows

open RevenueOS.Py RevenueOS.Lib

/-! ## Validated numbers -/

theorem toInt_of_int? {v : Json} {n : ℤ} (h : v.int? = some n) : v.toInt = .ok n := by
  cases v with
  | int m => exact congrArg Except.ok (Option.some.inj h)
  | bool b => exact congrArg Except.ok (Option.some.inj h)
  | _ => cases h

theorem checkPolicyInt_ok {p : Dict} {key : String} {low high : ℤ}
    (h : checkPolicyInt (.obj p) key low high = .ok []) {v : Json} (hv : p.lookup key = some v) :
    ∃ n, v.int? = some n ∧ low ≤ n ∧ n ≤ high := by
  unfold checkPolicyInt at h
  simp only [hasItem, Json.pyIn, Dict.has, hv, Option.isSome_some, bind, Except.bind, if_true, getItem] at h
  exact validateRange_eq_nil.mp (pure_eq_ok.mp h)

/-- The timeout of a compiled plan is a number. -/
theorem Compiled.timeout {doc : Dict} {plan : Plan} (hc : Compiled doc plan) :
    ∃ n, (getItem (.obj plan.globalPolicy) "timeout_seconds" >>= Json.toInt) = .ok n := by
  obtain ⟨p, hp, hplan⟩ := hc.policy
  have hlookup : plan.globalPolicy.lookup "timeout_seconds" =
      some ((p.lookup "timeout_seconds").getD (.int 3600)) := by
    rw [hplan]
    simp [defaultPolicy, Dict.merge, List.lookup_cons]
  simp only [getItem, hlookup, bind, Except.bind]
  cases hv : p.lookup "timeout_seconds" with
  | none => exact ⟨3600, rfl⟩
  | some v =>
    unfold validatePolicy at hp
    obtain ⟨concurrency, -, hp⟩ := bind_eq_ok.mp hp
    obtain ⟨timeout, htimeout, hp⟩ := bind_eq_ok.mp hp
    obtain ⟨attempts, -, hp⟩ := bind_eq_ok.mp hp
    obtain ⟨start, -, hp⟩ := bind_eq_ok.mp hp
    obtain ⟨maximum, -, hp⟩ := bind_eq_ok.mp hp
    obtain ⟨error, -, hp⟩ := bind_eq_ok.mp hp
    obtain ⟨strategy, -, hp⟩ := bind_eq_ok.mp hp
    have hnil := pure_eq_ok.mp hp
    simp only [List.append_eq_nil_iff] at hnil
    obtain ⟨⟨⟨⟨⟨⟨-, rfl⟩, -⟩, -⟩, -⟩, -⟩, -⟩ := hnil
    obtain ⟨n, hn, -⟩ := checkPolicyInt_ok htimeout hv
    exact ⟨n, toInt_of_int? hn⟩

theorem Compiled.deadline {doc : Dict} {plan : Plan} (hc : Compiled doc plan) (ctx : ExecutionContext) :
    ∃ deadline, deadlineOf plan ctx = .ok deadline := by
  obtain ⟨n, hn⟩ := hc.timeout
  obtain ⟨v, hv, hn⟩ := bind_eq_ok.mp hn
  exact ⟨ctx.startedAt + seconds n, by simp [deadlineOf, hv, hn, bind, Except.bind, pure, Except.pure]⟩

/-- The delay of a compiled delay node is a number. -/
theorem Compiled.delay {doc : Dict} {plan : Plan} (hc : Compiled doc plan) {x : String} {node : Dict}
    (hl : plan.nodes.lookup x = some node) (ht : NodeType.ofJson? (node.get "type") = some .delay) :
    ∃ n, (getItem (.obj node) "delay_seconds" >>= Json.toInt) = .ok n := by
  obtain ⟨-, t, hok⟩ := hc.node hl
  obtain rfl := Option.some.inj (hok.type_eq.symm.trans ht)
  obtain ⟨path, check, hcheck, hnil⟩ := hok.branch
  obtain rfl := Except.ok.inj hcheck
  obtain ⟨n, hn, -⟩ := validateRange_eq_nil.mp hnil
  refine ⟨n, ?_⟩
  cases hv : node.lookup "delay_seconds" with
  | none => simp [Dict.get, hv, Json.int?] at hn
  | some v =>
    simp only [Dict.get, hv, Option.getD_some] at hn
    simp [getItem, hv, bind, Except.bind, toInt_of_int? hn]

/-- The limit of a compiled loop node is positive. -/
theorem Compiled.loopLimit {doc : Dict} {plan : Plan} (hc : Compiled doc plan) {x : String} {node : Dict}
    (hl : plan.nodes.lookup x = some node) (ht : NodeType.ofJson? (node.get "type") = some .loop) :
    ∃ limit, Workflows.loopLimit node = .ok limit ∧ 1 ≤ limit := by
  obtain ⟨-, t, hok⟩ := hc.node hl
  obtain rfl := Option.some.inj (hok.type_eq.symm.trans ht)
  obtain ⟨path, check, hcheck, hnil⟩ := hok.branch
  obtain rfl := Except.ok.inj hcheck
  obtain ⟨n, hn, hlow, -⟩ := validateRange_eq_nil.mp hnil
  refine ⟨min n maxLoopHard, ?_, le_min hlow (by decide)⟩
  unfold Workflows.loopLimit
  have hn' : (node.getD "max_iterations" (.int 1000)).toInt = .ok n := toInt_of_int? hn
  simp [hn', bind, Except.bind, pure, Except.pure]

/-! ## The enabled graph -/

/-- The branch that the outgoing edges of a node are tested with. -/
def enabledBranch (scope node : Dict) : Except PyError (Option Bool) :=
  match NodeType.ofJson? (node.get "type") with
  | some .condition => do return some (← evaluateCondition scope (node.getD "condition" (.obj [])))
  | _ => .ok none

/-- The targets of the edges of a node that are enabled in the scope. -/
def enabledEdges (plan : Plan) (scope : Dict) (x : String) : Except PyError (List String) :=
  match plan.nodes.lookup x with
  | none => .ok []
  | some node => do nextNodes plan x scope (← enabledBranch scope node)

/-- The same, empty where an edge cannot be evaluated. -/
def enabledNext (plan : Plan) (scope : Dict) (x : String) : List String :=
  match enabledEdges plan scope x with
  | .ok next => next
  | .error _ => []

/-- The node is an action of the plan. -/
def IsAction (plan : Plan) (x : String) : Prop := plan.typeOf x = some .action

instance (plan : Plan) (x : String) : Decidable (IsAction plan x) := inferInstanceAs (Decidable (_ = _))

section Graph

variable {doc scope : Dict} {plan : Plan} {x : String} {node : Dict}

theorem typeOf_of_lookup (hl : plan.nodes.lookup x = some node) :
    plan.typeOf x = NodeType.ofJson? (node.get "type") := by
  simp [Plan.typeOf, hl]

theorem enabledNext_of_ok {next : List String} (h : enabledEdges plan scope x = .ok next) :
    enabledNext plan scope x = next := by
  simp [enabledNext, h]

/-- Enabled edges are edges of the document. -/
theorem hasEdge_of_enabled (hc : Compiled doc plan) {y : String} (h : y ∈ enabledNext plan scope x) :
    HasEdge doc x y := by
  unfold enabledNext at h
  split at h
  · rename_i next hnext
    unfold enabledEdges at hnext
    split at hnext
    · obtain rfl := Except.ok.inj hnext
      cases h
    · obtain ⟨branch, -, hnext⟩ := bind_eq_ok.mp hnext
      exact hc.edge.mp (mem_follow hnext h)
  · cases h

theorem enabled_acyclic (hc : Compiled doc plan) (scope : Dict) :
    WellFounded (fun y x => y ∈ enabledNext plan scope x) :=
  Subrelation.wf (fun h => hasEdge_of_enabled hc h) hc.acyclic

/-- A node other than a condition follows its edges without a branch. -/
theorem nextNodes_of_enabled {next : List String} (hl : plan.nodes.lookup x = some node)
    (ht : NodeType.ofJson? (node.get "type") ≠ some .condition) (h : enabledEdges plan scope x = .ok next) :
    nextNodes plan x scope none = .ok next := by
  simp only [enabledEdges, hl] at h
  obtain ⟨branch, hb, h⟩ := bind_eq_ok.mp h
  unfold enabledBranch at hb
  split at hb
  · exact absurd ‹_› ht
  · obtain rfl := Except.ok.inj hb
    exact h

/-- A condition node follows them with the value of its condition. -/
theorem nextNodes_of_condition {next : List String} (hl : plan.nodes.lookup x = some node)
    (ht : NodeType.ofJson? (node.get "type") = some .condition) (h : enabledEdges plan scope x = .ok next) :
    ∃ passed, evaluateCondition scope (node.getD "condition" (.obj [])) = .ok passed ∧
      nextNodes plan x scope (some passed) = .ok next := by
  simp only [enabledEdges, hl] at h
  obtain ⟨branch, hb, h⟩ := bind_eq_ok.mp h
  simp only [enabledBranch, ht] at hb
  obtain ⟨passed, hpassed, hb⟩ := bind_eq_ok.mp hb
  obtain rfl := pure_eq_ok.mp hb
  exact ⟨passed, hpassed, h⟩

end Graph

/-! ## Calm turns -/

/-- Every action succeeds and leaves the context alone; no kill switch is engaged and the deadline is not
passed. -/
structure Calm {W : Type} (env : Env W) (deadline : Instant) : Prop where
  succeeds : ∀ action inputs ctx key w, ∃ output w',
    env.runAction action inputs ctx key w = (.returned output, ctx, w')
  reread : ∀ scope w, env.reread scope w = scope
  alive : ∀ ctx w, (env.killed ctx w).1 = false
  timely : ∀ w, (env.utcnow w).1 ≤ deadline

/-- The action nodes among the results that did not fail: what was run, in order. -/
def ranActions (plan : Plan) (results : List NodeResult) : List String :=
  (results.filter (fun r => decide (IsAction plan r.nodeId) && r.state != .failed)).map (·.nodeId)

/-- The turn that takes the node leaves a `NodeResult` for it: a subworkflow leaves none, a loop only beyond its
limit. -/
def LeavesResult {W : Type} (σ : Loop W) (x : String) (node : Dict) : Prop :=
  match NodeType.ofJson? (node.get "type") with
  | some .subworkflow => False
  | some .loop => ∀ limit, loopLimit node = .ok limit → limit ≤ (σ.loopCounts.lookup x).getD 0
  | _ => True

/-- The node taken from the queue can be processed: its condition and edges evaluate, an action has an
attempt, a loop that stops the run is within its limit, and the id of a node with a result fits its column. -/
structure Proceeds {W : Type} (plan : Plan) (scope : Dict) (σ : Loop W) (x : String) (node : Dict) : Prop where
  evaluates : ∃ next, enabledEdges plan scope x = .ok next
  attempts : NodeType.ofJson? (node.get "type") = some .action →
    ∃ n, maxAttempts plan.globalPolicy node = .ok n ∧ 1 ≤ n
  iterates : NodeType.ofJson? (node.get "type") = some .loop → plan.stops = true →
    ∀ limit, loopLimit node = .ok limit → (σ.loopCounts.lookup x).getD 0 < limit
  fits : LeavesResult σ x node → x.length ≤ 120

/-- The suspension at `x`, with `rest` still queued and `ran` already run, loses and repeats nothing: there is
a continuation, the actions that `rest` reaches have run or are reached by the continuation, and the
continuation reaches no action that has run. -/
structure Carries (plan : Plan) (scope : Dict) (ran : List String) (x : String) (rest : List String) : Prop where
  continues : enabledNext plan scope x ≠ []
  keeps : ∀ a, IsAction plan a → ReachedFrom (enabledNext plan scope) rest a →
    a ∈ ran ∨ ReachedFrom (enabledNext plan scope) (enabledNext plan scope x) a
  fresh : ∀ a ∈ ran, ¬ ReachedFrom (enabledNext plan scope) (enabledNext plan scope x) a

/-- The condition on a turn from `σ`, after segments that ran the actions `before`, in one that is closed at
`closedAt`. -/
def TurnOk {W : Type} (plan : Plan) (scope : Dict) (closedAt : Instant) (before : List String) (σ : Loop W) : Prop :=
  ∀ x rest node, σ.queue = x :: rest → plan.nodes.lookup x = some node →
    (x ∈ σ.visited → plan.typeOf x = some .loop) →
    Proceeds plan scope σ x node ∧
      (Suspends node → Carries plan scope (before ++ ranActions plan σ.results) x rest) ∧
      (NodeType.ofJson? (node.get "type") = some .approval → Requestable closedAt node)

/-- The loop variables as a traversal: a loop node leaves `visited`, but stays counted. -/
def Loop.front {W : Type} (plan : Plan) (σ : Loop W) : Front String :=
  ⟨σ.queue, {x | x ∈ σ.visited ∨ plan.typeOf x = some .loop ∧ (σ.loopCounts.lookup x).isSome = true},
    ranActions plan σ.results⟩

section Turns

variable {W : Type} {env : Env W} {doc scope : Dict} {plan : Plan} {x : String} {node : Dict} {σ : Loop W}
  {deadline closedAt : Instant} {before rest : List String}

theorem ranActions_append (results results' : List NodeResult) :
    ranActions plan (results ++ results') = ranActions plan results ++ ranActions plan results' := by
  simp [ranActions]

/-- The result of a node that is no action. -/
theorem ranActions_other {r : NodeResult} (h : ¬ IsAction plan r.nodeId) : ranActions plan [r] = [] := by
  simp [ranActions, h]

theorem ranActions_action {r : NodeResult} (h : IsAction plan r.nodeId) (hr : r.state ≠ .failed) :
    ranActions plan [r] = [r.nodeId] := by
  simp [ranActions, h, hr]

theorem not_isAction {t : NodeType} (hl : plan.nodes.lookup x = some node)
    (ht : NodeType.ofJson? (node.get "type") = some t) (hne : t ≠ .action) : ¬ IsAction plan x := by
  rw [IsAction, typeOf_of_lookup hl, ht]
  simpa using hne

/-- An action whose first attempt returns has not failed; a dry run skips it. -/
theorem runWithRetry_first {policy : Dict} {n : ℤ} (hn : maxAttempts policy node = .ok n) (hpos : 1 ≤ n)
    {ctx : ExecutionContext} {w : W} (hreturns : ∃ output w', env.runAction (node.get "action").text
      (node.getD "inputs" (.obj [])) ctx (actionIdempotencyKey ctx.executionId (node.get "id").text 1) w =
        (.returned output, ctx, w')) :
    ∃ result, (runWithRetry env policy node ctx w).result = .ok result ∧
      (runWithRetry env policy node ctx w).context = ctx ∧ result.nodeId = (node.get "id").text ∧
      result.state ≠ .failed ∧ result.attempt = 1 := by
  obtain ⟨m, hm⟩ : ∃ m, n.toNat = m + 1 := ⟨n.toNat - 1, by omega⟩
  simp only [runWithRetry, hn, hm, attemptLoop]
  by_cases hd : ctx.dryRun = true
  · exact ⟨_, by simp only [hd, if_true]; rfl, by simp only [hd, if_true], rfl, by simp, rfl⟩
  · obtain ⟨output, w', hrun⟩ := hreturns
    simp only [hd, Bool.false_eq_true, if_false, hrun]
    exact ⟨_, rfl, trivial, rfl, by simp, rfl⟩

/-- The turn that takes `x` from the queue. -/
theorem turn_calm (hcalm : Calm env deadline) (hq : σ.queue = x :: rest) : ∃ w,
    turn env plan deadline σ =
      if x ∈ σ.visited ∧ plan.typeOf x ≠ some .loop then .more { σ with queue := rest, world := w }
      else processNode env plan x { σ with queue := rest, world := w, visited := insertId σ.visited x } := by
  have halive := hcalm.alive σ.context σ.world
  have htimely := hcalm.timely (env.killed σ.context σ.world).2
  refine ⟨(env.utcnow (env.killed σ.context σ.world).2).2, ?_⟩
  unfold turn
  rw [hq]
  simp only [halive, Bool.false_eq_true, if_false, if_neg (not_lt.mpr htimely)]

theorem seen_insert (visited : List String) (x : String) (P : String → Prop) :
    {y | y ∈ insertId visited x ∨ P y} = insert x {y | y ∈ visited ∨ P y} := by
  ext y
  simp only [Set.mem_ofPred_eq, Set.mem_insert_iff, mem_insertId]
  tauto

/-- The front after a node that is no action was processed and followed by its edges. -/
theorem advance_expand {σ' : Loop W} (hq : σ.queue = x :: rest) (hquiet : ¬ IsAction plan x)
    (hqueue : σ'.queue = rest ++ enabledNext plan scope x) (hvisited : σ'.visited = insertId σ.visited x)
    (hcounts : σ'.loopCounts = σ.loopCounts)
    (hran : ranActions plan σ'.results = ranActions plan σ.results) :
    Front.Advance (enabledNext plan scope) (IsAction plan) (σ.front plan) (σ'.front plan) := by
  unfold Loop.front
  rw [hq, hqueue, hvisited, hcounts, hran, seen_insert]
  exact .expand hquiet

/-- The front after an action was run. -/
theorem advance_run {σ' : Loop W} (hq : σ.queue = x :: rest) (hruns : IsAction plan x) (hfresh : x ∉ σ.visited)
    (hqueue : σ'.queue = rest ++ enabledNext plan scope x) (hvisited : σ'.visited = insertId σ.visited x)
    (hcounts : σ'.loopCounts = σ.loopCounts)
    (hran : ranActions plan σ'.results = ranActions plan σ.results ++ [x]) :
    Front.Advance (enabledNext plan scope) (IsAction plan) (σ.front plan) (σ'.front plan) := by
  unfold Loop.front
  rw [hq, hqueue, hvisited, hcounts, hran, seen_insert]
  refine .run hruns ?_
  rintro (hv | ⟨ht, -⟩)
  · exact hfresh hv
  · rw [IsAction, ht] at hruns
    cases hruns

/-- The results with which a turn that took `x` ends can be stored if those before it could. -/
def KeepsStorable (σ : Loop W) (results : List NodeResult) : Prop :=
  σ.results.all NodeResult.storable = true → results.all NodeResult.storable = true

/-- One more result, of a node whose id fits, at its first attempt. -/
theorem keepsStorable_concat {r : NodeResult} (hid : r.nodeId.length ≤ 120) (hattempt : r.attempt = 1) :
    KeepsStorable σ (σ.results ++ [r]) := by
  intro h
  rw [List.all_append, h]
  simp [NodeResult.storable, hid, hattempt, Shared.cInt]

/-- The result of a turn that suspends at `x`. -/
structure SuspendedAt (plan : Plan) (scope : Dict) (σ : Loop W) (x : String) (node : Dict) (r : ExecutionResult) :
    Prop where
  suspends : Suspends node
  fits : x.length ≤ 120
  state : r.state = .waiting
  waits : r.waitingOn = some x
  next : r.resumeNodes = enabledNext plan scope x
  ran : ranActions plan r.nodes = ranActions plan σ.results
  stored : KeepsStorable σ r.nodes

/-- What a node does in a calm environment: it is followed by its enabled edges, or suspends. -/
inductive CalmNode (plan : Plan) (scope : Dict) (σ : Loop W) (x : String) (node : Dict)
    (t : Turn W) : Prop
  | advances (σ' : Loop W) (more : t = .more σ') (context : σ'.context = σ.context)
      (advance : Front.Advance (enabledNext plan scope) (IsAction plan) (σ.front plan) (σ'.front plan))
      (stored : KeepsStorable σ σ'.results)
  | suspends (r : ExecutionResult) (σ' : Loop W) (done : t = .done r σ') (suspended : SuspendedAt plan scope σ x node r)

/-- A loop node is seen once it is counted, whether or not it stays in `visited`. -/
theorem seen_counted {visited visited' : List String} {counts : List (String × ℤ)} {c : ℤ}
    (hloop : plan.typeOf x = some .loop) (hvisited : ∀ y, y ≠ x → (y ∈ visited' ↔ y ∈ visited)) :
    {y | y ∈ visited' ∨ plan.typeOf y = some .loop ∧ (((x, c) :: counts).lookup y).isSome = true} =
      insert x {y | y ∈ visited ∨ plan.typeOf y = some .loop ∧ (counts.lookup y).isSome = true} := by
  ext y
  simp only [Set.mem_ofPred_eq, Set.mem_insert_iff]
  by_cases hy : y = x
  · subst hy
    simp [hloop]
  · rw [List.lookup_cons, beq_false_of_ne hy, hvisited y hy]
    simp [hy]

/-- A node that is no action, followed by its edges. -/
theorem calm_extend {σ' : Loop W} {next : List String} (hq : σ.queue = x :: rest)
    (hnext : enabledEdges plan scope x = .ok next) (hquiet : ¬ IsAction plan x) (hqueue : σ'.queue = rest)
    (hvisited : σ'.visited = insertId σ.visited x) (hcounts : σ'.loopCounts = σ.loopCounts)
    (hcontext : σ'.context = σ.context) (hran : ranActions plan σ'.results = ranActions plan σ.results)
    (hstored : KeepsStorable σ σ'.results) : CalmNode plan scope σ x node (σ'.extend (.ok next)) := by
  refine .advances { σ' with queue := σ'.queue ++ next } rfl hcontext ?_ hstored
  exact advance_expand hq hquiet (by rw [hqueue, enabledNext_of_ok hnext]) hvisited hcounts hran

section Node

variable (hq : σ.queue = x :: rest) (hscope : scopeOf σ.context = scope)
  (hl : plan.nodes.lookup x = some node) (hp : Proceeds plan scope σ x node) (w : W)

include hq hscope hl hp

theorem calm_condition (ht : NodeType.ofJson? (node.get "type") = some .condition) :
    CalmNode plan scope σ x node (processCondition plan x node
      { σ with queue := rest, world := w, visited := insertId σ.visited x, ran := σ.ran ++ [x] }) := by
  obtain ⟨next, hnext⟩ := hp.evaluates
  obtain ⟨passed, hpassed, hfollow⟩ := nextNodes_of_condition hl ht hnext
  have hquiet := not_isAction hl ht (by decide)
  rw [← hscope] at hpassed hfollow
  simp only [processCondition, hpassed, hfollow]
  refine calm_extend hq hnext hquiet rfl rfl rfl rfl ?_ ?_
  · rw [Loop.addResult, ranActions_append, ranActions_other hquiet, List.append_nil]
  · exact keepsStorable_concat (hp.fits (by simp [LeavesResult, ht])) rfl

theorem calm_parallel (ht : NodeType.ofJson? (node.get "type") = some .parallel) :
    CalmNode plan scope σ x node (processParallel plan x node
      { σ with queue := rest, world := w, visited := insertId σ.visited x, ran := σ.ran ++ [x] }) := by
  obtain ⟨next, hnext⟩ := hp.evaluates
  have hfollow := nextNodes_of_enabled hl (by simp [ht]) hnext
  have hquiet := not_isAction hl ht (by decide)
  rw [← hscope] at hfollow
  simp only [processParallel, hfollow]
  refine calm_extend hq hnext hquiet rfl rfl rfl rfl ?_ ?_
  · rw [Loop.addResult, ranActions_append, ranActions_other hquiet, List.append_nil]
  · exact keepsStorable_concat (hp.fits (by simp [LeavesResult, ht])) rfl

theorem calm_subworkflow (ht : NodeType.ofJson? (node.get "type") = some .subworkflow) :
    CalmNode plan scope σ x node (Loop.extend
      { σ with queue := rest, world := w, visited := insertId σ.visited x, ran := σ.ran ++ [x] }
      (nextNodes plan x (scopeOf σ.context) none)) := by
  obtain ⟨next, hnext⟩ := hp.evaluates
  rw [hscope, nextNodes_of_enabled hl (by simp [ht]) hnext]
  exact calm_extend hq hnext (not_isAction hl ht (by decide)) rfl rfl rfl rfl rfl id

omit hq in
theorem calm_delay (hc : Compiled doc plan) (ht : NodeType.ofJson? (node.get "type") = some .delay) :
    CalmNode plan scope σ x node (processDelay env plan x node
      { σ with queue := rest, world := w, visited := insertId σ.visited x, ran := σ.ran ++ [x] }) := by
  obtain ⟨next, hnext⟩ := hp.evaluates
  obtain ⟨n, hn⟩ := hc.delay hl ht
  have hfollow := nextNodes_of_enabled hl (by simp [ht]) hnext
  have hquiet := not_isAction hl ht (by decide)
  rw [← hscope] at hfollow
  simp only [processDelay, hn, hfollow]
  have hfits : x.length ≤ 120 := hp.fits (by simp [LeavesResult, ht])
  refine .suspends _ _ rfl ⟨Or.inr ht, hfits, rfl, rfl, (enabledNext_of_ok hnext).symm, ?_, ?_⟩
  · simp only [Loop.suspended, Loop.addResult]
    rw [ranActions_append, ranActions_other hquiet, List.append_nil]
  · exact keepsStorable_concat hfits rfl

omit hq in
theorem calm_approval (ht : NodeType.ofJson? (node.get "type") = some .approval) :
    CalmNode plan scope σ x node (processApproval plan x
      { σ with queue := rest, world := w, visited := insertId σ.visited x, ran := σ.ran ++ [x] }) := by
  obtain ⟨next, hnext⟩ := hp.evaluates
  have hfollow := nextNodes_of_enabled hl (by simp [ht]) hnext
  have hquiet := not_isAction hl ht (by decide)
  rw [← hscope] at hfollow
  simp only [processApproval, hfollow]
  have hfits : x.length ≤ 120 := hp.fits (by simp [LeavesResult, ht])
  refine .suspends _ _ rfl ⟨Or.inl ht, hfits, rfl, rfl, (enabledNext_of_ok hnext).symm, ?_, ?_⟩
  · simp only [Loop.suspended, Loop.addResult]
    rw [ranActions_append, ranActions_other hquiet, List.append_nil]
  · exact keepsStorable_concat hfits rfl

theorem calm_action (hc : Compiled doc plan) (hcalm : Calm env deadline) (hnew : x ∉ σ.visited)
    (ht : NodeType.ofJson? (node.get "type") = some .action) :
    CalmNode plan scope σ x node (processAction env plan x node
      { σ with queue := rest, world := w, visited := insertId σ.visited x, ran := σ.ran ++ [x] }) := by
  obtain ⟨next, hnext⟩ := hp.evaluates
  obtain ⟨n, hn, hpos⟩ := hp.attempts ht
  obtain ⟨result, hresult, hcontext, hid, hstate, hattempt⟩ :=
    @runWithRetry_first W env node plan.globalPolicy n hn hpos σ.context w (hcalm.succeeds _ _ _ _ _)
  have hfollow := nextNodes_of_enabled hl (by simp [ht]) hnext
  have hruns : IsAction plan x := by rw [IsAction, typeOf_of_lookup hl, ht]
  have hname : result.nodeId = x := by rw [hid, (hc.node hl).1.2]; rfl
  rw [← hscope] at hfollow
  simp only [processAction, hresult, hcontext, hcalm.reread, hstate, false_and, if_false, hfollow]
  refine .advances _ rfl rfl ?_ ?_
  · refine advance_run hq hruns hnew (by simp [recordAction, enabledNext_of_ok hnext]) rfl rfl ?_
    simp only [recordAction, ranActions_append]
    rw [ranActions_action (by rw [hname]; exact hruns) hstate, hname]
  · exact keepsStorable_concat (hname ▸ hp.fits (by simp [LeavesResult, ht])) hattempt

/-- A loop within its limit is followed by its edges; beyond it, it was expanded before. -/
theorem calm_loop (hc : Compiled doc plan) (ht : NodeType.ofJson? (node.get "type") = some .loop) :
    CalmNode plan scope σ x node (processLoop plan x node
      { σ with queue := rest, world := w, visited := insertId σ.visited x, ran := σ.ran ++ [x] }) := by
  obtain ⟨next, hnext⟩ := hp.evaluates
  obtain ⟨limit, hlimit, hpos⟩ := hc.loopLimit hl ht
  have hfollow := nextNodes_of_enabled hl (by simp [ht]) hnext
  have hquiet := not_isAction hl ht (by decide)
  have hloop : plan.typeOf x = some .loop := by rw [typeOf_of_lookup hl, ht]
  have hinsert : ∀ y, y ≠ x → (y ∈ insertId σ.visited x ↔ y ∈ σ.visited) := by
    intro y hy
    simp [mem_insertId, hy]
  have hfilter : ∀ y, y ≠ x → (y ∈ (insertId σ.visited x).filter (· != x) ↔ y ∈ σ.visited) := by
    intro y hy
    simp [mem_insertId, hy]
  rw [← hscope] at hfollow
  simp only [processLoop, hlimit]
  by_cases hover : limit < (σ.loopCounts.lookup x).getD 0 + 1
  · have hgo : plan.stops = false := by
      by_contra hstops
      have := hp.iterates ht (by simpa using hstops) limit hlimit
      omega
    have hcounted : (σ.loopCounts.lookup x).isSome = true := by
      cases hcount : σ.loopCounts.lookup x with
      | none => rw [hcount, Option.getD_none] at hover; omega
      | some c => rfl
    simp only [if_pos hover, hgo, Bool.false_eq_true, if_false]
    have hrecords : LeavesResult σ x node := by
      simp only [LeavesResult, ht]
      intro limit' hlimit'
      obtain rfl := Except.ok.inj (hlimit.symm.trans hlimit')
      omega
    refine .advances _ rfl rfl ?_ (keepsStorable_concat (hp.fits hrecords) rfl)
    have hseen : x ∈ (σ.front plan).seen := Or.inr ⟨hloop, hcounted⟩
    simp only [Loop.front, Loop.addResult, hq] at hseen ⊢
    rw [seen_counted hloop hinsert, ranActions_append, ranActions_other hquiet, List.append_nil,
      Set.insert_eq_of_mem hseen]
    exact .skip hseen
  · simp only [if_neg hover, hfollow]
    refine .advances _ rfl rfl ?_ id
    simp only [Loop.front, hq, ← enabledNext_of_ok hnext]
    rw [seen_counted hloop hfilter]
    exact .expand hquiet

end Node

/-- **One turn** in a calm environment. -/
theorem calm_turn (hc : Compiled doc plan) (hcalm : Calm env deadline) (hscope : scopeOf σ.context = scope)
    (hok : TurnOk plan scope closedAt before σ) (hq : σ.queue = x :: rest) :
    (∃ σ', turn env plan deadline σ = .more σ' ∧ σ'.context = σ.context ∧
      Front.Advance (enabledNext plan scope) (IsAction plan) (σ.front plan) (σ'.front plan) ∧
      KeepsStorable σ σ'.results) ∨
    ∃ node r σ', plan.nodes.lookup x = some node ∧
      (NodeType.ofJson? (node.get "type") = some .approval → Requestable closedAt node) ∧
      Carries plan scope (before ++ ranActions plan σ.results) x rest ∧
      turn env plan deadline σ = .done r σ' ∧ SuspendedAt plan scope σ x node r := by
  obtain ⟨w, hturn⟩ := @turn_calm W env plan x σ deadline rest hcalm hq
  rw [hturn]
  split_ifs with hskip
  · refine Or.inl ⟨_, rfl, rfl, ?_, id⟩
    simp only [Loop.front, hq]
    exact .skip (Or.inl hskip.1)
  have hnew : x ∈ σ.visited → plan.typeOf x = some .loop := fun hv => by
    by_contra hne
    exact hskip ⟨hv, hne⟩
  cases hl : plan.nodes.lookup x with
  | none =>
    have hnext : enabledEdges plan scope x = .ok [] := by simp [enabledEdges, hl]
    have hquiet : ¬ IsAction plan x := by simp [IsAction, Plan.typeOf, hl]
    refine Or.inl ⟨{ σ with queue := rest, world := w, visited := insertId σ.visited x },
      by simp only [processNode, hl], rfl, ?_, id⟩
    exact advance_expand hq hquiet (by rw [enabledNext_of_ok hnext, List.append_nil]) rfl rfl rfl
  | some node =>
    obtain ⟨hp, hcarry, hask⟩ := hok x rest node hq hl hnew
    obtain ⟨t, hok⟩ := (hc.node hl).2
    have ht := hok.type_eq
    have hnode : CalmNode plan scope σ x node (processNode env plan x
        { σ with queue := rest, world := w, visited := insertId σ.visited x }) := by
      simp only [processNode, hl]
      rw [typeOf_of_lookup hl, ht] at hnew
      cases t with
      | condition => simpa only [ht, Loop.enter] using calm_condition hq hscope hl hp w ht
      | action =>
        have hfresh : x ∉ σ.visited := fun hv => by cases hnew hv
        simpa only [ht, Loop.enter] using calm_action hq hscope hl hp w hc hcalm hfresh ht
      | delay => simpa only [ht, Loop.enter] using calm_delay hscope hl hp w hc ht
      | approval => simpa only [ht, Loop.enter] using calm_approval hscope hl hp w ht
      | subworkflow => simpa only [ht, Loop.enter] using calm_subworkflow hq hscope hl hp w ht
      | parallel => simpa only [ht, Loop.enter] using calm_parallel hq hscope hl hp w ht
      | loop => simpa only [ht, Loop.enter] using calm_loop hq hscope hl hp w hc ht
    cases hnode with
    | advances σ' more context advance stored => exact Or.inl ⟨σ', more, context, advance, stored⟩
    | suspends r σ' done suspended =>
      exact Or.inr ⟨node, r, σ', rfl, hask, hcarry suspended.suspends, done, suspended⟩

/-! ## Segments -/

theorem runTurns_succ (deadline : Instant) : ∀ (n : ℕ) (σ : Loop W), runTurns env plan deadline (n + 1) σ =
    match runTurns env plan deadline n σ with
    | .more σ' => turn env plan deadline σ'
    | t => t
  | 0, σ => by
    rw [runTurns, runTurns]
    split <;> simp_all [runTurns]
  | n + 1, σ => by
    rw [runTurns]
    cases ht : turn env plan deadline σ with
    | more σ' =>
      simp only
      rw [runTurns_succ deadline n σ', runTurns, ht]
    | done r σ' => simp [runTurns, ht]
    | raised e σ' => simp [runTurns, ht]

/-- More turns change nothing once the loop has returned. -/
theorem runTurns_mono {deadline : Instant} {σ σ' : Loop W} {r : ExecutionResult} {n m : ℕ} (hnm : n ≤ m)
    (h : runTurns env plan deadline n σ = .done r σ') : runTurns env plan deadline m σ = .done r σ' := by
  induction hnm with
  | refl => exact h
  | step _ ih => rw [runTurns_succ, ih]

end Turns

/-- The segment ran every action that `roots` reach, once, and completed. -/
structure Completes (plan : Plan) (scope : Dict) (roots : List String) (r : ExecutionResult) : Prop where
  state : r.state = .completed
  waits : r.waitingOn = none
  stored : r.nodes.all NodeResult.storable = true
  once : (ranActions plan r.nodes).Nodup
  ran : ∀ a, a ∈ ranActions plan r.nodes ↔ IsAction plan a ∧ ReachedFrom (enabledNext plan scope) roots a

/-- The segment suspended at `x`, with what it leaves to store, and its continuation carries on where it stopped. -/
structure Pauses (plan : Plan) (scope : Dict) (closedAt : Instant) (roots before : List String) (r : ExecutionResult)
    (x : String) : Prop where
  state : r.state = .waiting
  waits : r.waitingOn = some x
  stored : r.nodes.all NodeResult.storable = true
  fits : x.length ≤ 120
  known : ∃ node, plan.nodes.lookup x = some node ∧
    (NodeType.ofJson? (node.get "type") = some .approval → Requestable closedAt node)
  next : r.resumeNodes = enabledNext plan scope x
  reached : ReachedFrom (enabledNext plan scope) roots x
  once : (ranActions plan r.nodes).Nodup
  sound : ∀ a ∈ ranActions plan r.nodes, IsAction plan a ∧ ReachedFrom (enabledNext plan scope) roots a
  covered : ∀ a, IsAction plan a → ReachedFrom (enabledNext plan scope) roots a →
    a ∈ before ++ ranActions plan r.nodes ∨
      ReachedFrom (enabledNext plan scope) (enabledNext plan scope x) a
  continues : enabledNext plan scope x ≠ []
  fresh : ∀ a ∈ before ++ ranActions plan r.nodes,
    ¬ ReachedFrom (enabledNext plan scope) (enabledNext plan scope x) a

section Segments

variable {W : Type} {env : Env W} {doc scope : Dict} {plan : Plan} {deadline closedAt : Instant}
  {roots before : List String}

theorem completes_of_front {σ : Loop W}
    (h : Front.Sound (enabledNext plan scope) (IsAction plan) roots (σ.front plan))
    (hstored : σ.results.all NodeResult.storable = true) (hq : σ.queue = []) :
    Completes plan scope roots (σ.result .completed []) :=
  ⟨rfl, rfl, hstored, h.once, h.finished hq⟩

theorem pauses_of_front {σ : Loop W} {x : String} {rest : List String} {node : Dict} {r : ExecutionResult}
    (h : Front.Sound (enabledNext plan scope) (IsAction plan) roots (σ.front plan))
    (hstored : σ.results.all NodeResult.storable = true) (hq : σ.queue = x :: rest)
    (hl : plan.nodes.lookup x = some node)
    (hask : NodeType.ofJson? (node.get "type") = some .approval → Requestable closedAt node)
    (hcarry : Carries plan scope (before ++ ranActions plan σ.results) x rest)
    (hs : SuspendedAt plan scope σ x node r) : Pauses plan scope closedAt roots before r x := by
  have hquiet : ¬ IsAction plan x := by
    rcases hs.suspends with ht | ht
    · exact not_isAction hl ht (by decide)
    · exact not_isAction hl ht (by decide)
  have hxq : x ∈ (σ.front plan).queue := by simp [Loop.front, hq]
  have hran := hs.ran
  refine ⟨hs.state, hs.waits, hs.stored hstored, hs.fits, ⟨node, hl, hask⟩, hs.next, h.reached x (Or.inr hxq),
    hran ▸ h.once, ?_, ?_, hcarry.continues, hran ▸ hcarry.fresh⟩
  · intro a ha
    rw [hran] at ha
    obtain ⟨hseen, hact⟩ := (h.logged a).mp ha
    exact ⟨hact, h.reached a (Or.inl hseen)⟩
  · intro a hact hreach
    rw [hran]
    rcases h.cover hreach with hseen | ⟨q, hqueue, hqa⟩
    · exact Or.inl (List.mem_append_right _ ((h.logged a).mpr ⟨hseen, hact⟩))
    · -- from `x` itself only through its successors, for it is no action
      simp only [Loop.front, hq, List.mem_cons] at hqueue
      rcases hqueue with rfl | hrest
      · rcases Relation.ReflTransGen.cases_head hqa with rfl | ⟨y, hy, hya⟩
        · exact absurd hact hquiet
        · exact Or.inr ⟨y, hy, hya⟩
      · exact hcarry.keeps a hact ⟨q, hrest, hqa⟩

/-- **A segment** whose turns all meet the condition completes or pauses. -/
theorem segment_outcome (hc : Compiled doc plan) (hcalm : Calm env deadline) {σ₀ : Loop W}
    (hscope : scopeOf σ₀.context = scope)
    (hstart : Front.Sound (enabledNext plan scope) (IsAction plan) roots (σ₀.front plan)) (hempty : σ₀.results = [])
    (hok : ∀ i σ, runTurns env plan deadline i σ₀ = .more σ → TurnOk plan scope closedAt before σ) :
    ∃ i r σ, runTurns env plan deadline i σ₀ = .done r σ ∧
      (Completes plan scope roots r ∨ ∃ x, Pauses plan scope closedAt roots before r x) := by
  obtain ⟨wt, hwt⟩ := exists_weight (enabled_acyclic hc scope)
  -- every turn makes the queue lighter, so induct on a bound of its weight
  have hrun : ∀ (m i : ℕ) (σ : Loop W), (σ.front plan).weight wt < m →
      runTurns env plan deadline i σ₀ = .more σ → scopeOf σ.context = scope →
      Front.Sound (enabledNext plan scope) (IsAction plan) roots (σ.front plan) →
      σ.results.all NodeResult.storable = true →
      ∃ i r σ, runTurns env plan deadline i σ₀ = .done r σ ∧
        (Completes plan scope roots r ∨ ∃ x, Pauses plan scope closedAt roots before r x) := by
    intro m
    induction m with
    | zero => exact fun i σ hm => absurd hm (Nat.not_lt_zero _)
    | succ m ih =>
      intro i σ hm hi hctx hsound hstored
      have hsucc := @runTurns_succ W env plan deadline i σ₀
      rw [hi] at hsucc
      cases hq : σ.queue with
      | nil =>
        have hdone : turn env plan deadline σ = .done (σ.result .completed []) σ := by simp [turn, hq]
        exact ⟨i + 1, _, σ, hsucc.trans hdone, Or.inl (completes_of_front hsound hstored hq)⟩
      | cons x rest =>
        rcases calm_turn hc hcalm hctx (hok i σ hi) hq with
          ⟨σ', hmore, hcontext, hadv, hkeeps⟩ | ⟨node, r, σ', hl, hask, hcarry, hdone, hs⟩
        · refine ih (i + 1) σ' ?_ (hsucc.trans hmore) (hcontext ▸ hctx) (hsound.advance hadv) (hkeeps hstored)
          have := hadv.weight_lt hwt
          omega
        · exact ⟨i + 1, r, σ', hsucc.trans hdone,
            Or.inr ⟨x, pauses_of_front hsound hstored hq hl hask hcarry hs⟩⟩
  exact hrun _ 0 σ₀ (Nat.lt_succ_self _) rfl hscope hstart (by rw [hempty]; rfl)

end Segments

end RevenueOS.Workflows
