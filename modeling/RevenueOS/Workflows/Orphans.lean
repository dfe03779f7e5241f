import RevenueOS.Workflows.Graph
import RevenueOS.Workflows.Worklist
import RevenueOS.Workflows.Enabled

/-!
# RevenueOS.Workflows.Orphans — the nodes that the validator calls unreachable

`_unreachable_nodes` searches from one root, the first in the order of the ids; the engine starts from every root, in
the order of the document.  So what the warning names is processed, unless there is one root only, or the run ends with
the first node that it takes.

* `mem_unreachable`: what is reported: the nodes that the least root does not lead to.
* `Passes`: a run can get past a node.
* `orphans_never_processed_iff`: when the warning is true of every run.
-/

namespace RevenueOS.Workflows

open RevenueOS.Py RevenueOS.Lib Relation

variable {W : Type}

/-! ## What is reported -/

section Reported

variable {py : Interpreter} {doc : Dict} {plan : Plan}

theorem foldl_insertId_of_nodup : ∀ (l ids : List String), (ids ++ l).Nodup → l.foldl insertId ids = ids ++ l := by
  intro l
  induction l with
  | nil => exact fun ids _ => (List.append_nil ids).symm
  | cons x l ih =>
    intro ids h
    have hfresh : x ∉ ids := fun hx =>
      (List.nodup_append.mp h).2.2 x hx x List.mem_cons_self rfl
    have hinsert : insertId ids x = ids ++ [x] := if_neg hfresh
    rw [List.foldl_cons, hinsert, ih (ids ++ [x]) (by rwa [List.append_assoc]), List.append_assoc]
    rfl

/-- `str(n.get("id"))` of the nodes of a compiled document. -/
theorem Compiled.documentIds (hc : Compiled doc plan) :
    (plan.nodes.map (·.2)).filterMap (fun n =>
      if (Dict.get n "id").truthy then some (Dict.get n "id").text else none) = plan.nodes.map (·.1) := by
  have hnode : ∀ p ∈ plan.nodes,
      (if (Dict.get p.2 "id").truthy then some (Dict.get p.2 "id").text else none) = some p.1 := by
    intro p hp
    obtain ⟨-, t, hok⟩ := hc.node (lookup_of_mem hc.ids_nodup hp)
    have htruthy : (Json.str p.1).truthy = true := by
      show (!decide (p.1 = "")) = true
      rw [decide_eq_false hok.id_ne]
      rfl
    rw [hok.id_eq, if_pos htruthy]
    rfl
  rw [List.filterMap_map, ← List.filterMap_eq_map]
  exact List.filterMap_congr hnode

/-- The root that the validator searches from. -/
structure LeastRoot (plan : Plan) (root : String) : Prop where
  mem : root ∈ plan.entryNodes
  least : ∀ r ∈ plan.entryNodes, root ≤ r

theorem asDict_objects (nodes : List Dict) : (nodes.map Json.obj).mapM Json.asDict = .ok nodes := by
  induction nodes with
  | nil => rfl
  | cons n nodes ih =>
    rw [List.map_cons, List.mapM_cons, ih]
    rfl

/-- The ends of the edges that the compiler reads. -/
theorem edgeEnds_of_planEdge : ∀ {es : List Json} {edges : List (String × PlanEdge)}, es.mapM planEdge = .ok edges →
    es.mapM edgeEnds = .ok (edges.map fun e => (e.1, e.2.target)) := by
  intro es
  induction es with
  | nil =>
    intro edges h
    obtain rfl := pure_eq_ok.mp h
    rfl
  | cons e es ih =>
    intro edges h
    rw [List.mapM_cons] at h
    obtain ⟨p, hp, h⟩ := bind_eq_ok.mp h
    obtain ⟨ps, hps, h⟩ := bind_eq_ok.mp h
    obtain rfl := pure_eq_ok.mp h
    rw [List.mapM_cons, planEdge_ok hp, ih hps]
    rfl

theorem leastRoot_of_sort {root : String} {others : List String}
    (hsort : plan.entryNodes.insertionSort (· ≤ ·) = root :: others) : LeastRoot plan root := by
  have hsorted := List.pairwise_insertionSort (α := String) (· ≤ ·) plan.entryNodes
  rw [hsort] at hsorted
  refine ⟨(List.mem_insertionSort (· ≤ ·)).mp (hsort ▸ List.mem_cons_self), fun r hr => ?_⟩
  rcases List.mem_cons.mp (hsort ▸ (List.mem_insertionSort (· ≤ ·)).mpr hr) with rfl | hr
  · exact le_rfl
  · exact List.rel_of_pairwise_cons hsorted hr

/-- The adjacency of the validator: the targets of a node that is there. -/
def targetsIn (ids : List String) (pairs : List (String × String)) (u : String) : List String :=
  if ids.contains u then (pairs.filter (fun p => p.1 == u)).map (·.2) else []

theorem length_targetsIn_le (ids : List String) (pairs : List (String × String)) (u : String) :
    (targetsIn ids pairs u).length ≤ pairs.countP fun p => p.1 = u := by
  unfold targetsIn
  split_ifs
  · rw [List.length_map, List.countP_eq_length_filter]
    exact le_of_eq (congrArg List.length (List.filter_congr fun p _ => by rw [beq_eq_decide]))
  · exact Nat.zero_le _

/-- It is that of the plan. -/
theorem Compiled.mem_targetsIn (hc : Compiled doc plan) {edges : List (String × PlanEdge)}
    (hadjacency : plan.adjacency = groupEdges edges) {u v : String} :
    v ∈ targetsIn (plan.nodes.map (·.1)) (edges.map fun e => (e.1, e.2.target)) u ↔ plan.Leads u v := by
  unfold targetsIn
  constructor
  · intro hv
    split_ifs at hv
    · obtain ⟨p, hp, rfl⟩ := List.mem_map.mp hv
      obtain ⟨hp, hsource⟩ := List.mem_filter.mp hp
      obtain ⟨⟨source, e⟩, he, rfl⟩ := List.mem_map.mp hp
      obtain rfl : source = u := beq_iff_eq.mp hsource
      refine ⟨e, ?_, rfl⟩
      rw [Plan.edgesFrom, hadjacency]
      exact mem_groupEdges.mpr he
    · cases hv
  · intro hleads
    rw [if_pos (List.contains_iff_mem.mpr (hc.edge_known (hc.edge.mp hleads)).1)]
    obtain ⟨e, he, rfl⟩ := hleads
    rw [Plan.edgesFrom, hadjacency] at he
    exact List.mem_map.mpr ⟨(u, e.target), List.mem_filter.mpr
      ⟨List.mem_map.mpr ⟨(u, e), mem_groupEdges.mp he, rfl⟩, beq_self_eq_true u⟩, rfl⟩

/-- **What is reported**: the nodes that the least root does not lead to. -/
theorem mem_unreachable (h : compileWorkflow py doc = .ok plan) : ∃ root reported, LeastRoot plan root ∧
    unreachableNodes (documentNodes doc).1 (documentEdges doc) = .ok reported ∧
      ∀ x, x ∈ reported ↔ x ∈ plan.nodes.map (·.1) ∧ ¬ReflTransGen plan.Leads root x := by
  have hc := compileWorkflow_ok h
  obtain ⟨report, -, -, hbuild⟩ := compileWorkflow_eq_ok.mp h
  obtain ⟨edges, -, hedges, -, -, -, -, hadjacency, hentry⟩ := buildPlan_parts hbuild
  let pairs := edges.map fun e => (e.1, e.2.target)
  have hnodes : (documentNodes doc).1 = (plan.nodes.map (·.2)).map Json.obj := by
    rw [hc.document, List.map_map]
    rfl
  have hids : (plan.nodes.map (·.1)).foldl insertId [] = plan.nodes.map (·.1) :=
    foldl_insertId_of_nodup _ [] hc.ids_nodup
  have htargets : pairs.map (·.2) = edges.map fun e => e.2.target := by rw [List.map_map]; rfl
  have hroots : (plan.nodes.map (·.1)).filter (fun x => !(pairs.map (·.2)).contains x) = plan.entryNodes := by
    rw [hentry, htargets]
  have hsome : (plan.nodes.map (·.1)).isEmpty = false := by
    rw [List.isEmpty_eq_false_iff]
    exact fun hnil => nodes_ne_nil h (List.map_eq_nil_iff.mp hnil)
  cases hsort : plan.entryNodes.insertionSort (· ≤ ·) with
  | nil =>
    have hlength := List.length_insertionSort (· ≤ ·) plan.entryNodes
    rw [hsort] at hlength
    exact absurd (List.eq_nil_of_length_eq_zero hlength.symm) (entryNodes_ne_nil h)
  | cons root others =>
    let reachable := stackReach (targetsIn (plan.nodes.map (·.1)) pairs) (2 * pairs.length + 2) [] [root]
    refine ⟨root, (plan.nodes.map (·.1)).filter (fun x => !reachable.contains x), leastRoot_of_sort hsort, ?_,
      fun x => ?_⟩
    · unfold unreachableNodes
      rw [hnodes, asDict_objects, edgeEnds_of_planEdge hedges]
      dsimp only [bind, Except.bind]
      rw [hc.documentIds, hids, hsome, hroots, hsort]
      rfl
    · have hnext : (fun u v => v ∈ targetsIn (plan.nodes.map (·.1)) pairs u) = plan.Leads := by
        funext u v
        exact propext (hc.mem_targetsIn hadjacency)
      have hreach : x ∈ reachable ↔ ReflTransGen plan.Leads root x := by
        rw [← hnext]
        exact mem_stackReach_iff (length_targetsIn_le _ pairs) (by omega)
      rw [List.mem_filter, ← hreach, Bool.not_eq_true', ← Bool.not_eq_true, List.contains_iff_mem]

end Reported

/-! ## Getting past a node -/

/-- A run can get past the node `x`, when it is the first that the run takes. -/
def Passes (plan : Plan) (ctx : ExecutionContext) (x : String) (node : Dict) : Prop :=
  match NodeType.ofJson? (node.get "type") with
  | some .delay => False
  | some .approval => False
  -- the scope in which the edges are tested may have been changed by the runner
  | some .action => (∃ n, maxAttempts plan.globalPolicy node = .ok n ∧ (1 ≤ n ∨ plan.stops = false)) ∧
      ∃ scope next, nextNodes plan x scope none = .ok next
  | _ => ∃ next, enabledEdges plan (scopeOf ctx) x = .ok next

section Passing

variable {env : Env W} {plan : Plan} {deadline : Instant} {σ σ' : Loop W} {x y : String} {node : Dict} {doc : Dict}

/-- The edges of a node are enabled as they are followed. -/
theorem enabledEdges_of_next {scope : Dict} {branch : Option Bool} {next : List String}
    (hl : plan.nodes.lookup x = some node) (hb : enabledBranch scope node = .ok branch)
    (h : nextNodes plan x scope branch = .ok next) : enabledEdges plan scope x = .ok next := by
  simp only [enabledEdges, hl, hb, bind, Except.bind]
  exact h

theorem enabledBranch_none {scope : Dict} (ht : NodeType.ofJson? (node.get "type") ≠ some .condition) :
    enabledBranch scope node = .ok none := by
  unfold enabledBranch
  split
  · next h => exact absurd h ht
  · rfl

/-- An action after which the run goes on. -/
theorem processAction_passes (h : processAction env plan x node σ = .more σ') :
    (∃ n, maxAttempts plan.globalPolicy node = .ok n ∧ (1 ≤ n ∨ plan.stops = false)) ∧
      ∃ scope next, nextNodes plan x scope none = .ok next := by
  unfold processAction at h
  dsimp only at h
  split at h
  · cases h
  · next result hresult =>
    split_ifs at h with hstop
    obtain ⟨next, hnext, -⟩ := extend_eq_more.mp h
    refine ⟨?_, _, next, hnext⟩
    unfold runWithRetry at hresult
    split at hresult
    · cases hresult
    · next n hn =>
      refine ⟨n, hn, ?_⟩
      by_contra hno
      obtain ⟨hpos, hstops⟩ := not_or.mp hno
      -- without an attempt the action has failed
      have hzero : n.toNat = 0 := by omega
      rw [hzero] at hresult
      obtain rfl := Except.ok.inj hresult
      exact hstop ⟨rfl, Bool.not_eq_false _ ▸ hstops⟩

theorem passes_of_more (hc : Compiled doc plan) (hl : plan.nodes.lookup x = some node)
    (hcounts : plan.typeOf x = some .loop → σ.loopCounts = []) (h : processNode env plan x σ = .more σ') :
    Passes plan σ.context x node := by
  obtain ⟨-, t, hok⟩ := hc.node hl
  have ht := hok.type_eq
  simp only [processNode, hl, ht] at h
  unfold Passes
  rw [ht]
  cases t with
  | delay => exact absurd h processDelay_not_more
  | approval => exact absurd h processApproval_not_more
  | action => exact processAction_passes h
  | condition =>
    replace h : processCondition plan x node (σ.enter x) = .more σ' := h
    unfold processCondition at h
    split at h
    · cases h
    · next passed hpassed =>
      obtain ⟨next, hnext, -⟩ := extend_eq_more.mp h
      refine ⟨next, enabledEdges_of_next hl ?_ hnext⟩
      simp only [Loop.enter] at hpassed
      simp only [enabledBranch, ht, hpassed]
      rfl
  | parallel =>
    obtain ⟨next, hnext, -⟩ := extend_eq_more.mp h
    exact ⟨next, enabledEdges_of_next hl (enabledBranch_none (by rw [ht]; decide)) hnext⟩
  | subworkflow =>
    obtain ⟨next, hnext, -⟩ := extend_eq_more.mp h
    exact ⟨next, enabledEdges_of_next hl (enabledBranch_none (by rw [ht]; decide)) hnext⟩
  | loop =>
    obtain ⟨limit, hlimit, hpos⟩ := hc.loopLimit hl ht
    have hcount : (σ.loopCounts.lookup x).getD 0 = 0 := by rw [hcounts ((typeOf_of_lookup hl).trans ht)]; rfl
    replace h : processLoop plan x node (σ.enter x) = .more σ' := h
    unfold processLoop at h
    simp only [Loop.enter, hlimit, hcount] at h
    rw [if_neg (by omega)] at h
    obtain ⟨next, hnext, -⟩ := extend_eq_more.mp h
    exact ⟨next, enabledEdges_of_next hl (enabledBranch_none (by rw [ht]; decide)) hnext⟩

/-- An environment in which actions succeed at once and leave `scope` for the edges. -/
def leavingEnv (deadline : Instant) (scope : Dict) : Env Unit where
  runAction _ _ ctx _ w := (.returned [], ctx, w)
  reread _ _ := scope
  killCheck := none
  persistNode := none
  utcnow w := (deadline, w)
  isoformat _ := ""

theorem runWithRetry_leaving {scope policy : Dict} {n : ℤ} {ctx : ExecutionContext}
    (hn : maxAttempts policy node = .ok n) : ∃ result,
      (runWithRetry (leavingEnv deadline scope) policy node ctx ()).result = .ok result ∧
        (1 ≤ n → result.state ≠ .failed) := by
  by_cases hpos : 1 ≤ n
  · obtain ⟨result, hresult, -, -, hstate⟩ :=
      @runWithRetry_first Unit (leavingEnv deadline scope) node policy n hn hpos ctx () ⟨_, _, rfl⟩
    exact ⟨result, hresult, fun _ => hstate.1⟩
  · have hnone : n.toNat = 0 := by omega
    simp only [runWithRetry, hn, hnone]
    exact ⟨_, rfl, fun h => absurd h hpos⟩

/-- What can be passed is passed in such an environment. -/
theorem more_of_passes {σ : Loop Unit} (hc : Compiled doc plan) (hl : plan.nodes.lookup x = some node)
    (hcounts : σ.loopCounts = []) (h : Passes plan σ.context x node) :
    ∃ scope σ', processNode (leavingEnv deadline scope) plan x σ = .more σ' := by
  obtain ⟨-, t, hok⟩ := hc.node hl
  have ht := hok.type_eq
  unfold Passes at h
  rw [ht] at h
  simp only [processNode, hl, ht]
  cases t with
  | delay => exact h.elim
  | approval => exact h.elim
  | action =>
    obtain ⟨⟨n, hn, hgo⟩, scope, next, hnext⟩ := h
    obtain ⟨result, hresult, hstate⟩ := @runWithRetry_leaving deadline node scope plan.globalPolicy n σ.context hn
    have hstop : ¬(result.state = .failed ∧ plan.stops = true) := by
      rintro ⟨hfailed, hstops⟩
      rcases hgo with hpos | hgo
      · exact hstate hpos hfailed
      · rw [hgo] at hstops
        cases hstops
    refine ⟨scope, ?_⟩
    unfold processAction
    simp only [Loop.enter, hresult, if_neg hstop]
    exact ⟨_, extend_eq_more.mpr ⟨next, hnext, rfl⟩⟩
  | condition =>
    obtain ⟨next, hnext⟩ := h
    obtain ⟨passed, hpassed, hfollow⟩ := nextNodes_of_condition hl ht hnext
    refine ⟨[], ?_⟩
    simp only [processCondition, Loop.enter, hpassed]
    exact ⟨_, extend_eq_more.mpr ⟨next, hfollow, rfl⟩⟩
  | parallel =>
    obtain ⟨next, hnext⟩ := h
    have hfollow := nextNodes_of_enabled hl (by rw [ht]; decide) hnext
    exact ⟨[], _, extend_eq_more.mpr ⟨next, hfollow, rfl⟩⟩
  | subworkflow =>
    obtain ⟨next, hnext⟩ := h
    have hfollow := nextNodes_of_enabled hl (by rw [ht]; decide) hnext
    exact ⟨[], _, extend_eq_more.mpr ⟨next, hfollow, rfl⟩⟩
  | loop =>
    obtain ⟨next, hnext⟩ := h
    have hfollow := nextNodes_of_enabled hl (by rw [ht]; decide) hnext
    obtain ⟨limit, hlimit, hpos⟩ := hc.loopLimit hl ht
    have hcount : (σ.loopCounts.lookup x).getD 0 = 0 := by rw [hcounts]; rfl
    refine ⟨[], ?_⟩
    simp only [processLoop, Loop.enter, hlimit, hcount]
    rw [if_neg (by omega)]
    exact ⟨_, extend_eq_more.mpr ⟨next, hfollow, rfl⟩⟩

/-- The first turn of a run, where nothing was visited. -/
theorem turn_start {rest : List String} (hq : σ.queue = x :: rest) (hvisited : σ.visited = []) :
    turn env plan deadline σ = .more σ' → ∃ w,
      processNode env plan x { σ with queue := rest, world := w, visited := [x] } = .more σ' := by
  intro h
  unfold turn at h
  rw [hq, hvisited] at h
  dsimp only at h
  split_ifs at h with hkilled hlate hskip
  · exact absurd hskip.1 List.not_mem_nil
  · exact ⟨_, h⟩

/-- The node next to the first is taken by the second turn. -/
theorem second_of_more {rest : List String} (hq : σ.queue = x :: y :: rest) (hne : y ≠ x) (hvisited : σ.visited = [])
    (h : turn env plan deadline σ = .more σ') : (∃ rest', σ'.queue = y :: rest') ∧ y ∉ σ'.visited := by
  obtain ⟨x', rest', hq', hstep⟩ := turn_more h
  obtain ⟨rfl, rfl⟩ := List.cons.inj (hq.symm.trans hq')
  have hfresh : y ∉ insertId σ.visited x := by
    rw [hvisited]
    exact fun hy => hne (List.mem_singleton.mp hy)
  cases hstep with
  | skipped hseen =>
    rw [hvisited] at hseen
    cases hseen
  | absent _ hqueue hvisited' => exact ⟨⟨rest, hqueue⟩, hvisited' ▸ hfresh⟩
  | visited _ _ _ _ hqueue hvisited' =>
    obtain ⟨next, hqueue⟩ := hqueue
    exact ⟨⟨rest ++ next, hqueue⟩, hvisited' ▸ hfresh⟩
  | exhausted _ _ _ hqueue hvisited' => exact ⟨⟨rest, hqueue⟩, hvisited' ▸ hfresh⟩
  | iterated _ _ _ hqueue hvisited' =>
    obtain ⟨next, hqueue⟩ := hqueue
    refine ⟨⟨rest ++ next, hqueue⟩, fun hy => hfresh ?_⟩
    rw [hvisited'] at hy
    exact (List.mem_filter.mp hy).1

/-- A node of the plan that was not visited is taken, in an environment without a kill switch or a late clock. -/
theorem taken_leaving {scope : Dict} {σ : Loop Unit} {rest : List String} (hq : σ.queue = x :: rest)
    (hfresh : x ∉ σ.visited) (hl : (plan.nodes.lookup x).isSome = true) :
    taken (leavingEnv deadline scope) plan deadline σ = some x := by
  have hsome : (plan.nodes.lookup x).isNone = false := by
    rw [Option.isNone_eq_false_iff]
    exact hl
  unfold taken
  rw [hq]
  show (if deadline < deadline then none else _) = _
  rw [if_neg (lt_irrefl deadline), if_neg fun h => hfresh h.1, hsome]
  rfl

/-- In such an environment the first turn processes its node. -/
theorem turn_leaving {scope : Dict} {σ : Loop Unit} {rest : List String} (hq : σ.queue = x :: rest)
    (hvisited : σ.visited = []) : turn (leavingEnv deadline scope) plan deadline σ =
      processNode (leavingEnv deadline scope) plan x { σ with queue := rest, visited := [x] } := by
  unfold turn
  rw [hq, hvisited]
  show (if deadline < deadline then _ else _) = _
  rw [if_neg (lt_irrefl deadline), if_neg fun h => List.not_mem_nil h.1]
  rfl

end Passing

/-! ## The warning -/

section Warning

variable {py : Interpreter} {doc : Dict} {plan : Plan}

/-- No node that is reported is processed, by a run in any environment. -/
def NeverProcessed (doc : Dict) (plan : Plan) (ctx : ExecutionContext) : Prop :=
  ∃ reported, unreachableNodes (documentNodes doc).1 (documentEdges doc) = .ok reported ∧
    ∀ (W : Type) (env : Env W) (w : W) (n : ℕ), ∀ x ∈ processed env plan n ctx none w, x ∉ reported

/-- A root has no edge into it. -/
theorem Compiled.root_unreached (hc : Compiled doc plan) {r s : String} (hr : r ∈ plan.entryNodes)
    (h : ReflTransGen plan.Leads s r) : s = r := by
  rcases ReflTransGen.cases_tail h with rfl | ⟨u, -, hu⟩
  · rfl
  · exact absurd (hc.edge.mp hu) ((hc.entry.mp hr).2 u)

theorem Compiled.entry_lookup (hc : Compiled doc plan) {r : String} (hr : r ∈ plan.entryNodes) :
    ∃ node, plan.nodes.lookup r = some node := by
  obtain ⟨⟨x, node⟩, hp, rfl⟩ := List.mem_map.mp (hc.entry.mp hr).1
  exact ⟨node, lookup_of_mem hc.ids_nodup hp⟩

/-- A root beside the least one is reported, and a run that takes it refutes the warning. -/
theorem not_neverProcessed (h : compileWorkflow py doc = .ok plan) {ctx : ExecutionContext} {r s : String}
    (hr : r ∈ plan.entryNodes) (hs : s ∈ plan.entryNodes) (hless : s < r) {env : Env W} {w : W} {n : ℕ}
    (htaken : r ∈ processed env plan n ctx none w) : ¬NeverProcessed doc plan ctx := by
  have hc := compileWorkflow_ok h
  obtain ⟨root, reported, hroot, hreported, hmem⟩ := mem_unreachable h
  rintro ⟨reported', hreported', hnever⟩
  obtain rfl := Except.ok.inj (hreported.symm.trans hreported')
  refine hnever W env w n r htaken ((hmem r).mpr ⟨(hc.entry.mp hr).1, fun hpath => ?_⟩)
  have heq := hc.root_unreached hr hpath
  exact absurd (hroot.least s hs) (not_le.mpr (heq ▸ hless))

theorem entryNodes_nodup (h : compileWorkflow py doc = .ok plan) : plan.entryNodes.Nodup := by
  obtain ⟨report, -, -, hbuild⟩ := compileWorkflow_eq_ok.mp h
  obtain ⟨edges, -, -, -, -, -, -, -, hentry⟩ := buildPlan_parts hbuild
  rw [hentry]
  exact (compileWorkflow_ok h).ids_nodup.filter _

/-- The nodes that a run of the plan processes. -/
theorem processed_eq {env : Env W} {ctx : ExecutionContext} {w : W} {n : ℕ} {deadline : Instant}
    (hash : plan.contentHash = ctx.contentHash) (hd : deadlineOf plan ctx = .ok deadline) :
    processed env plan n ctx none w = trail env plan deadline (taken env plan deadline) n (startLoop plan ctx none w) := by
  unfold processed execute
  dsimp only
  rw [if_neg (not_not_intro hash), hd]
  exact (logged_runTurns n _).ran

theorem processed_of_mismatch {env : Env W} {ctx : ExecutionContext} {w : W} {n : ℕ}
    (hash : plan.contentHash ≠ ctx.contentHash) : processed env plan n ctx none w = [] := by
  unfold processed execute
  dsimp only
  rw [if_pos hash]
  rfl

/-- A run that goes past the first root takes the next one. -/
theorem second_processed (h : compileWorkflow py doc = .ok plan) {ctx : ExecutionContext}
    {first second : String} {others : List String} (hentry : plan.entryNodes = first :: second :: others) {node : Dict}
    (hl : plan.nodes.lookup first = some node) (hpasses : Passes plan ctx first node)
    (hash : plan.contentHash = ctx.contentHash) :
    ∃ env : Env Unit, second ∈ processed env plan 2 ctx none () := by
  have hc := compileWorkflow_ok h
  obtain ⟨deadline, hd⟩ := hc.deadline ctx
  have hnodup := entryNodes_nodup h
  rw [hentry] at hnodup
  have hne : second ≠ first := fun heq => (List.nodup_cons.mp hnodup).1 (heq ▸ List.mem_cons_self)
  have hsecond : second ∈ plan.entryNodes := hentry ▸ List.mem_cons_of_mem _ List.mem_cons_self
  obtain ⟨scope, σ', hmore⟩ := @more_of_passes plan deadline first node doc
    { startLoop plan ctx none () with queue := second :: others, visited := [first] } hc hl rfl hpasses
  have hturn : turn (leavingEnv deadline scope) plan deadline (startLoop plan ctx none ()) = .more σ' :=
    (turn_leaving hentry rfl).trans hmore
  obtain ⟨⟨rest, hqueue⟩, hfresh⟩ := second_of_more hentry hne rfl hturn
  obtain ⟨node', hl'⟩ := hc.entry_lookup hsecond
  have hnext : taken (leavingEnv deadline scope) plan deadline σ' = some second :=
    taken_leaving hqueue hfresh (by rw [hl']; rfl)
  refine ⟨leavingEnv deadline scope, ?_⟩
  rw [processed_eq hash hd]
  simp only [trail, hturn, hnext]
  exact List.mem_append_right _ (List.mem_append_left _ (List.mem_singleton.mpr rfl))

/-- The first root is taken by a run that is not stopped. -/
theorem first_processed (h : compileWorkflow py doc = .ok plan) {ctx : ExecutionContext}
    {first : String} {others : List String} (hentry : plan.entryNodes = first :: others)
    (hash : plan.contentHash = ctx.contentHash) : ∃ env : Env Unit, first ∈ processed env plan 1 ctx none () := by
  have hc := compileWorkflow_ok h
  obtain ⟨deadline, hd⟩ := hc.deadline ctx
  obtain ⟨node, hl⟩ := hc.entry_lookup (hentry ▸ List.mem_cons_self)
  have hstart : taken (leavingEnv deadline []) plan deadline (startLoop plan ctx none ()) = some first :=
    taken_leaving hentry List.not_mem_nil (by rw [hl]; rfl)
  refine ⟨leavingEnv deadline [], ?_⟩
  rw [processed_eq hash hd]
  simp only [trail, hstart]
  exact List.mem_append_left _ (List.mem_singleton.mpr rfl)

/-- With one root nothing is reported. -/
theorem neverProcessed_of_one (h : compileWorkflow py doc = .ok plan) (hone : plan.entryNodes.length = 1)
    (ctx : ExecutionContext) : NeverProcessed doc plan ctx := by
  obtain ⟨root, reported, hroot, hreported, hmem⟩ := mem_unreachable h
  refine ⟨reported, hreported, fun W env w n x _ hbad => ?_⟩
  obtain ⟨hknown, hunreached⟩ := (hmem x).mp hbad
  obtain ⟨r, hr, hpath⟩ := (compileWorkflow_ok h).reached hknown
  obtain ⟨only, honly⟩ := List.length_eq_one_iff.mp hone
  have hroot' := hroot.mem
  rw [honly, List.mem_singleton] at hr hroot'
  rw [hroot', ← hr] at hunreached
  exact hunreached hpath

/-- What a run processes that ends with its first node. -/
theorem eq_of_stuck (h : compileWorkflow py doc = .ok plan) {ctx : ExecutionContext} {first x : String}
    {others : List String} (hentry : plan.entryNodes = first :: others) {node : Dict}
    (hl : plan.nodes.lookup first = some node) (hstuck : ¬Passes plan ctx first node) {env : Env W} {w : W} {n : ℕ}
    (hx : x ∈ processed env plan n ctx none w) : x = first := by
  have hc := compileWorkflow_ok h
  obtain ⟨deadline, hd⟩ := hc.deadline ctx
  by_cases hash : plan.contentHash = ctx.contentHash
  · rw [processed_eq hash hd] at hx
    cases n with
    | zero => cases hx
    | succ n =>
      rw [trail] at hx
      rcases List.mem_append.mp hx with hx | hx
      · obtain ⟨⟨rest, hqueue⟩, -, -⟩ := taken_eq_some (Option.mem_toList.mp hx)
        exact (List.cons.inj (hentry.symm.trans hqueue)).1.symm
      · exfalso
        split at hx
        · next σ' hmore =>
          obtain ⟨w', hnode⟩ := turn_start hentry rfl hmore
          have hpasses := passes_of_more hc hl (fun _ => rfl) hnode
          exact hstuck hpasses
        · cases hx
  · rw [processed_of_mismatch hash] at hx
    cases hx

/-- **The warning is true** of a plan with one root; of another only where the first root of the document is the least
of them and ends every run. -/
theorem orphans_never_processed_iff (h : compileWorkflow py doc = .ok plan) (ctx : ExecutionContext) :
    NeverProcessed doc plan ctx ↔
      plan.contentHash ≠ ctx.contentHash ∨ plan.entryNodes.length = 1 ∨
        ∃ first others node, plan.entryNodes = first :: others ∧ (∀ r ∈ others, first ≤ r) ∧
          plan.nodes.lookup first = some node ∧ ¬Passes plan ctx first node := by
  constructor
  · intro hnever
    by_contra hno
    simp only [not_or, not_not] at hno
    obtain ⟨hash, hlength, hrest⟩ := hno
    obtain ⟨first, others, hentry⟩ := List.exists_cons_of_ne_nil (entryNodes_ne_nil h)
    have hfirst : first ∈ plan.entryNodes := hentry ▸ List.mem_cons_self
    obtain ⟨node, hl⟩ := (compileWorkflow_ok h).entry_lookup hfirst
    by_cases hleast : ∀ r ∈ others, first ≤ r
    · have hpasses : Passes plan ctx first node := by
        by_contra hstuck
        exact hrest ⟨first, others, node, hentry, hleast, hl, hstuck⟩
      cases others with
      | nil => exact hlength (by rw [hentry]; rfl)
      | cons second others =>
        have hnodup := entryNodes_nodup h
        rw [hentry] at hnodup
        have hne : first ≠ second := fun heq => (List.nodup_cons.mp hnodup).1 (heq ▸ List.mem_cons_self)
        have hless : first < second := lt_of_le_of_ne (hleast second List.mem_cons_self) hne
        obtain ⟨env, htaken⟩ := second_processed h hentry hl hpasses hash
        exact not_neverProcessed h (hentry ▸ List.mem_cons_of_mem _ List.mem_cons_self) hfirst hless htaken hnever
    · obtain ⟨r, hr, hless⟩ : ∃ r ∈ others, r < first := by
        simpa only [not_forall, not_le, exists_prop] using hleast
      obtain ⟨env, htaken⟩ := first_processed h hentry hash
      exact not_neverProcessed h hfirst (hentry ▸ List.mem_cons_of_mem _ hr) hless htaken hnever
  · rintro (hash | hone | ⟨first, others, node, hentry, hleast, hl, hstuck⟩)
    · obtain ⟨root, reported, -, hreported, -⟩ := mem_unreachable h
      refine ⟨reported, hreported, fun W env w n x hx => ?_⟩
      rw [processed_of_mismatch hash] at hx
      cases hx
    · exact neverProcessed_of_one h hone ctx
    · obtain ⟨root, reported, hroot, hreported, hmem⟩ := mem_unreachable h
      refine ⟨reported, hreported, fun W env w n x hx hbad => ?_⟩
      obtain rfl := eq_of_stuck h hentry hl hstuck hx
      -- the first node is the root that the validator starts from
      have heq : root = x := by
        refine le_antisymm (hroot.least x (hentry ▸ List.mem_cons_self)) ?_
        rcases List.mem_cons.mp (hentry ▸ hroot.mem) with rfl | hother
        · exact le_rfl
        · exact hleast root hother
      exact ((hmem x).mp hbad).2 (heq ▸ .refl)

/-- The refund behind an approval has one root. -/
theorem guardedRefund_warned : ∃ plan, compileWorkflow plainInterpreter guardedRefund = .ok plan ∧
    NeverProcessed guardedRefund plan sampleContext := by
  have hone : (compileWorkflow plainInterpreter guardedRefund).toOption.map (·.entryNodes.length) = some 1 := by
    decide +kernel
  cases h : compileWorkflow plainInterpreter guardedRefund with
  | error e =>
    rw [h] at hone
    cases hone
  | ok plan =>
    rw [h] at hone
    exact ⟨plan, rfl, (orphans_never_processed_iff h sampleContext).mpr (.inr (.inl (Option.some.inj hone)))⟩

/-- Two roots, of which the second is reported. -/
def twoRoots : Dict :=
  [("name", .str "Two"), ("trigger", .obj [("type", .str "manual")]),
    ("nodes", .arr [
      .obj [("id", .str "a"), ("type", .str "parallel")],
      .obj [("id", .str "b"), ("type", .str "parallel")]]),
    ("edges", .arr [])]

/-- The engine starts from both, and processes the one that is said to be unreachable. -/
theorem twoRoots_processed : ∃ plan, compileWorkflow plainInterpreter twoRoots = .ok plan ∧
    unreachableNodes (documentNodes twoRoots).1 (documentEdges twoRoots) = .ok ["b"] ∧
    "b" ∈ processed calmEnv plan 2 sampleContext none () ∧ ¬NeverProcessed twoRoots plan sampleContext := by
  have hreported : unreachableNodes (documentNodes twoRoots).1 (documentEdges twoRoots) = .ok ["b"] := by
    decide +kernel
  have hrun : (compileWorkflow plainInterpreter twoRoots).toOption.map (fun plan =>
      processed calmEnv plan 2 sampleContext none ()) = some ["a", "b"] := by
    decide +kernel
  cases h : compileWorkflow plainInterpreter twoRoots with
  | error e =>
    rw [h] at hrun
    cases hrun
  | ok plan =>
    rw [h] at hrun
    have hprocessed : processed calmEnv plan 2 sampleContext none () = ["a", "b"] := Option.some.inj hrun
    have hb : "b" ∈ processed calmEnv plan 2 sampleContext none () := by
      rw [hprocessed]
      exact List.mem_cons_of_mem _ List.mem_cons_self
    refine ⟨plan, rfl, hreported, hb, ?_⟩
    rintro ⟨reported, hreported', hnever⟩
    obtain rfl := Except.ok.inj (hreported.symm.trans hreported')
    exact hnever Unit calmEnv () 2 "b" hb List.mem_cons_self

end Warning

end RevenueOS.Workflows
