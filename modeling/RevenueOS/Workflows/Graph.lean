import RevenueOS.Workflows.DslFacts
import RevenueOS.Workflows.Gating

/-!
# RevenueOS.Workflows.Graph — the cycle test of the validator is exact

`_has_cycle` over any set of ids and any edges, and what it gives to a plan: the engine has a node to start with, and
from its entry nodes the edges lead everywhere.

* `hasCycle_exact`: whatever the test answers, it is `true` exactly if the edges between the ids close a cycle; and it
  answers where the stack has room for all the ids.
* `entry_reaches`: every node of a compiled plan can be reached from one of its entry nodes.
-/

namespace RevenueOS.Workflows

open RevenueOS.Py RevenueOS.Lib Relation

/-! ## The edges of the test -/

/-- `source in adjacency and target in adjacency`: an edge between the ids, from `u` to `v`. -/
def Joins (ids : List String) (edges : List Dict) (u v : String) : Prop :=
  u ∈ ids ∧ v ∈ ids ∧ ∃ e ∈ edges, (Dict.get e "source").text = u ∧ (Dict.get e "target").text = v

/-- The ends of the edges, which are objects. -/
def endsOf (edges : List Dict) : List (String × String) :=
  edges.map fun e => ((Dict.get e "source").text, (Dict.get e "target").text)

theorem edgeEnds_objects (edges : List Dict) : (edges.map Json.obj).mapM edgeEnds = .ok (endsOf edges) := by
  induction edges with
  | nil => rfl
  | cons e edges ih =>
    rw [List.map_cons, List.mapM_cons, ih]
    rfl

/-- The adjacency lists that the test builds. -/
theorem mem_adjacency {ids : List String} {edges : List Dict} {u v : String} :
    v ∈ cycleAdjacency ids (endsOf edges) u ↔ Joins ids edges u v := by
  rw [mem_cycleAdjacency]
  simp [Joins, endsOf]

theorem hasCycle_eq (visits : ℕ) (ids : List String) (edges : List Dict) : hasCycle visits ids (edges.map .obj) =
    if visits < cycleDepth ids (endsOf edges) then .error .recursionError
    else .ok (findsCycle (cycleAdjacency ids (endsOf edges)) (ids.length + 1) ids (fun _ => .white)) := by
  unfold hasCycle
  rw [edgeEnds_objects]
  rfl

/-- **The cycle test**, for any ids and any edges: an edge from a node to itself is a cycle. -/
theorem hasCycle_iff {visits : ℕ} {ids : List String} {edges : List Dict} {cyclic : Bool}
    (h : hasCycle visits ids (edges.map .obj) = .ok cyclic) :
    cyclic = true ↔ ∃ x, TransGen (Joins ids edges) x x := by
  rw [hasCycle_eq] at h
  split_ifs at h
  rw [← Except.ok.inj h, findsCycle_iff (fun x y hy => (mem_adjacency.mp hy).2.1) (Nat.le_succ _)]
  have hjoins : (fun u v => v ∈ cycleAdjacency ids (endsOf edges) u) = Joins ids edges := by
    funext u v
    exact propext mem_adjacency
  unfold Cyclic
  rw [hjoins]

/-- With room for all the ids the test answers. -/
theorem hasCycle_answers {visits : ℕ} {ids : List String} (hroom : ids.length < visits) (edges : List Dict) :
    ∃ cyclic, hasCycle visits ids (edges.map .obj) = .ok cyclic := by
  have hdepth : cycleDepth ids (endsOf edges) ≤ ids.length + 1 := searchDepth_le _ _ _ _
  exact ⟨_, (hasCycle_eq visits ids edges).trans (if_neg (by omega))⟩

/-! ## Plans -/

/-- `v` is the target of an edge of `u` in the plan. -/
def Plan.Leads (plan : Plan) (u v : String) : Prop := ∃ e ∈ plan.edgesFrom u, e.target = v

section Plans

variable {doc : Dict} {plan : Plan}

theorem Compiled.not_cycle (hc : Compiled doc plan) (x : String) : ¬TransGen plan.Leads x x := by
  have hwf : WellFounded (TransGen (Function.swap plan.Leads)) :=
    (Subrelation.wf (fun h => hc.edge.mp h) hc.acyclic).transGen
  intro h
  exact hwf.irrefl.irrefl x (transGen_swap.mpr h)

/-- **Every node is reached** from an entry node along the adjacency of the plan. -/
theorem Compiled.reached (hc : Compiled doc plan) {x : String} (hx : x ∈ plan.nodes.map (·.1)) :
    ∃ r ∈ plan.entryNodes, ReflTransGen plan.Leads r x := by
  obtain ⟨r, hr, hsource, hpath⟩ :=
    exists_source (fun u v h => (hc.edge_known (hc.edge.mp h)).1) hc.not_cycle hx
  exact ⟨r, hc.entry.mpr ⟨hr, fun u h => hsource u (hc.edge.mpr h)⟩, hpath⟩

/-- The document of a plan has nodes, and so has the plan. -/
theorem nodes_ne_nil {py : Interpreter} (h : compileWorkflow py doc = .ok plan) :
    plan.nodes ≠ [] := by
  obtain ⟨report, hreport, hvalid, -⟩ := compileWorkflow_eq_ok.mp h
  obtain ⟨ids, hacc⟩ := accepted_of_valid hreport hvalid
  intro hnil
  have hdocument := (compileWorkflow_ok h).document
  have hne := hacc.nodes_ne
  rw [hnil, List.map_nil] at hdocument
  unfold documentNodes at hne hdocument
  split at hne
  · next heq =>
    rw [heq] at hdocument
    cases hdocument
  · cases hne

theorem entryNodes_ne_nil {py : Interpreter} (h : compileWorkflow py doc = .ok plan) :
    plan.entryNodes ≠ [] := by
  obtain ⟨p, hp⟩ := List.exists_mem_of_ne_nil _ (nodes_ne_nil h)
  obtain ⟨r, hr, -⟩ := (compileWorkflow_ok h).reached (List.mem_map_of_mem hp)
  exact List.ne_nil_of_mem hr

end Plans

/-- **Cycle detection is exact and gives executable plans.** -/
theorem hasCycle_exact (py : Interpreter) :
    (∀ (visits : ℕ) (ids : List String) (edges : List Dict),
      (∀ cyclic, hasCycle visits ids (edges.map .obj) = .ok cyclic →
        (cyclic = true ↔ ∃ x, TransGen (Joins ids edges) x x)) ∧
      (ids.length < visits → ∃ cyclic, hasCycle visits ids (edges.map .obj) = .ok cyclic)) ∧
    ∀ doc plan, compileWorkflow py doc = .ok plan →
      plan.entryNodes ≠ [] ∧ ∀ x ∈ plan.nodes.map (·.1), ∃ r ∈ plan.entryNodes, ReflTransGen plan.Leads r x :=
  ⟨fun _ _ edges => ⟨fun _ h => hasCycle_iff h, fun h => hasCycle_answers h edges⟩,
    fun _ _ h => ⟨entryNodes_ne_nil h, fun _ hx => (compileWorkflow_ok h).reached hx⟩⟩

/-- Two edges that close a cycle, and the plan of the guarded refund. -/
theorem guardedRefund_reached : (∃ x, TransGen (Joins ["a", "b"] [[("source", .str "a"), ("target", .str "b")],
      [("source", .str "b"), ("target", .str "a")]]) x x) ∧
    ∃ plan, compileWorkflow plainInterpreter guardedRefund = .ok plan ∧ plan.entryNodes ≠ [] ∧
      ∀ x ∈ plan.nodes.map (·.1), ∃ r ∈ plan.entryNodes, ReflTransGen plan.Leads r x := by
  refine ⟨(((hasCycle_exact plainInterpreter).1 1000 _ _).1 true (by decide)).mp rfl, ?_⟩
  cases hc : compileWorkflow plainInterpreter guardedRefund with
  | error e =>
    have : (compileWorkflow plainInterpreter guardedRefund).isOk = true := by decide +kernel
    rw [hc] at this
    cases this
  | ok plan => exact ⟨plan, rfl, (hasCycle_exact plainInterpreter).2 guardedRefund plan hc⟩

end RevenueOS.Workflows
