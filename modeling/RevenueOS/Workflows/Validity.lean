import RevenueOS.Workflows.ContentHash
import RevenueOS.Workflows.DslFacts

/-!
# RevenueOS.Workflows.Validity — which documents the validator can read, and which it accepts

`validate_workflow` indexes, iterates and hashes the fields of a document before it has looked at their
types, and `compile_workflow` reads some of them again with other defaults.  Predicates on a document, none of which
mentions a report:

* `Readable`: the shapes on which no read of the validator raises.
* `SearchFits` and `Hashable`: the stack holds the search for a cycle, and the document can be hashed
  (`validateWorkflow_yields`).
* `ValidDocument`: what the checks ask of such a document (`validateWorkflow_clean`).
* `Compilable`: what the compiler's own reads need on top (`buildPlan_yields`).

`total_iff` puts them together.
-/

namespace RevenueOS.Workflows

open RevenueOS.Py RevenueOS.Lib

/-! ## Reads -/

/-- A value that may be looked up in a set: anything but a `list` or a `dict`. -/
def hashable : Json → Bool
  | .arr _ => false
  | .obj _ => false
  | _ => true

/-- The answer of `x in frozenset(names)` for a hashable `x`. -/
def isOneOf (names : List String) : Json → Bool
  | .str s => names.contains s
  | _ => false

theorem yields_inNames {names : List String} {x : Json} {Q : Bool → Prop} :
    Yields (x.inNames names) Q ↔ hashable x = true ∧ Q (isOneOf names x) := by
  cases x <;> simp [Json.inNames, hashable, isOneOf]

theorem yields_asDict {x : Json} {Q : Dict → Prop} : Yields x.asDict Q ↔ ∃ d, x = .obj d ∧ Q d := by
  cases x <;> simp [Json.asDict]

theorem isOneOf_iff {names : List String} {x : Json} :
    isOneOf names x = true ↔ ∃ s ∈ names, x = .str s := by
  cases x <;> simp [isOneOf]

theorem hashable_of_isOneOf {names : List String} {x : Json} (h : isOneOf names x = true) :
    hashable x = true := by
  obtain ⟨s, -, rfl⟩ := isOneOf_iff.mp h
  rfl

theorem str?_eq_some {x : Json} {s : String} : x.str? = some s ↔ x = .str s := by
  cases x <;> simp [Json.str?]

theorem list?_eq_some {x : Json} {xs : List Json} : x.list? = some xs ↔ x = .arr xs := by
  cases x <;> simp [Json.list?]

theorem dict?_eq_some {x : Json} {d : Dict} : x.dict? = some d ↔ x = .obj d := by
  cases x <;> simp [Json.dict?]

/-- A non-empty list, as the checks test for it. -/
theorem list?_any_iff {x : Json} :
    x.list?.any (fun xs => !xs.isEmpty) = true ↔ ∃ y ys, x = .arr (y :: ys) := by
  cases x with
  | arr xs => cases xs <;> simp [Json.list?]
  | _ => simp [Json.list?]

/-! ## Expressions and conditions -/

/-- A piece between template braces names an allowed root, or nothing. -/
def SegmentOk (segment : String) : Prop :=
  let candidate := strip segment
  let root := strip (beforeFirst (beforeFirst candidate ".") "(")
  contains candidate "." = true ∨ contains candidate "(" = true →
    candidate = "" ∨ root = "" ∨ root ∈ allowedExpressionRoots ∨ root ∈ allowedFunctions

/-- What `validate_expression` asks of an expression. -/
structure ExpressionOk (expr : String) : Prop where
  safe : ∀ token ∈ forbiddenExpressionTokens, contains (lower expr) token = false
  short : expr.length ≤ 2000
  roots : ∀ segment ∈ split (replace expr "\x7d\x7d" "\x7b\x7b") "\x7b\x7b", SegmentOk segment

theorem segmentProblem_eq_nil {path segment : String} : segmentProblem path segment = [] ↔ SegmentOk segment := by
  unfold segmentProblem SegmentOk
  simp only
  split_ifs with h
  · simp only [true_iff]
    simp only [Bool.or_eq_true, beq_iff_eq, Bool.and_eq_true, Bool.not_eq_true'] at h
    rcases h with h | ⟨h, h'⟩
    · exact fun _ => Or.inl h
    · rintro (hd | hp)
      · rw [h] at hd
        cases hd
      · rw [h'] at hp
        cases hp
  · simp only [Bool.or_eq_true, beq_iff_eq, Bool.and_eq_true, Bool.not_eq_true', not_or, not_and,
      Bool.not_eq_false] at h
    obtain ⟨hne, hdot⟩ := h
    have hdot' : contains (strip segment) "." = true ∨ contains (strip segment) "(" = true := by
      cases hc : contains (strip segment) "." with
      | true => exact Or.inl rfl
      | false => exact Or.inr (hdot hc)
    simp [hdot', hne, or_iff_not_imp_left]

theorem validateExpression_eq_nil {expr path : String} : validateExpression expr path = [] ↔ ExpressionOk expr := by
  unfold validateExpression
  split
  · rename_i token htoken
    obtain ⟨hc, hm⟩ := And.intro (List.find?_some htoken) (List.mem_of_find?_eq_some htoken)
    simp only [List.cons_ne_nil, false_iff]
    intro h
    rw [h.safe token hm] at hc
    cases hc
  · rename_i hnone
    rw [List.find?_eq_none] at hnone
    simp only [List.append_eq_nil_iff, problemIf_eq_nil, decide_eq_false_iff_not, not_lt, List.flatMap_eq_nil_iff,
      segmentProblem_eq_nil]
    constructor
    · rintro ⟨hs, hr⟩
      exact ⟨fun token ht => by simpa using hnone token ht, hs, hr⟩
    · exact fun h => ⟨h.short, h.roots⟩

/-- What `_validate_condition` asks of a condition object: a logical operator over at least one child, or a
comparison with a left operand whose text is an acceptable expression. -/
inductive ConditionOk (cond : Dict) : Prop
  | logical (op : isOneOf logicalOperators (cond.get "operator") = true) (c : Json) (cs : List Json)
      (children : cond.get "conditions" = .arr (c :: cs))
  | comparison (op : isOneOf comparisonOperators (cond.get "operator") = true) (left : cond.has "left" = true)
      (expr : ∀ s, cond.get "left" = .str s → ExpressionOk s)

theorem not_logical_of_comparison {x : Json} (h : isOneOf comparisonOperators x = true) :
    isOneOf logicalOperators x = false := by
  obtain ⟨s, hs, rfl⟩ := isOneOf_iff.mp h
  revert s
  decide

theorem or_nil_eq_cons {x c : Json} {cs : List Json} : x.or (.arr []) = .arr (c :: cs) ↔ x = .arr (c :: cs) := by
  unfold Json.or
  split_ifs with h
  · exact Iff.rfl
  · constructor
    · intro hc
      cases hc
    · rintro rfl
      simp [Json.truthy] at h

/-- The check of an optional expression text. -/
theorem exprCheck_eq_nil {x : Json} {path : String} :
    (match x.str? with
      | some s => validateExpression s path
      | none => []) = [] ↔ ∀ s, x = .str s → ExpressionOk s := by
  cases x <;> simp [Json.str?, validateExpression_eq_nil]

/-- `_validate_condition` returns on every node whose condition, if it is an object, has a hashable operator. -/
theorem validateCondition_yields {node : Dict} {path : String} : Yields (validateCondition node path) (fun _ => True) ↔
    ∀ cond, node.get "condition" = .obj cond → hashable (Dict.get cond "operator") = true := by
  constructor
  · intro h cond hc
    unfold validateCondition at h
    rw [hc] at h
    simp only [Json.dict?, yields_bind, yields_inNames] at h
    exact h.1
  · intro h
    unfold validateCondition
    split
    · simp
    · rename_i cond hc
      have hop := h cond (dict?_eq_some.mp hc)
      simp only [yields_bind, yields_inNames, hop, true_and]
      split_ifs
      · simp
      · simp [yields_inNames, hop]

/-- `_validate_condition` has nothing to report on exactly the acceptable conditions. -/
theorem validateCondition_clean {node : Dict} {path : String} :
    Yields (validateCondition node path) (· = []) ↔ ∃ cond, node.get "condition" = .obj cond ∧ ConditionOk cond := by
  constructor
  · intro h
    unfold validateCondition at h
    split at h
    · simp at h
    · rename_i cond hc
      refine ⟨cond, dict?_eq_some.mp hc, ?_⟩
      simp only [yields_bind, yields_inNames] at h
      obtain ⟨-, h⟩ := h
      split_ifs at h with hl
      · simp only [yields_pure, problemIf_eq_nil, Bool.not_eq_false', list?_any_iff] at h
        obtain ⟨c, cs, hcs⟩ := h
        exact .logical hl c cs (or_nil_eq_cons.mp hcs)
      · simp only [yields_bind, yields_inNames, yields_pure, List.append_eq_nil_iff, problemIf_eq_nil,
          Bool.not_eq_false'] at h
        exact .comparison h.2.1.1 h.2.1.2 (exprCheck_eq_nil.mp h.2.2)
  · rintro ⟨cond, hc, hok⟩
    unfold validateCondition
    rw [hc]
    simp only [Json.dict?, yields_bind, yields_inNames]
    cases hok with
    | logical op c cs children =>
      refine ⟨hashable_of_isOneOf op, ?_⟩
      rw [if_pos op]
      simp only [yields_pure, problemIf_eq_nil, Bool.not_eq_false', list?_any_iff]
      exact ⟨c, cs, or_nil_eq_cons.mpr children⟩
    | comparison op left expr =>
      refine ⟨hashable_of_isOneOf op, ?_⟩
      rw [if_neg (by rw [not_logical_of_comparison op]; decide)]
      simp only [yields_bind, yields_inNames, yields_pure, List.append_eq_nil_iff, problemIf_eq_nil,
        Bool.not_eq_false']
      exact ⟨hashable_of_isOneOf op, ⟨op, left⟩, exprCheck_eq_nil.mpr expr⟩

/-! ## Edges -/

/-- An edge the validator can read: an object whose ends can be looked up in a set. -/
def EdgeReadable (e : Json) : Prop :=
  ∃ edge, e = .obj edge ∧ hashable (Dict.get edge "source") = true ∧ hashable (Dict.get edge "target") = true

/-- A readable edge list. -/
def EdgesReadable (edges : Json) : Prop := ∃ es, edges = .arr es ∧ ∀ e ∈ es, EdgeReadable e

/-- What the loop over the edges asks of an edge: known ends, and an acceptable text condition. -/
def EdgeValid (ids : List String) (e : Json) : Prop :=
  ∃ edge, e = .obj edge ∧ isOneOf ids (Dict.get edge "source") = true ∧
    isOneOf ids (Dict.get edge "target") = true ∧ ∀ s, Dict.get edge "condition" = .str s → ExpressionOk s

theorem validateEdge_yields {ids : List String} {index : ℕ} {e : Json} :
    Yields (validateEdge ids index e) (fun _ => True) ↔ EdgeReadable e := by
  unfold validateEdge EdgeReadable
  simp [yields_asDict, yields_inNames]

theorem validateEdge_clean {ids : List String} {index : ℕ} {e : Json} :
    Yields (validateEdge ids index e) (· = []) ↔ EdgeValid ids e := by
  unfold validateEdge EdgeValid
  simp only [yields_bind, yields_asDict, yields_inNames, yields_pure, List.append_eq_nil_iff, problemIf_eq_nil,
    Bool.not_eq_false']
  refine exists_congr fun edge => and_congr_right fun _ => ?_
  constructor
  · rintro ⟨-, -, ⟨hs, ht⟩, hc⟩
    exact ⟨hs, ht, exprCheck_eq_nil.mp hc⟩
  · rintro ⟨hs, ht, hc⟩
    exact ⟨hashable_of_isOneOf hs, hashable_of_isOneOf ht, ⟨hs, ht⟩, exprCheck_eq_nil.mpr hc⟩

theorem validateEdges_yields {ids : List String} : ∀ {es : List Json} {index : ℕ},
    Yields (validateEdges ids index es) (fun _ => True) ↔ ∀ e ∈ es, EdgeReadable e := by
  intro es
  induction es with
  | nil => simp [validateEdges]
  | cons e es ih =>
    intro index
    rw [validateEdges, List.forall_mem_cons, ← validateEdge_yields, ← ih]
    simp only [yields_bind, yields_pure]
    constructor
    · rintro ⟨here, hh, hrest⟩
      exact ⟨⟨here, hh, trivial⟩, hrest⟩
    · rintro ⟨⟨here, hh, -⟩, hrest⟩
      exact ⟨here, hh, hrest⟩

theorem validateEdges_clean {ids : List String} : ∀ {es : List Json} {index : ℕ},
    Yields (validateEdges ids index es) (· = []) ↔ ∀ e ∈ es, EdgeValid ids e := by
  intro es
  induction es with
  | nil => simp [validateEdges]
  | cons e es ih =>
    intro index
    rw [validateEdges, List.forall_mem_cons, ← validateEdge_clean, ← ih]
    simp only [yields_bind, yields_pure, List.append_eq_nil_iff]
    constructor
    · rintro ⟨here, hh, rest, hr, rfl, rfl⟩
      exact ⟨⟨[], hh, rfl⟩, [], hr, rfl⟩
    · rintro ⟨⟨here, hh, rfl⟩, rest, hr, rfl⟩
      exact ⟨[], hh, [], hr, rfl, rfl⟩

theorem EdgeValid.readable {ids : List String} {e : Json} (h : EdgeValid ids e) : EdgeReadable e := by
  obtain ⟨edge, rfl, hs, ht, -⟩ := h
  exact ⟨edge, rfl, hashable_of_isOneOf hs, hashable_of_isOneOf ht⟩

/-- Its ends are known nodes. -/
theorem EdgeValid.ok {ids : List String} {e : Json} (h : EdgeValid ids e) :
    ∃ source target, EdgeOk ids e source target := by
  obtain ⟨edge, rfl, hs, ht, -⟩ := h
  obtain ⟨source, hsource, hs⟩ := isOneOf_iff.mp hs
  obtain ⟨target, htarget, ht⟩ := isOneOf_iff.mp ht
  refine ⟨source, target, ?_, hsource, htarget⟩
  simp [edgeEnds, Json.asDict, hs, ht, Json.text, bind, Except.bind, pure, Except.pure]

theorem edgeEnds_of_readable {e : Json} (h : EdgeReadable e) : Yields (edgeEnds e) (fun _ => True) := by
  obtain ⟨edge, rfl, -⟩ := h
  simp [edgeEnds, Json.asDict]

theorem mapM_edgeEnds {es : List Json} (h : ∀ e ∈ es, EdgeReadable e) :
    Yields (es.mapM edgeEnds) (fun _ => True) :=
  yields_mapM.mpr (fun e he => edgeEnds_of_readable (h e he))

/-- Only a list yields objects: a text yields its characters, an object its keys. -/
theorem yields_iter_edges {v : Json} {Q : List Json → Prop} (hQ : ∀ es, Q es → ∀ e ∈ es, EdgeReadable e) :
    Yields ((v.or (.arr [])).iter) Q ↔ ∃ es, v.or (.arr []) = .arr es ∧ Q es := by
  have hstr : ∀ s, ¬ EdgeReadable (.str s) := by
    rintro s ⟨edge, h, -⟩
    cases h
  constructor
  · rintro ⟨es, hes, h⟩
    refine ⟨es, ?_, h⟩
    unfold Json.or at hes ⊢
    split_ifs at hes ⊢ with ht
    · cases v with
      | arr xs => simpa [Json.iter] using hes
      | str s =>
        simp only [Json.iter, Except.ok.injEq] at hes
        cases hl : s.toList with
        | nil => simp_all [Json.truthy]
        | cons c cs =>
          rw [hl] at hes
          subst hes
          exact absurd (hQ _ h _ List.mem_cons_self) (hstr _)
      | obj d =>
        simp only [Json.iter, Except.ok.injEq] at hes
        cases d with
        | nil => simp [Json.truthy] at ht
        | cons kv d =>
          subst hes
          exact absurd (hQ _ h _ List.mem_cons_self) (hstr _)
      | _ => simp [Json.iter] at hes
    · simpa [Json.iter] using hes
  · rintro ⟨es, hes, h⟩
    rw [hes]
    simpa [Json.iter] using h

/-! ## Nodes -/

theorem pyEq_str {x : Json} {s : String} : x.pyEq (.str s) = true ↔ x = .str s := by
  cases x <;> simp [Json.pyEq, Json.num?]

theorem str_pyEq {x : Json} {s : String} : Json.pyEq (.str s) x = true ↔ x = .str s := by
  cases x with
  | str t => simpa [Json.pyEq] using eq_comm
  | _ => simp [Json.pyEq, Json.num?]

/-- A node `_has_upstream_approval` can read: an approval node's id goes into a set. -/
def ApprovalReadable (n : Json) : Prop :=
  ∃ node, n = .obj node ∧ (Dict.get node "type" = .str NodeType.approval.value → hashable (Dict.get node "id") = true)

theorem approvalIds_yields : ∀ {ns : List Json},
    Yields (approvalIds ns) (fun _ => True) ↔ ∀ n ∈ ns, ApprovalReadable n
  | [] => by simp [approvalIds]
  | n :: ns => by
    rw [approvalIds, List.forall_mem_cons, ← approvalIds_yields, yields_bind, yields_asDict]
    unfold ApprovalReadable
    rw [← exists_and_right]
    refine exists_congr fun node => ?_
    rw [and_assoc]
    refine and_congr_right fun _ => ?_
    by_cases ht : Dict.get node "type" = .str NodeType.approval.value
    · rw [if_pos (pyEq_str.mpr ht)]
      simp [yields_inNames, ht]
    · rw [if_neg (fun h => ht (pyEq_str.mp h))]
      simp [ht]

/-- On readable edges, `_has_upstream_approval` returns wherever the approval ids can be collected. -/
theorem hasUpstreamApproval_yields {id : String} {nodes : List Json} {edges : Json} (he : EdgesReadable edges) :
    Yields (hasUpstreamApproval id nodes edges) (fun _ => True) ↔ ∀ n ∈ nodes, ApprovalReadable n := by
  rw [← approvalIds_yields]
  unfold hasUpstreamApproval
  rw [yields_bind]
  constructor
  · exact fun h => h.mono (fun _ _ => trivial)
  · intro h
    refine h.mono fun approvals _ => ?_
    split_ifs
    · simp
    · obtain ⟨es, rfl, hes⟩ := he
      simp only [Json.iter, yields_bind, yields_ok, yields_pure]
      exact mapM_edgeEnds hes

/-- What the `approval` branch asks: assignees, a known strategy, and a quorum that fits. -/
structure ApprovalOk (node : Dict) : Prop where
  assignees : ∃ x xs, node.get "assignees" = .arr (x :: xs)
  strategy : ((node.get "strategy").or (.str "any")).text ∈ ["any", "all", "quorum"]
  quorum : ((node.get "strategy").or (.str "any")).text = "quorum" →
    ∃ q xs, (node.getD "quorum" (.int 1)).int? = some q ∧ node.get "assignees" = .arr xs ∧ 1 ≤ q ∧ q ≤ xs.length

theorem validateApproval_eq_nil {path : String} {node : Dict} :
    validateApproval path node = [] ↔ ApprovalOk node := by
  unfold validateApproval
  simp only [List.append_eq_nil_iff, problemIf_eq_nil, Bool.not_eq_false', list?_any_iff, Bool.and_eq_false_iff,
    beq_eq_false_iff_ne, List.contains_iff_mem]
  constructor
  · rintro ⟨⟨ha, hs⟩, hq⟩
    refine ⟨ha, hs, ?_⟩
    intro heq
    have hfits := hq.resolve_left (fun hne => hne heq)
    split at hfits
    · rename_i q xs hquorum hassignees
      rw [Bool.and_eq_true, decide_eq_true_eq, decide_eq_true_eq] at hfits
      exact ⟨q, xs, hquorum, list?_eq_some.mp hassignees, hfits⟩
    · cases hfits
  · rintro ⟨ha, hs, hq⟩
    refine ⟨⟨ha, hs⟩, ?_⟩
    rw [or_iff_not_imp_left, not_not]
    intro heq
    obtain ⟨q, xs, hquorum, hassignees, hlow, hhigh⟩ := hq heq
    rw [hquorum, list?_eq_some.mpr hassignees]
    simp [hlow, hhigh]

/-- What the branch of a node's type needs in order to be read. -/
def BranchReadable (nodes : List Json) (node : Dict) : NodeType → Prop
  | .action => requiresApproval (node.get "action").text = true → ∀ n ∈ nodes, ApprovalReadable n
  | .condition => ∀ cond, node.get "condition" = .obj cond → hashable (Dict.get cond "operator") = true
  | _ => True

/-- What the branch of a node's type asks of it. -/
def BranchOk (nodes : List Json) (edges : Json) (id : String) (node : Dict) : NodeType → Prop
  | .action => ∃ spec, actionCatalog.lookup (node.get "action").text = some spec ∧
      (spec.requiresApproval = true → hasUpstreamApproval id nodes edges = .ok true)
  | .condition => ∃ cond, node.get "condition" = .obj cond ∧ ConditionOk cond
  | .delay => InRange (node.get "delay_seconds") 1 31536000
  | .loop => InRange (node.getD "max_iterations" (.int maxLoopDefault)) 1 maxLoopHard
  | .parallel => ∃ s ∈ ["all", "any", "majority", "count"], node.getD "join" (.str "all") = .str s
  | .approval => ApprovalOk node
  | .subworkflow => True

theorem checkNodeType_yields {nodes : List Json} {edges : Json} (he : EdgesReadable edges) {path id : String}
    {node : Dict} {t : NodeType} :
    Yields (checkNodeType nodes edges path id node t) (fun _ => True) ↔ BranchReadable nodes node t := by
  cases t with
  | action =>
    unfold checkNodeType BranchReadable requiresApproval
    cases hl : actionCatalog.lookup (node.get "action").text with
    | none => simp [hl]
    | some spec =>
      simp only [hl]
      cases hs : spec.requiresApproval with
      | false => simp
      | true =>
        rw [if_pos rfl, yields_bind, ← hasUpstreamApproval_yields he]
        simp only [forall_const]
        constructor
        · exact fun h => h.mono (fun _ _ => trivial)
        · refine fun h => h.mono fun b _ => ?_
          split_ifs <;> simp
  | condition =>
    unfold checkNodeType BranchReadable
    rw [yields_bind, ← @validateCondition_yields node path]
    simp
  | _ => simp [checkNodeType, BranchReadable]

theorem checkNodeType_clean {nodes : List Json} {edges : Json} {path id : String} {node : Dict} {t : NodeType} :
    Yields (checkNodeType nodes edges path id node t) (fun check => check.problems = []) ↔
      BranchOk nodes edges id node t := by
  cases t with
  | action =>
    unfold checkNodeType BranchOk
    cases hl : actionCatalog.lookup (node.get "action").text with
    | none => simp [hl]
    | some spec =>
      simp only [hl, Option.some.injEq, exists_eq_left']
      cases hs : spec.requiresApproval with
      | false => simp
      | true =>
        rw [if_pos rfl, yields_bind]
        simp only [forall_const]
        constructor
        · rintro ⟨b, hb, h⟩
          cases b with
          | true => exact hb
          | false => simp at h
        · intro h
          rw [yields_of_eq h]
          simp
  | condition =>
    unfold checkNodeType BranchOk
    rw [yields_bind, ← @validateCondition_clean node path]
    simp
  | delay => simp [checkNodeType, BranchOk, validateRange_eq_nil]
  | loop => simp [checkNodeType, BranchOk, validateRange_eq_nil]
  | parallel =>
    unfold checkNodeType BranchOk
    simp only [yields_ok, Check.problems_ofProblems, problemIf_eq_nil, Bool.not_eq_false', List.any_eq_true, pyEq_str]
  | approval => simp [checkNodeType, BranchOk, validateApproval_eq_nil]
  | subworkflow => simp [checkNodeType, BranchOk, Check.empty]

/-- What `inputs` needs in order to be read. -/
def InputsReadable (node : Dict) : Prop := ∃ kvs, (node.get "inputs").or (.obj []) = .obj kvs

/-- Readable inputs whose templates are acceptable expressions. -/
def InputsOk (node : Dict) : Prop := ∃ kvs, (node.get "inputs").or (.obj []) = .obj kvs ∧
  ∀ kv ∈ kvs, ∀ s, kv.2 = .str s → contains s "\x7b\x7b" = true → ExpressionOk s

theorem checkInputs_yields {path : String} {node : Dict} :
    Yields (checkInputs path node) (fun _ => True) ↔ InputsReadable node := by
  unfold checkInputs InputsReadable
  split
  · rename_i kvs hk
    simp [hk]
  · rename_i hne
    simp only [yields_error, false_iff, not_exists]
    exact hne

theorem checkInputs_clean {path : String} {node : Dict} :
    Yields (checkInputs path node) (· = []) ↔ InputsOk node := by
  unfold checkInputs InputsOk
  split
  · rename_i kvs hk
    simp only [yields_ok, hk, Json.obj.injEq, exists_eq_left', List.flatMap_eq_nil_iff]
    refine forall₂_congr fun kv _ => ?_
    cases kv.2 with
    | str s => cases hc : contains s "\x7b\x7b" <;> simp [Json.str?, hc, validateExpression_eq_nil]
    | _ => simp [Json.str?]
  · rename_i hne
    simp only [yields_error, false_iff, not_exists, not_and]
    exact fun kvs hk => absurd hk (hne kvs)

/-- A node the validator can read.  Without a string id or a known type the loop goes on to the next node. -/
def NodeReadable (nodes : List Json) (n : Json) : Prop :=
  ∃ node, n = .obj node ∧ ∀ id, Dict.get node "id" = .str id → id ≠ "" →
    ∀ t, NodeType.ofJson? (Dict.get node "type") = some t → BranchReadable nodes node t ∧ InputsReadable node

/-- A node without problems, under the given id. -/
structure NodeValid (nodes : List Json) (edges : Json) (n : Json) (id : String) : Prop where
  named : id ≠ ""
  checked : ∃ node t, n = .obj node ∧ Dict.get node "id" = .str id ∧
    NodeType.ofJson? (Dict.get node "type") = some t ∧ BranchOk nodes edges id node t ∧ InputsOk node

theorem validateNode_yields {nodes : List Json} {edges : Json} (he : EdgesReadable edges) {ids : List String}
    {index : ℕ} {n : Json} :
    Yields (validateNode nodes edges ids index n) (fun _ => True) ↔ NodeReadable nodes n := by
  unfold validateNode NodeReadable
  simp only [yields_bind, yields_asDict]
  refine exists_congr fun node => and_congr_right fun _ => ?_
  split
  · rename_i id hid
    simp only [hid, Json.str.injEq, forall_eq']
    split_ifs with hne
    · simp [hne]
    · simp only [ne_eq, hne, not_false_eq_true, true_implies]
      split
      · rename_i ht
        simp [ht]
      · rename_i t ht
        simp only [ht, Option.some.injEq, forall_eq', yields_bind, yields_pure]
        rw [← checkNodeType_yields he, ← checkInputs_yields]
        constructor
        · rintro ⟨check, hc, hi⟩
          exact ⟨⟨check, hc, trivial⟩, hi⟩
        · rintro ⟨⟨check, hc, -⟩, hi⟩
          exact ⟨check, hc, hi⟩
  · rename_i hne
    simp only [yields_pure, true_iff]
    exact fun id hid => absurd hid (hne id)

theorem validateNode_clean {nodes : List Json} {edges : Json} {ids : List String} {index : ℕ} {n : Json}
    {R : Option String → Prop} :
    Yields (validateNode nodes edges ids index n) (fun r => r.2.problems = [] ∧ R r.1) ↔
      ∃ id, NodeValid nodes edges n id ∧ id ∉ ids ∧ R (some id) := by
  constructor
  · intro h
    unfold validateNode at h
    simp only [yields_bind, yields_asDict] at h
    obtain ⟨node, rfl, h⟩ := h
    split at h
    · rename_i id hid
      split_ifs at h with hne
      · simp at h
      · split at h
        · simp at h
        · rename_i t ht
          simp only [yields_bind, yields_pure, Check.problems_append, Check.problems_ofProblems,
            List.append_eq_nil_iff, problemIf_eq_nil] at h
          obtain ⟨check, hcheck, inputs, hinputs, ⟨⟨hdup, hc⟩, rfl⟩, hR⟩ := h
          refine ⟨id, ⟨hne, node, t, rfl, hid, ht, ?_, ?_⟩, by simpa using hdup, hR⟩
          · exact checkNodeType_clean.mp ⟨check, hcheck, hc⟩
          · exact checkInputs_clean.mp ⟨[], hinputs, rfl⟩
    · simp at h
  · rintro ⟨id, ⟨hne, node, t, rfl, hid, ht, hbranch, hinputs⟩, hfresh, hR⟩
    obtain ⟨check, hcheck, hc⟩ := checkNodeType_clean.mpr hbranch
    obtain ⟨inputs, hin, rfl⟩ := checkInputs_clean.mpr hinputs
    unfold validateNode
    simp only [yields_bind, yields_asDict, Json.obj.injEq, exists_eq_left', hid, if_neg hne, ht]
    refine ⟨check, hcheck, [], hin, ?_⟩
    simp [hc, hfresh, hR]

/-- The id under which the loop registers a node with a string id. -/
def nodeIdOf (n : Json) : String :=
  match n with
  | .obj node => (Dict.get node "id").text
  | _ => ""

theorem NodeValid.id_eq {nodes : List Json} {edges n : Json} {id : String} (h : NodeValid nodes edges n id) :
    nodeIdOf n = id := by
  obtain ⟨node, t, rfl, hid, -⟩ := h.checked
  simp [nodeIdOf, hid]

/-- The id that the loop over the nodes registers. -/
def registeredId (n : Json) : Option String :=
  match n with
  | .obj node =>
    match Dict.get node "id" with
    | .str id => if id = "" then none else some id
    | _ => none
  | _ => none

theorem registeredId_of_str {node : Dict} {id : String} (h : node.get "id" = .str id) :
    registeredId (.obj node) = if id = "" then none else some id := by
  simp only [registeredId, h]

theorem registeredId_of_not_str {node : Dict} (h : ∀ id, node.get "id" ≠ .str id) :
    registeredId (.obj node) = none := by
  rw [registeredId]
  split
  · next id hid => exact absurd hid (h id)
  · rfl

/-- `node_ids` after the loop. -/
def registeredIds (nodes : List Json) : List String := (nodes.filterMap registeredId).foldl insertId []

theorem validateNode_registers {nodes : List Json} {edges : Json} {ids : List String} {index : ℕ} {n : Json}
    {r : Option String × Check} (h : validateNode nodes edges ids index n = .ok r) : r.1 = registeredId n := by
  unfold validateNode at h
  obtain ⟨node, hnode, h⟩ := bind_eq_ok.mp h
  obtain ⟨_, hn, rfl⟩ := (@yields_asDict n (node = ·)).mp ⟨node, hnode, rfl⟩
  rw [hn]
  split at h
  · next id hid =>
    rw [registeredId_of_str hid]
    split_ifs at h ⊢ with hne
    · rw [← pure_eq_ok.mp h]
    · simp only at h
      split at h
      · rw [← pure_eq_ok.mp h]
      · obtain ⟨check, -, h⟩ := bind_eq_ok.mp h
        obtain ⟨inputs, -, h⟩ := bind_eq_ok.mp h
        rw [← pure_eq_ok.mp h]
  · next hid =>
    rw [← pure_eq_ok.mp h, registeredId_of_not_str hid]

theorem validateNodes_registers {nodes : List Json} {edges : Json} : ∀ {ns : List Json} {index : ℕ}
    {ids : List String} {r : List String × Check}, validateNodes nodes edges index ids ns = .ok r →
      r.1 = (ns.filterMap registeredId).foldl insertId ids
  | [], _, ids, r, h => by rw [← Except.ok.inj h]; rfl
  | n :: ns, index, ids, r, h => by
    rw [validateNodes, bind_eq_ok] at h
    obtain ⟨⟨reg, check⟩, hn, h⟩ := h
    obtain ⟨r', hrest, h⟩ := bind_eq_ok.mp h
    have hreg : reg = registeredId n := validateNode_registers hn
    rw [← pure_eq_ok.mp h]
    simp only
    rw [validateNodes_registers hrest, hreg]
    cases hid : registeredId n <;> simp [hid]

theorem validateNodes_yields {nodes : List Json} {edges : Json} (he : EdgesReadable edges) :
    ∀ {ns : List Json} {index : ℕ} {ids : List String},
      Yields (validateNodes nodes edges index ids ns) (fun _ => True) ↔ ∀ n ∈ ns, NodeReadable nodes n
  | [], _, _ => by simp [validateNodes]
  | n :: ns, index, ids => by
    rw [validateNodes, List.forall_mem_cons, ← validateNode_yields he]
    simp only [yields_bind, yields_pure]
    constructor
    · rintro ⟨r, hr, h⟩
      exact ⟨⟨r, hr, trivial⟩, (validateNodes_yields he).mp h⟩
    · rintro ⟨⟨r, hr, -⟩, h⟩
      exact ⟨r, hr, (validateNodes_yields he).mpr h⟩

/-- The loop over the nodes without a problem: each node is valid, the ids are fresh and distinct. -/
theorem validateNodes_clean {nodes : List Json} {edges : Json} :
    ∀ {ns : List Json} {index : ℕ} {ids : List String} {R : List String → Prop},
      Yields (validateNodes nodes edges index ids ns) (fun r => r.2.problems = [] ∧ R r.1) ↔
        (∀ n ∈ ns, NodeValid nodes edges n (nodeIdOf n)) ∧
          ((ns.map nodeIdOf).Nodup ∧ ∀ x ∈ ns.map nodeIdOf, x ∉ ids) ∧ R (ids ++ ns.map nodeIdOf)
  | [], _, ids, R => by simp [validateNodes, Check.empty]
  | n :: ns, index, ids, R => by
    have hfold : ∀ {id : String}, id ∉ ids → (some id).toList.foldl insertId ids = ids ++ [id] :=
      fun h => if_neg h
    have hrest : ∀ {id : String}, (ns.map nodeIdOf).Nodup ∧ (∀ x ∈ ns.map nodeIdOf, x ∉ ids ++ [id]) ↔
        id ∉ ns.map nodeIdOf ∧ (ns.map nodeIdOf).Nodup ∧ ∀ x ∈ ns.map nodeIdOf, x ∉ ids := by
      intro id
      simp only [List.mem_append, List.mem_singleton, not_or]
      constructor
      · rintro ⟨hnd, h⟩
        exact ⟨fun hm => (h id hm).2 rfl, hnd, fun x hx => (h x hx).1⟩
      · rintro ⟨hid, hnd, h⟩
        exact ⟨hnd, fun x hx => ⟨h x hx, fun heq => hid (heq ▸ hx)⟩⟩
    rw [validateNodes]
    simp only [yields_bind, yields_pure, Check.problems_append, List.append_eq_nil_iff]
    constructor
    · rintro ⟨⟨reg, check⟩, hn, ⟨ids', check'⟩, hloop, ⟨hc, hc'⟩, hR⟩
      obtain ⟨id, hvalid, hfresh, hreg⟩ :=
        (@validateNode_clean _ _ _ _ _ (fun r => reg = r)).mp ⟨(reg, check), hn, hc, rfl⟩
      obtain rfl := hvalid.id_eq
      rw [hreg, hfold hfresh] at hloop
      obtain ⟨hall, hids, hR⟩ := validateNodes_clean.mp ⟨(ids', check'), hloop, hc', hR⟩
      obtain ⟨hnew, hnd, hdisj⟩ := hrest.mp hids
      refine ⟨List.forall_mem_cons.mpr ⟨hvalid, hall⟩, ⟨List.nodup_cons.mpr ⟨hnew, hnd⟩, ?_⟩, by simpa using hR⟩
      exact List.forall_mem_cons.mpr ⟨hfresh, hdisj⟩
    · rintro ⟨hall, ⟨hnd, hdisj⟩, hR⟩
      obtain ⟨hvalid, hall⟩ := List.forall_mem_cons.mp hall
      obtain ⟨hnew, hnd⟩ := List.nodup_cons.mp hnd
      obtain ⟨hfresh, hdisj⟩ := List.forall_mem_cons.mp hdisj
      obtain ⟨⟨reg, check⟩, hn, hc, hreg⟩ :=
        (@validateNode_clean nodes edges ids index n (fun r => r = some (nodeIdOf n))).mpr ⟨_, hvalid, hfresh, rfl⟩
      obtain ⟨r, hloop, hc', hR⟩ := (@validateNodes_clean nodes edges ns (index + 1) (ids ++ [nodeIdOf n]) R).mpr
        ⟨hall, hrest.mpr ⟨hnew, hnd, hdisj⟩, by simpa using hR⟩
      have hreg' : reg = some (nodeIdOf n) := hreg
      refine ⟨(reg, check), hn, r, ?_, ⟨hc, hc'⟩, hR⟩
      rw [hreg', hfold hfresh]
      exact hloop

/-! ## The policy -/

/-- The bounded integers of the policy. -/
def policyRanges : List (String × ℤ × ℤ) :=
  [("concurrency", 1, 100), ("timeout_seconds", 60, 86400), ("retry_attempts", 0, 10),
    ("retry_initial_seconds", 1, 300), ("retry_max_seconds", 60, 3600)]

/-- The keys `_validate_policy` looks for. -/
def policyKeys : List String := policyRanges.map (·.1) ++ ["error_policy", "retry_strategy"]

/-- `key in policy` and then `policy[key]` can be evaluated: the policy is an object, or a list or text in
which the key is not found. -/
def KeyReadable (policy : Json) (key : String) : Prop :=
  match policy with
  | .obj _ => True
  | .arr xs => .str key ∉ xs
  | .str s => contains s key = false
  | _ => False

/-- A policy that can be read. -/
def PolicyReadable (policy : Json) : Prop := ∀ key ∈ policyKeys, KeyReadable policy key

/-- What `_validate_policy` asks of a policy object. -/
structure PolicyOk (policy : Dict) : Prop where
  ranges : ∀ r ∈ policyRanges, ∀ v, policy.lookup r.1 = some v → InRange v r.2.1 r.2.2
  error : ∀ v, policy.lookup "error_policy" = some v → (ErrorPolicy.ofJson? v).isSome = true
  strategy : ∀ v, policy.lookup "retry_strategy" = some v → ∃ s ∈ ["fixed", "exponential", "linear"], v = .str s

/-- The shape of every check of the policy. -/
def keyCheck (policy : Json) (key : String) (f : Json → List String) : Except PyError (List String) := do
  if ← hasItem policy key then return f (← getItem policy key)
  return []

theorem keyCheck_yields {policy : Json} {key : String} {f : Json → List String} :
    Yields (keyCheck policy key f) (fun _ => True) ↔ KeyReadable policy key := by
  unfold keyCheck KeyReadable
  cases policy with
  | obj p => cases hl : p.lookup key <;> simp [hasItem, Json.pyIn, Dict.has, getItem, hl]
  | arr xs =>
    by_cases hm : .str key ∈ xs
    · have hany : xs.any (fun y => Json.pyEq (.str key) y) = true := List.any_eq_true.mpr ⟨_, hm, str_pyEq.mpr rfl⟩
      simp [hasItem, Json.pyIn, hany, getItem, hm]
    · have hany : xs.any (fun y => Json.pyEq (.str key) y) = false := by
        rw [List.any_eq_false]
        intro y hy heq
        exact hm (str_pyEq.mp heq ▸ hy)
      simp [hasItem, Json.pyIn, hany, hm]
  | str s => cases hc : contains s key <;> simp [hasItem, Json.pyIn, Json.str?, hc, getItem]
  | _ => simp [hasItem, Json.pyIn]

theorem keyCheck_clean {policy : Json} {key : String} {f : Json → List String} :
    Yields (keyCheck policy key f) (· = []) ↔
      KeyReadable policy key ∧ ∀ p, policy = .obj p → ∀ v, p.lookup key = some v → f v = [] := by
  cases policy with
  | obj p =>
    cases hl : p.lookup key <;> simp [keyCheck, KeyReadable, hasItem, Json.pyIn, Dict.has, getItem, hl]
  | _ =>
    -- a check that returns without having found the key reports nothing
    rw [← @keyCheck_yields _ key f]
    simp only [reduceCtorEq, false_implies, implies_true, and_true]
    refine ⟨fun h => h.mono (fun _ _ => trivial), ?_⟩
    rintro ⟨ps, hps, -⟩
    refine ⟨ps, hps, ?_⟩
    unfold keyCheck at hps
    obtain ⟨b, -, hps⟩ := bind_eq_ok.mp hps
    split_ifs at hps with hb
    · simp [getItem, bind, Except.bind] at hps
    · exact (pure_eq_ok.mp hps).symm

section Policy

variable {policy : Json}

theorem checkPolicyInt_eq {key : String} {low high : ℤ} : checkPolicyInt policy key low high =
    keyCheck policy key (fun v => validateRange v low high
      ("global_policy." ++ key ++ " must be an integer between " ++ toString low ++ " and " ++ toString high)) := rfl

theorem checkErrorPolicy_eq : checkErrorPolicy policy = keyCheck policy "error_policy" (fun v =>
    problemIf (ErrorPolicy.ofJson? v).isNone ("unknown error policy '" ++ v.text ++ "'")) := rfl

theorem checkRetryStrategy_eq : checkRetryStrategy policy = keyCheck policy "retry_strategy" (fun v =>
    problemIf (!(["fixed", "exponential", "linear"].any (fun s => v.pyEq (.str s))))
      "retry_strategy must be fixed, exponential or linear") := rfl

theorem validatePolicy_yields : Yields (validatePolicy policy) (fun _ => True) ↔ PolicyReadable policy := by
  have key : ∀ {key : String} {f : Json → List String} {P : Prop},
      Yields (keyCheck policy key f) (fun _ => P) ↔ KeyReadable policy key ∧ P := by
    intro key f P
    rw [← @keyCheck_yields policy key f]
    constructor
    · rintro ⟨ps, hps, h⟩
      exact ⟨⟨ps, hps, trivial⟩, h⟩
    · rintro ⟨⟨ps, hps, -⟩, h⟩
      exact ⟨ps, hps, h⟩
  unfold validatePolicy PolicyReadable policyKeys policyRanges
  simp only [yields_bind, yields_pure, checkPolicyInt_eq, checkErrorPolicy_eq, checkRetryStrategy_eq, key]
  simp

theorem policyInt_clean {key : String} {low high : ℤ} : Yields (checkPolicyInt policy key low high) (· = []) ↔
    KeyReadable policy key ∧ ∀ p, policy = .obj p → ∀ v, p.lookup key = some v → InRange v low high := by
  rw [checkPolicyInt_eq, keyCheck_clean]
  simp only [validateRange_eq_nil]

theorem errorPolicy_clean : Yields (checkErrorPolicy policy) (· = []) ↔ KeyReadable policy "error_policy" ∧
    ∀ p, policy = .obj p → ∀ v, p.lookup "error_policy" = some v → (ErrorPolicy.ofJson? v).isSome = true := by
  rw [checkErrorPolicy_eq, keyCheck_clean]
  simp only [problemIf_eq_nil, Option.isNone_eq_false_iff]

theorem retryStrategy_clean : Yields (checkRetryStrategy policy) (· = []) ↔ KeyReadable policy "retry_strategy" ∧
    ∀ p, policy = .obj p → ∀ v, p.lookup "retry_strategy" = some v →
      ∃ s ∈ ["fixed", "exponential", "linear"], v = .str s := by
  rw [checkRetryStrategy_eq, keyCheck_clean]
  simp only [problemIf_eq_nil, Bool.not_eq_false', List.any_eq_true, pyEq_str]

theorem validatePolicy_clean : Yields (validatePolicy policy) (· = []) ↔
    PolicyReadable policy ∧ ∀ p, policy = .obj p → PolicyOk p := by
  have hsplit : Yields (validatePolicy policy) (· = []) ↔
      (∀ r ∈ policyRanges, Yields (checkPolicyInt policy r.1 r.2.1 r.2.2) (· = [])) ∧
        Yields (checkErrorPolicy policy) (· = []) ∧ Yields (checkRetryStrategy policy) (· = []) := by
    unfold validatePolicy policyRanges
    simp only [yields_bind, yields_pure, List.append_eq_nil_iff, List.forall_mem_cons, List.not_mem_nil,
      false_implies, implies_true, and_true]
    constructor
    · rintro ⟨_, h1, _, h2, _, h3, _, h4, _, h5, _, h6, _, h7, ⟨⟨⟨⟨⟨rfl, rfl⟩, rfl⟩, rfl⟩, rfl⟩, rfl⟩, rfl⟩
      exact ⟨⟨⟨_, h1, rfl⟩, ⟨_, h2, rfl⟩, ⟨_, h3, rfl⟩, ⟨_, h4, rfl⟩, ⟨_, h5, rfl⟩⟩, ⟨_, h6, rfl⟩, ⟨_, h7, rfl⟩⟩
    · rintro ⟨⟨⟨_, h1, rfl⟩, ⟨_, h2, rfl⟩, ⟨_, h3, rfl⟩, ⟨_, h4, rfl⟩, ⟨_, h5, rfl⟩⟩, ⟨_, h6, rfl⟩, ⟨_, h7, rfl⟩⟩
      exact ⟨_, h1, _, h2, _, h3, _, h4, _, h5, _, h6, _, h7, ⟨⟨⟨⟨⟨rfl, rfl⟩, rfl⟩, rfl⟩, rfl⟩, rfl⟩, rfl⟩
  rw [hsplit, errorPolicy_clean, retryStrategy_clean]
  simp only [policyInt_clean]
  constructor
  · rintro ⟨hr, ⟨hke, he⟩, hks, hs⟩
    refine ⟨?_, fun p hp => ⟨fun r hm => (hr r hm).2 p hp, he p hp, hs p hp⟩⟩
    unfold PolicyReadable policyKeys
    simp only [List.forall_mem_append, List.forall_mem_map, List.forall_mem_cons]
    exact ⟨fun r hm => (hr r hm).1, hke, hks, fun _ h => absurd h List.not_mem_nil⟩
  · rintro ⟨hread, hok⟩
    unfold PolicyReadable policyKeys at hread
    simp only [List.forall_mem_append, List.forall_mem_map, List.forall_mem_cons] at hread
    exact ⟨fun r hm => ⟨hread.1 r hm, fun p hp => (hok p hp).ranges r hm⟩,
      ⟨hread.2.1, fun p hp => (hok p hp).error⟩, hread.2.2.1, fun p hp => (hok p hp).strategy⟩

end Policy

/-! ## The document -/

/-- The edges as the validator reads them. -/
def validatedEdges (doc : Dict) : Json := (doc.get "edges").or (.arr [])

/-- **Readable documents**: the shapes on which no read of the validator raises. -/
structure Readable (doc : Dict) : Prop where
  trigger : ∃ t, (doc.get "trigger").or (.obj []) = .obj t ∧ hashable (Dict.get t "type") = true
  nodes : ∀ n ∈ (documentNodes doc).1, NodeReadable (documentNodes doc).1 n
  edges : EdgesReadable (validatedEdges doc)
  policy : PolicyReadable ((doc.get "global_policy").or (.obj []))

theorem validateTrigger_yields {doc : Dict} : Yields (validateTrigger doc) (fun _ => True) ↔
    ∃ t, (doc.get "trigger").or (.obj []) = .obj t ∧ hashable (Dict.get t "type") = true := by
  unfold validateTrigger
  simp [yields_asDict, yields_inNames]

theorem validateTrigger_clean {doc : Dict} : Yields (validateTrigger doc) (· = []) ↔
    ∃ t, (doc.get "trigger").or (.obj []) = .obj t ∧ isOneOf triggerTypes (Dict.get t "type") = true := by
  unfold validateTrigger
  simp only [yields_bind, yields_asDict, yields_inNames, yields_pure, problemIf_eq_nil, Bool.not_eq_false']
  refine exists_congr fun t => and_congr_right fun _ => ?_
  exact and_iff_right_of_imp hashable_of_isOneOf

/-- The ends of the edges, where they can be read. -/
def edgePairs (edges : Json) : List (String × String) :=
  match edges.iter >>= List.mapM edgeEnds with
  | .ok pairs => pairs
  | .error _ => []

/-- The stack holds the search for a cycle, where there is one: the calls of `visit` nest no deeper than it allows. -/
def SearchFits (py : Interpreter) (doc : Dict) : Prop :=
  registeredIds (documentNodes doc).1 ≠ [] → (validatedEdges doc).truthy = true →
    cycleDepth (py.order (registeredIds (documentNodes doc).1)) (edgePairs (validatedEdges doc)) ≤ py.visits

/-- No node is reached from itself along the edges. -/
def Acyclic (es : List Json) : Prop :=
  ∀ x, ¬ Relation.TransGen (fun u v => ∃ e ∈ es, edgeEnds e = .ok (u, v)) x x

theorem edgePairs_eq {es : List Json} (h : ∀ e ∈ es, EdgeReadable e) :
    es.mapM edgeEnds = .ok (edgePairs (.arr es)) := by
  obtain ⟨pairs, hpairs, -⟩ := mapM_edgeEnds h
  have hiter : (Json.arr es).iter >>= List.mapM edgeEnds = .ok pairs := hpairs
  rw [hpairs, edgePairs, hiter]

theorem detectCycle_eq (py : Interpreter) {ids : List String} {es : List Json} (h : ∀ e ∈ es, EdgeReadable e) :
    detectCycle py ids (.arr es) es =
      if ids ≠ [] ∧ (Json.arr es).truthy = true then
        if py.visits < cycleDepth (py.order ids) (edgePairs (.arr es)) then .error .recursionError
        else .ok (findsCycle (cycleAdjacency (py.order ids) (edgePairs (.arr es))) ((py.order ids).length + 1)
          (py.order ids) (fun _ => .white))
      else .ok false := by
  unfold detectCycle hasCycle
  rw [edgePairs_eq h]
  simp only [List.isEmpty_eq_false_iff]
  rfl

theorem detectCycle_yields {py : Interpreter} {ids : List String} {es : List Json} (h : ∀ e ∈ es, EdgeReadable e) :
    Yields (detectCycle py ids (.arr es) es) (fun _ => True) ↔ (ids ≠ [] → (Json.arr es).truthy = true →
      cycleDepth (py.order ids) (edgePairs (.arr es)) ≤ py.visits) := by
  rw [detectCycle_eq py h]
  split_ifs with hsearch hdeep
  · simpa [hsearch] using hdeep
  · simpa [hsearch] using hdeep
  · simp only [yields_ok, true_iff]
    exact fun hne ht => absurd ⟨hne, ht⟩ hsearch

/-- A search that answers over valid edges answers `False` exactly if they have no cycle. -/
theorem detectCycle_clean {py : Interpreter} {ids : List String} {es : List Json} (h : ∀ e ∈ es, EdgeValid ids e) :
    Yields (detectCycle py ids (.arr es) es) (· = false) ↔
      Yields (detectCycle py ids (.arr es) es) (fun _ => True) ∧ Acyclic es := by
  have hread : ∀ e ∈ es, EdgeReadable e := fun e he => (h e he).readable
  constructor
  · rintro ⟨cyclic, hcyclic, rfl⟩
    refine ⟨⟨false, hcyclic, trivial⟩, fun x hx => ?_⟩
    have hwf : WellFounded (fun v u => ∃ e ∈ es, edgeEnds e = .ok (u, v)) := by
      refine @acyclic_of_accepted (.arr es) ids es (by cases es <;> rfl) (fun e he => (h e he).ok) fun ht hne => ?_
      have ht' : (Json.arr es).truthy = true := by cases es <;> simp_all [Json.or, Json.truthy]
      rw [detectCycle, if_pos ⟨by simpa using hne, ht'⟩] at hcyclic
      exact ⟨py.visits, py.order ids, py.order_perm ids, hcyclic⟩
    exact (hwf.transGen).irrefl.irrefl x (Relation.transGen_swap.mpr hx)
  · rintro ⟨⟨cyclic, hcyclic, -⟩, hacyclic⟩
    refine ⟨cyclic, hcyclic, ?_⟩
    rw [detectCycle_eq py hread] at hcyclic
    split_ifs at hcyclic
    · rw [← Except.ok.inj hcyclic]
      refine Bool.eq_false_iff.mpr fun hfound => ?_
      obtain ⟨x, hx⟩ := (findsCycle_iff (fun x y hy => (mem_cycleAdjacency.mp hy).2.1) (Nat.le_succ _)).mp hfound
      refine hacyclic x (Relation.TransGen.mono (fun u v hv => ?_) x x hx)
      obtain ⟨e, he, hends⟩ := mem_of_forall₂_right (mapM_eq_ok (edgePairs_eq hread)) (mem_cycleAdjacency.mp hv).2.2
      exact ⟨e, he, hends⟩
    · exact (Except.ok.inj hcyclic).symm

theorem unreachableNodes_yields {nodes es : List Json} (hn : ∀ n ∈ nodes, ∃ node, n = .obj node)
    (he : ∀ e ∈ es, EdgeReadable e) : Yields (unreachableNodes nodes es) (fun _ => True) := by
  unfold unreachableNodes
  rw [yields_bind]
  have hdicts : Yields (nodes.mapM Json.asDict) (fun _ => True) := by
    refine yields_mapM.mpr fun n hm => ?_
    obtain ⟨node, rfl⟩ := hn n hm
    simp [Json.asDict]
  refine hdicts.mono fun dicts _ => ?_
  simp only
  split_ifs
  · simp
  · rw [yields_bind]
    refine (mapM_edgeEnds he).mono fun pairs _ => ?_
    split <;> simp

/-- **Validation returns a report** on the readable documents for which the stack holds the search and the hash
exists. -/
theorem validateWorkflow_yields {py : Interpreter} {doc : Dict} :
    Yields (validateWorkflow py doc) (fun _ => True) ↔
      Readable doc ∧ SearchFits py doc ∧ Yields (canonicalHash py doc) (fun _ => True) := by
  unfold validateWorkflow
  simp only [yields_bind, yields_pure]
  constructor
  · rintro ⟨trigger, htrigger, ⟨ids, check⟩, hnodes, es, hes, eps, heps, cyclic, hcyclic, -, -, policy, hpolicy, hhash⟩
    have hread : ∀ e ∈ es, EdgeReadable e := validateEdges_yields.mp ⟨eps, heps, trivial⟩
    obtain ⟨es', hes', rfl⟩ := (@yields_iter_edges _ (fun x => x = es) (fun _ h e he => hread e (h ▸ he))).mp
      ⟨es, hes, rfl⟩
    have hedges : EdgesReadable (validatedEdges doc) := ⟨es', hes', hread⟩
    have hids : ids = registeredIds (documentNodes doc).1 := validateNodes_registers hnodes
    refine ⟨⟨validateTrigger_yields.mp ⟨trigger, htrigger, trivial⟩,
      (validateNodes_yields hedges).mp ⟨(ids, check), hnodes, trivial⟩, hedges,
      validatePolicy_yields.mp ⟨policy, hpolicy, trivial⟩⟩, ?_, hhash⟩
    rw [hes'] at hcyclic
    unfold SearchFits validatedEdges
    rw [hes', ← hids]
    exact (detectCycle_yields hread).mp ⟨cyclic, hcyclic, trivial⟩
  · rintro ⟨⟨htrigger, hnodes, hedges, hpolicy⟩, hfits, hhash⟩
    obtain ⟨trigger, htrigger, -⟩ := validateTrigger_yields.mpr htrigger
    obtain ⟨r, hr, -⟩ := (@validateNodes_yields _ _ hedges _ 0 []).mpr hnodes
    obtain ⟨es, hes, hread⟩ := hedges
    obtain ⟨eps, heps, -⟩ := (@validateEdges_yields r.1 es 0).mpr hread
    have hids : r.1 = registeredIds (documentNodes doc).1 := validateNodes_registers hr
    unfold SearchFits at hfits
    rw [hes, ← hids] at hfits
    obtain ⟨cyclic, hcyclic, -⟩ := (detectCycle_yields hread).mpr hfits
    rw [← hes] at hcyclic
    have hobj : ∀ n ∈ (documentNodes doc).1, ∃ node, n = .obj node := by
      intro n hm
      obtain ⟨node, rfl, -⟩ := hnodes n hm
      exact ⟨node, rfl⟩
    obtain ⟨unreachable, hunreachable, -⟩ := unreachableNodes_yields hobj hread
    have hiter : (validatedEdges doc).iter = .ok es := by rw [hes]; rfl
    obtain ⟨policy, hpolicy, -⟩ := validatePolicy_yields.mpr hpolicy
    exact ⟨trigger, htrigger, r, hr, es, hiter, eps, heps, cyclic, hcyclic, unreachable, hunreachable, policy, hpolicy,
      hhash⟩

/-- **Valid documents**: what the checks ask, field by field. -/
structure ValidDocument (doc : Dict) : Prop where
  name : ∃ s, doc.getD "name" (.str "") = .str s ∧ 1 ≤ s.length ∧ s.length ≤ maxName
  description : (doc.getD "description" (.str "")).text.length ≤ maxDescription
  category : (Category.ofJson? (doc.getD "category" (.str "custom"))).isSome = true
  trigger : ∃ t, (doc.get "trigger").or (.obj []) = .obj t ∧ isOneOf triggerTypes (Dict.get t "type") = true
  nodes : ∃ n ns, doc.get "nodes" = .arr (n :: ns) ∧ (n :: ns).length ≤ maxNodes
  node : ∀ n ∈ (documentNodes doc).1, NodeValid (documentNodes doc).1 (validatedEdges doc) n (nodeIdOf n)
  distinct : ((documentNodes doc).1.map nodeIdOf).Nodup
  edges : ∃ es, validatedEdges doc = .arr es ∧ (∀ e ∈ es, EdgeValid ((documentNodes doc).1.map nodeIdOf) e) ∧
    Acyclic es
  policy : PolicyReadable ((doc.get "global_policy").or (.obj [])) ∧
    ∀ p, (doc.get "global_policy").or (.obj []) = .obj p → PolicyOk p

theorem validateHeader_eq_nil {doc : Dict} : validateHeader doc = [] ↔
    (∃ s, doc.getD "name" (.str "") = .str s ∧ 1 ≤ s.length ∧ s.length ≤ maxName) ∧
      (doc.getD "description" (.str "")).text.length ≤ maxDescription ∧
      (Category.ofJson? (doc.getD "category" (.str "custom"))).isSome = true := by
  unfold validateHeader
  simp only [List.append_eq_nil_iff, problemIf_eq_nil, Bool.not_eq_false', decide_eq_false_iff_not, not_lt,
    Option.isNone_eq_false_iff, and_assoc]
  refine and_congr_left fun _ => ?_
  cases doc.getD "name" (.str "") <;> simp [Json.str?]

theorem documentNodes_eq_nil {doc : Dict} : (documentNodes doc).2 = [] ↔
    ∃ n ns, doc.get "nodes" = .arr (n :: ns) ∧ (n :: ns).length ≤ maxNodes := by
  unfold documentNodes
  split
  · rename_i n ns hl
    have hdoc := or_nil_eq_cons.mp (list?_eq_some.mp hl)
    simp [hdoc]
  · rename_i hne
    simp only [List.cons_ne_nil, false_iff, not_exists, not_and]
    intro n ns hdoc
    exact absurd (list?_eq_some.mpr (or_nil_eq_cons.mpr hdoc)) (hne n ns)

/-- **Validity.**  A report is valid exactly on the valid documents. -/
theorem validateWorkflow_clean {py : Interpreter} {doc : Dict} :
    Yields (validateWorkflow py doc) (fun report => report.valid = true) ↔
      ValidDocument doc ∧ SearchFits py doc ∧ Yields (canonicalHash py doc) (fun _ => True) := by
  constructor
  · intro h
    refine ⟨?_, (validateWorkflow_yields.mp (h.mono fun _ _ => trivial)).2⟩
    unfold validateWorkflow at h
    simp only [yields_bind, yields_pure, List.isEmpty_iff, List.append_eq_nil_iff, problemIf_eq_nil] at h
    obtain ⟨trigger, htrigger, ⟨ids, check⟩, hnodes, es, hes, eps, heps, cyclic, hcyclic, -, -, policy, hpolicy, -, -,
      ⟨⟨⟨⟨⟨hheader, rfl⟩, hlist⟩, hcheck⟩, rfl⟩, rfl⟩, rfl⟩ := h
    obtain ⟨hname, hdescription, hcategory⟩ := validateHeader_eq_nil.mp hheader
    obtain ⟨hall, ⟨hnd, -⟩, hids⟩ := (@validateNodes_clean _ _ _ _ _ (fun x => ids = x)).mp
      ⟨(ids, check), hnodes, hcheck, rfl⟩
    rw [List.nil_append] at hids
    subst hids
    have hvalid := validateEdges_clean.mp ⟨[], heps, rfl⟩
    obtain ⟨es', hes', rfl⟩ := (@yields_iter_edges _ (fun x => x = es)
      (fun _ h e he => (hvalid e (h ▸ he)).readable)).mp ⟨es, hes, rfl⟩
    rw [hes'] at hcyclic
    have hacyclic : Acyclic es' := ((detectCycle_clean hvalid).mp ⟨false, hcyclic, rfl⟩).2
    exact ⟨hname, hdescription, hcategory, validateTrigger_clean.mp ⟨[], htrigger, rfl⟩,
      documentNodes_eq_nil.mp hlist, hall, hnd, ⟨es', hes', hvalid, hacyclic⟩,
      validatePolicy_clean.mp ⟨[], hpolicy, rfl⟩⟩
  · rintro ⟨⟨hname, hdescription, hcategory, htrigger, hlist, hnode, hnd, ⟨es, hes, hedge, hacyclic⟩, hpolicy⟩,
      hfits, digest, hdigest, -⟩
    unfold validateWorkflow
    simp only [yields_bind, yields_pure, List.isEmpty_iff, List.append_eq_nil_iff, problemIf_eq_nil]
    obtain ⟨trigger, htrigger, rfl⟩ := validateTrigger_clean.mpr htrigger
    obtain ⟨⟨ids, check⟩, hnodes, hcheck, hids⟩ :=
      (@validateNodes_clean _ _ _ 0 [] (fun x => x = (documentNodes doc).1.map nodeIdOf)).mpr
        ⟨hnode, ⟨hnd, fun _ _ => List.not_mem_nil⟩, List.nil_append _⟩
    obtain rfl : ids = _ := hids
    obtain ⟨eps, heps, rfl⟩ := (@validateEdges_clean _ es 0).mpr hedge
    obtain ⟨policy, hpolicy, rfl⟩ := validatePolicy_clean.mpr hpolicy
    have hobj : ∀ n ∈ (documentNodes doc).1, ∃ node, n = .obj node := by
      intro n hm
      obtain ⟨node, t, rfl, -⟩ := (hnode n hm).checked
      exact ⟨node, rfl⟩
    obtain ⟨unreachable, hunreachable, -⟩ := unreachableNodes_yields hobj (fun e he => (hedge e he).readable)
    have hiter : (validatedEdges doc).iter = .ok es := by rw [hes]; rfl
    have hregistered : (documentNodes doc).1.map nodeIdOf = registeredIds (documentNodes doc).1 :=
      validateNodes_registers hnodes
    unfold SearchFits at hfits
    rw [hes, ← hregistered] at hfits
    have hanswers := (detectCycle_yields fun e he => (hedge e he).readable).mpr hfits
    obtain ⟨cyclic, hcyclic, rfl⟩ := (detectCycle_clean hedge).mpr ⟨hanswers, hacyclic⟩
    rw [← hes] at hcyclic
    have hheader := validateHeader_eq_nil.mpr ⟨hname, hdescription, hcategory⟩
    exact ⟨[], htrigger, _, hnodes, es, hiter, [], heps, false, hcyclic, unreachable, hunreachable, [], hpolicy,
      digest, hdigest, ⟨⟨⟨⟨⟨hheader, rfl⟩, documentNodes_eq_nil.mpr hlist⟩, hcheck⟩, rfl⟩, rfl⟩, rfl⟩

/-! ## Compilation -/

/-- Values a `for` loop accepts. -/
def iterable : Json → Bool
  | .arr _ => true
  | .obj _ => true
  | .str _ => true
  | _ => false

/-- What the compiler's own reads need: `doc.get("edges", [])` can be iterated (a `null` cannot), every
priority is accepted by `int`, and the policy can be unpacked with `**`. -/
structure Compilable (doc : Dict) : Prop where
  edges : iterable (doc.getD "edges" (.arr [])) = true
  priority : ∀ edge, .obj edge ∈ documentEdges doc → Yields (Dict.getD edge "priority" (.int 0)).toInt (fun _ => True)
  policy : ∃ p, (doc.get "global_policy").or (.obj []) = .obj p

theorem iter_of_iterable {x : Json} : Yields x.iter (fun _ => True) ↔ iterable x = true := by
  cases x <;> simp [Json.iter, iterable]

/-- A value other than `None` was found under its key. -/
theorem getItem_of_get {d : Dict} {key : String} {v : Json} (h : d.get key = v) (hv : v ≠ .null) :
    getItem (.obj d) key = .ok v := by
  simp only [getItem, Dict.lookup_of_get h hv]

theorem planEdge_yields {ids : List String} {e : Json} (h : EdgeValid ids e) :
    Yields (planEdge e) (fun _ => True) ↔
      ∀ edge, e = .obj edge → Yields (Dict.getD edge "priority" (.int 0)).toInt (fun _ => True) := by
  obtain ⟨edge, rfl, hs, ht, -⟩ := h
  obtain ⟨source, -, hs⟩ := isOneOf_iff.mp hs
  obtain ⟨target, -, ht⟩ := isOneOf_iff.mp ht
  unfold planEdge
  simp only [getItem_of_get hs Json.noConfusion, getItem_of_get ht Json.noConfusion, yields_bind, yields_ok,
    Json.asDict, yields_pure, Json.obj.injEq, forall_eq']

theorem planNode_yields {nodes : List Json} {edges n : Json} {id : String} (h : NodeValid nodes edges n id) :
    Yields (planNode n) (fun _ => True) := by
  obtain ⟨node, t, rfl, hid, -⟩ := h.checked
  simp [planNode, getItem_of_get hid Json.noConfusion, Json.asDict]

/-- On a valid document the compiler iterates over the edges the validator saw, wherever it can iterate. -/
theorem documentEdges_valid {doc : Dict} (h : ValidDocument doc) (hi : iterable (doc.getD "edges" (.arr [])) = true) :
    (doc.getD "edges" (.arr [])).iter = .ok (documentEdges doc) ∧
      ∀ e ∈ documentEdges doc, EdgeValid ((documentNodes doc).1.map nodeIdOf) e := by
  obtain ⟨es, hes, -⟩ := iter_of_iterable.mpr hi
  obtain ⟨es', hes', hvalid, -⟩ := h.edges
  have hiter : ((doc.get "edges").or (.arr [])).iter = .ok es' := by
    change (validatedEdges doc).iter = .ok es'
    rw [hes']
    rfl
  obtain rfl := iter_edges_or hiter hes
  have hdoc : documentEdges doc = es' := by unfold documentEdges; rw [hes]
  rw [hdoc]
  exact ⟨hes, hvalid⟩

/-- **The compiler's reads.**  A valid document gets a plan exactly if it is compilable. -/
theorem buildPlan_yields {doc : Dict} (h : ValidDocument doc) {report : ValidationReport} :
    Yields (buildPlan doc report) (fun _ => True) ↔ Compilable doc := by
  have hpolicy : Yields (mergedPolicy doc) (fun _ => True) ↔ ∃ p, (doc.get "global_policy").or (.obj []) = .obj p := by
    unfold mergedPolicy
    split
    · rename_i p hp
      simp [hp]
    · rename_i hne
      simpa using hne
  have hnodes : ∃ ns, getItem (.obj doc) "nodes" = .ok (.arr ns) ∧ Yields (ns.mapM planNode) (fun _ => True) := by
    obtain ⟨n, ns, hdoc, -⟩ := h.nodes
    refine ⟨n :: ns, getItem_of_get hdoc Json.noConfusion, yields_mapM.mpr fun m hm => ?_⟩
    have hlist : (documentNodes doc).1 = n :: ns := by
      unfold documentNodes
      rw [or_nil_eq_cons.mpr hdoc]
      rfl
    exact planNode_yields (h.node m (hlist ▸ hm))
  obtain ⟨ns, hns, hplan⟩ := hnodes
  unfold buildPlan
  simp only [yields_bind, hns, yields_ok, Json.iter, yields_pure]
  constructor
  · rintro ⟨es, hes, edges, hedges, nodes, -, hmerged⟩
    have hi : iterable (doc.getD "edges" (.arr [])) = true := iter_of_iterable.mp ⟨es, hes, trivial⟩
    obtain ⟨hiter, hvalid⟩ := documentEdges_valid h hi
    obtain rfl := Except.ok.inj (hes.symm.trans hiter)
    refine ⟨hi, fun edge he => ?_, hpolicy.mp hmerged⟩
    exact (planEdge_yields (hvalid _ he)).mp (yields_mapM.mp ⟨edges, hedges, trivial⟩ _ he) edge rfl
  · rintro ⟨hi, hpriority, hp⟩
    obtain ⟨hiter, hvalid⟩ := documentEdges_valid h hi
    obtain ⟨edges, hedges, -⟩ := yields_mapM.mpr (fun e he =>
      (planEdge_yields (hvalid e he)).mpr (fun edge heq => hpriority edge (heq ▸ he)))
    obtain ⟨nodes, hnodes, -⟩ := hplan
    exact ⟨documentEdges doc, hiter, edges, hedges, nodes, hnodes, hpolicy.mpr hp⟩

/-- The parts of a compiled plan, read off the document. -/
theorem compileWorkflow_parts {py : Interpreter} {doc : Dict} {plan : Plan}
    (h : compileWorkflow py doc = .ok plan) :
    ValidDocument doc ∧ mergedPolicy doc = .ok plan.globalPolicy ∧
      ∃ edges, (documentEdges doc).mapM planEdge = .ok edges ∧ plan.adjacency = groupEdges edges := by
  obtain ⟨report, hreport, hv, hbuild⟩ := compileWorkflow_eq_ok.mp h
  obtain ⟨edges, -, hedges, -, -, -, hpolicy, hadjacency, -⟩ := buildPlan_parts hbuild
  exact ⟨(validateWorkflow_clean.mp ⟨report, hreport, hv⟩).1, hpolicy, edges, hedges, hadjacency⟩

/-- The plan's edges are the document's, one by one. -/
theorem mem_edgesFrom {py : Interpreter} {doc : Dict} {plan : Plan}
    (h : compileWorkflow py doc = .ok plan) {x : String} {e : PlanEdge} :
    e ∈ plan.edgesFrom x ↔ ∃ j ∈ documentEdges doc, planEdge j = .ok (x, e) := by
  obtain ⟨-, -, edges, hedges, hadj⟩ := compileWorkflow_parts h
  unfold Plan.edgesFrom
  rw [hadj, mem_groupEdges]
  constructor
  · exact fun hm => mem_of_forall₂_right (mapM_eq_ok hedges) hm
  · rintro ⟨j, hj, hje⟩
    obtain ⟨p, hp, hjp⟩ := mem_of_forall₂_left (mapM_eq_ok hedges) hj
    obtain rfl := Except.ok.inj (hje.symm.trans hjp)
    exact hp

/-- The condition and the label of an edge are kept as they are. -/
theorem planEdge_fields {edge : Dict} {x : String} {e : PlanEdge} (h : planEdge (.obj edge) = .ok (x, e)) :
    e.condition = edge.get "condition" ∧ e.label = edge.get "label" := by
  unfold planEdge at h
  obtain ⟨s, -, h⟩ := bind_eq_ok.mp h
  obtain ⟨t, -, h⟩ := bind_eq_ok.mp h
  obtain ⟨d, hd, h⟩ := bind_eq_ok.mp h
  obtain ⟨p, -, h⟩ := bind_eq_ok.mp h
  obtain rfl := Except.ok.inj hd
  obtain ⟨-, rfl⟩ := Prod.mk.inj (pure_eq_ok.mp h)
  exact ⟨rfl, rfl⟩

/-- A property of the conditions of all edges, over the plan and over the document. -/
theorem edgeConditions_iff {py : Interpreter} {doc : Dict} {plan : Plan}
    (h : compileWorkflow py doc = .ok plan) {P : Json → Prop} :
    (∀ x, ∀ e ∈ plan.edgesFrom x, P e.condition) ↔
      ∀ edge, .obj edge ∈ documentEdges doc → P (Dict.get edge "condition") := by
  constructor
  · intro hall edge he
    obtain ⟨-, -, edges, hedges, -⟩ := compileWorkflow_parts h
    obtain ⟨⟨x, e⟩, -, hplan⟩ := mem_of_forall₂_left (mapM_eq_ok hedges) he
    rw [← (planEdge_fields hplan).1]
    exact hall x e ((mem_edgesFrom h).mpr ⟨_, he, hplan⟩)
  · intro hall x e he
    obtain ⟨j, hj, hplan⟩ := (mem_edgesFrom h).mp he
    cases j with
    | obj edge =>
      rw [(planEdge_fields hplan).1]
      exact hall edge hj
    | _ => cases hplan

/-- A node of the document is in the plan under its id. -/
theorem Compiled.lookup_of_hasNode {doc : Dict} {plan : Plan} (hc : Compiled doc plan) {id : String} {node : Dict}
    (h : HasNode doc id node) : plan.nodes.lookup id = some node := by
  obtain ⟨hm, hid⟩ := h
  rw [hc.document] at hm
  obtain ⟨⟨id', node'⟩, hp, hnode⟩ := List.mem_map.mp hm
  obtain rfl := Json.obj.inj hnode
  have hl := lookup_of_mem hc.ids_nodup hp
  have hid' := (hc.node hl).1.2
  rw [hid] at hid'
  obtain rfl := Json.str.inj hid'
  exact hl

/-! ## Totality -/

/-- Validation returns a report; compilation returns a plan or the validation error, and a plan exactly if the
report is valid. -/
def TotalOn (py : Interpreter) (doc : Dict) : Prop :=
  ∃ report, validateWorkflow py doc = .ok report ∧
    ((∃ plan, compileWorkflow py doc = .ok plan) ∨
      ∃ problems, compileWorkflow py doc = .error (.invalid problems)) ∧
    ((∃ plan, compileWorkflow py doc = .ok plan) ↔ report.valid = true)

/-- Validation and compilation are total on exactly the documents that can be validated and that the checks reject
or that the compiler can read as well. -/
theorem totalOn_iff (py : Interpreter) (doc : Dict) :
    TotalOn py doc ↔ (Readable doc ∧ SearchFits py doc ∧ Yields (canonicalHash py doc) (fun _ => True)) ∧
      (ValidDocument doc → Compilable doc) := by
  constructor
  · rintro ⟨report, hreport, -, hplan⟩
    have hread := validateWorkflow_yields.mp ⟨report, hreport, trivial⟩
    refine ⟨hread, fun hvalid => ?_⟩
    obtain ⟨report', hreport', hv⟩ := (@validateWorkflow_clean py doc).mpr ⟨hvalid, hread.2⟩
    obtain rfl := Except.ok.inj (hreport.symm.trans hreport')
    obtain ⟨plan, hplan⟩ := hplan.mpr hv
    obtain ⟨report', hreport', -, hbuild⟩ := compileWorkflow_eq_ok.mp hplan
    obtain rfl := Except.ok.inj (hreport.symm.trans hreport')
    exact (@buildPlan_yields doc hvalid report).mp ⟨plan, hbuild, trivial⟩
  · rintro ⟨hread, hcomp⟩
    obtain ⟨report, hreport, -⟩ := (@validateWorkflow_yields py doc).mpr hread
    refine ⟨report, hreport, ?_⟩
    unfold compileWorkflow
    rw [hreport]
    cases hv : report.valid with
    | false => simp [hv]
    | true =>
      have hvalid : ValidDocument doc := (validateWorkflow_clean.mp ⟨report, hreport, hv⟩).1
      obtain ⟨plan, hbuild, -⟩ := (@buildPlan_yields doc hvalid report).mpr (hcomp hvalid)
      simp [hv, hbuild]

/-- A document whose trigger is a text. -/
def textTrigger : Dict :=
  [("name", .str "Welcome"), ("trigger", .str "manual"),
    ("nodes", .arr [.obj [("id", .str "start"), ("type", .str "parallel")]])]

/-- A valid document whose edges are `null`. -/
def nullEdges : Dict :=
  [("name", .str "Welcome"), ("trigger", .obj [("type", .str "manual")]),
    ("nodes", .arr [.obj [("id", .str "start"), ("type", .str "parallel")]]), ("edges", .null)]

/-- Compilation ended in an exception other than the validation error. -/
def raisesBuiltin : Except CompileError Plan → Bool
  | .error (.raised _) => true
  | _ => false

end RevenueOS.Workflows
