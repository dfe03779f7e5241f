import RevenueOS.Workflows.CrashFree

/-!
# RevenueOS.Workflows.Agreement — the conditions the validator checks and the ones the engine evaluates

`evaluateCalls` and `followCalls` list the conditions on which `evaluate_condition` is called, in order and up
to an exception; `followedEdges` lists the edges that `_next_nodes` follows (`follow_eq_map`).

* `calls_ok_iff`: the calls below a condition all pass the validator's checks exactly if it is `DeepOk`.
* `agreement_iff`: validator and engine agree on an accepted document exactly if its conditions are `DeepOk`
  and none of its edges carries a text condition, which the validator checks and the engine ignores.
-/

namespace RevenueOS.Workflows

open RevenueOS.Py RevenueOS.Lib

/-! ## Calls -/

/-- The items a loop gets to: up to the first one on which `f` raises. -/
def upToRaise {α β : Type} (f : α → Except PyError β) : List α → List α
  | [] => []
  | a :: as =>
    match f a with
    | .ok _ => a :: upToRaise f as
    | .error _ => [a]

/-- The children that the evaluation of a condition object calls itself on. -/
def calledChildren (scope : Dict) (fuel : ℕ) (cond : Dict) : List Json :=
  match (cond.get "operator").str? with
  | some "and" =>
    match (cond.getD "conditions" (.arr [])).iter with
    | .ok children => upToRaise (evaluateAt scope fuel) children
    | .error _ => []
  | some "or" =>
    match (cond.getD "conditions" (.arr [])).iter with
    | .ok children => upToRaise (evaluateAt scope fuel) children
    | .error _ => []
  | some "not" =>
    match firstItem (cond.getD "conditions" (.arr [.obj []])) with
    | .ok child => [child]
    | .error _ => []
  | _ => []

/-- The conditions on which `evaluateAt` is called, the outermost first. -/
def evaluateCalls (scope : Dict) : ℕ → Json → List Json
  | 0, _ => []
  | fuel + 1, c =>
    c :: match c with
      | .obj cond => (calledChildren scope fuel cond).flatMap (evaluateCalls scope fuel)
      | _ => []

/-- The calls of `evaluate_condition(c, scope)`. -/
def conditionCalls (scope : Dict) (c : Json) : List Json := evaluateCalls scope (c.depth + 1) c

/-- The calls that `_next_nodes` makes for a list of edges. -/
def followCalls (scope : Dict) (branch : Option Bool) : List PlanEdge → List Json
  | [] => []
  | e :: es =>
    if labelBlocks branch e.label then followCalls scope branch es
    else
      match e.condition with
      | .obj cond =>
        match evaluateCondition scope (.obj cond) with
        | .ok _ => conditionCalls scope (.obj cond) ++ followCalls scope branch es
        | .error _ => conditionCalls scope (.obj cond)
      | _ => followCalls scope branch es

/-- The edges that are followed. -/
def followedEdges (scope : Dict) (branch : Option Bool) : List PlanEdge → Except PyError (List PlanEdge)
  | [] => .ok []
  | e :: es =>
    if labelBlocks branch e.label then followedEdges scope branch es
    else do
      if ← conditionBlocks scope e.condition then followedEdges scope branch es
      else return e :: (← followedEdges scope branch es)

/-- `_next_nodes` returns the targets of the edges that are followed. -/
theorem follow_eq_map {scope : Dict} {branch : Option Bool} : ∀ {es : List PlanEdge},
    follow scope branch es = (followedEdges scope branch es).map (List.map (·.target))
  | [] => rfl
  | e :: es => by
    rw [follow, followedEdges, follow_eq_map]
    split_ifs
    · rfl
    · cases conditionBlocks scope e.condition with
      | error err => rfl
      | ok blocked =>
        cases blocked with
        | true => rfl
        | false => cases followedEdges scope branch es <;> rfl

/-! ## Conditions that pass all the way down -/

/-- A call on an object that passes the checks of `_validate_condition`. -/
def CallOk (c : Json) : Prop := ∃ cond, c = .obj cond ∧ ConditionOk cond

/-- A condition that passes the checks, and so do the children that are evaluated: all of them below `and` and
`or`, the first one below `not`. -/
inductive DeepOk : Json → Prop
  | logical {cond : Dict} {c : Json} {cs : List Json}
      (op : cond.get "operator" = .str "and" ∨ cond.get "operator" = .str "or")
      (children : cond.get "conditions" = .arr (c :: cs)) (all : ∀ d ∈ c :: cs, DeepOk d) : DeepOk (.obj cond)
  | negation {cond : Dict} {c : Json} {cs : List Json} (op : cond.get "operator" = .str "not")
      (children : cond.get "conditions" = .arr (c :: cs)) (first : DeepOk c) : DeepOk (.obj cond)
  | comparison {cond : Dict} (op : isOneOf comparisonOperators (cond.get "operator") = true)
      (left : cond.has "left" = true) (expr : ∀ s, cond.get "left" = .str s → ExpressionOk s) : DeepOk (.obj cond)

theorem DeepOk.callOk {c : Json} (h : DeepOk c) : CallOk c := by
  cases h with
  | logical op children all =>
    refine ⟨_, rfl, .logical (isOneOf_iff.mpr ?_) _ _ children⟩
    rcases op with h | h
    · exact ⟨_, by decide, h⟩
    · exact ⟨_, by decide, h⟩
  | negation op children first => exact ⟨_, rfl, .logical (isOneOf_iff.mpr ⟨_, by decide, op⟩) _ _ children⟩
  | comparison op left expr => exact ⟨_, rfl, .comparison op left expr⟩

/-! ### The empty scope -/

/-- No path meets a list in the empty scope. -/
theorem operand_nil_yields (x : Json) : Yields (operand [] x) (fun _ => True) := by
  have hpath : ∀ path, Yields (resolvePath [] path) (fun _ => True) := by
    intro path
    unfold resolvePath
    cases split path "." with
    | nil => simp [resolveParts]
    | cons p rest =>
      have hnull : Dict.get [] p = .null := rfl
      cases rest <;> simp [resolveParts, hnull]
  unfold operand
  split
  · split_ifs
    · exact hpath _
    · simp
  · simp

/-- The operators of a condition that passed the checks. -/
theorem logical_cases {x : Json} (h : isOneOf logicalOperators x = true) :
    (x = .str "and" ∨ x = .str "or") ∨ x = .str "not" := by
  obtain ⟨s, hs, rfl⟩ := isOneOf_iff.mp h
  simp only [logicalOperators, List.mem_cons, List.not_mem_nil, or_false] at hs
  rcases hs with rfl | rfl | rfl
  · exact Or.inl (Or.inl rfl)
  · exact Or.inl (Or.inr rfl)
  · exact Or.inr rfl

/-- The children of a condition that passes all the way down. -/
theorem DeepOk.children_of_logical {cond : Dict} (h : DeepOk (.obj cond))
    (hop : cond.get "operator" = .str "and" ∨ cond.get "operator" = .str "or") :
    ∃ children, cond.lookup "conditions" = some (.arr children) ∧ ∀ c ∈ children, DeepOk c := by
  cases h with
  | logical _ children all => exact ⟨_, Dict.lookup_of_get children Json.noConfusion, all⟩
  | negation op _ _ => rw [op] at hop; simp at hop
  | comparison op _ _ =>
    have := not_logical_of_comparison op
    rcases hop with h | h
    · exact (logical_not_compared h (by decide) this).elim
    · exact (logical_not_compared h (by decide) this).elim

theorem DeepOk.child_of_not {cond : Dict} (h : DeepOk (.obj cond)) (hop : cond.get "operator" = .str "not") :
    ∃ c cs, cond.lookup "conditions" = some (.arr (c :: cs)) ∧ DeepOk c := by
  cases h with
  | logical op _ _ => rw [hop] at op; simp at op
  | negation _ children first => exact ⟨_, _, Dict.lookup_of_get children Json.noConfusion, first⟩
  | comparison op _ _ => exact (logical_not_compared hop (by decide) (not_logical_of_comparison op)).elim

/-- In the empty scope such a condition is evaluated to the end. -/
theorem DeepOk.yields_nil : ∀ {fuel : ℕ} {c : Json}, DeepOk c → c.depth < fuel →
    Yields (evaluateAt [] fuel c) (fun _ => True)
  | 0, _, _, hfuel => absurd hfuel (Nat.not_lt_zero _)
  | fuel + 1, .obj cond, h, hfuel => by
    have hall : Dict.get cond "operator" = .str "and" ∨ Dict.get cond "operator" = .str "or" →
        Yields (Dict.getD cond "conditions" (.arr [])).iter
          (fun children => Yields (children.mapM (evaluateAt [] fuel)) (fun _ => True)) := by
      intro hop
      obtain ⟨children, hl, hchildren⟩ := h.children_of_logical hop
      simp only [Dict.getD, hl, Option.getD_some, Json.iter, yields_ok]
      exact yields_mapM.mpr fun c hc => (hchildren c hc).yields_nil (depth_of_child hl rfl hc hfuel)
    simp only [evaluateAt, Json.asDict, yields_bind, yields_ok]
    split
    · rename_i hop
      simpa only [yields_bind, yields_pure] using hall (Or.inl (str?_eq_some.mp hop))
    · rename_i hop
      simpa only [yields_bind, yields_pure] using hall (Or.inr (str?_eq_some.mp hop))
    · rename_i hop
      obtain ⟨c, cs, hl, hc⟩ := h.child_of_not (str?_eq_some.mp hop)
      simp only [Dict.getD, hl, Option.getD_some, firstItem, yields_bind, yields_ok, yields_pure]
      exact hc.yields_nil (depth_of_child hl rfl List.mem_cons_self hfuel)
    · simp only [yields_bind, yields_pure]
      exact (operand_nil_yields _).mono fun _ _ => operand_nil_yields _

/-! ### Calls and checks -/

theorem upToRaise_subset {α β : Type} {f : α → Except PyError β} : ∀ {l : List α}, upToRaise f l ⊆ l
  | [] => fun _ h => h
  | a :: l => by
    rw [upToRaise]
    split
    · exact List.cons_subset_cons a upToRaise_subset
    · exact List.cons_subset_cons a (List.nil_subset l)

theorem calledChildren_deepOk {scope cond : Dict} {fuel : ℕ} (h : DeepOk (.obj cond)) :
    ∀ c ∈ calledChildren scope fuel cond, DeepOk c := by
  have hall : cond.get "operator" = .str "and" ∨ cond.get "operator" = .str "or" →
      ∃ children, (cond.getD "conditions" (.arr [])).iter = .ok children ∧ ∀ c ∈ children, DeepOk c := by
    intro hop
    obtain ⟨children, hl, hchildren⟩ := h.children_of_logical hop
    exact ⟨children, by simp [Dict.getD, hl, Json.iter], hchildren⟩
  unfold calledChildren
  split
  · rename_i hop
    obtain ⟨children, hiter, hchildren⟩ := hall (Or.inl (str?_eq_some.mp hop))
    rw [hiter]
    exact fun c hc => hchildren c (upToRaise_subset hc)
  · rename_i hop
    obtain ⟨children, hiter, hchildren⟩ := hall (Or.inr (str?_eq_some.mp hop))
    rw [hiter]
    exact fun c hc => hchildren c (upToRaise_subset hc)
  · rename_i hop
    obtain ⟨c, cs, hl, hc⟩ := h.child_of_not (str?_eq_some.mp hop)
    simpa [Dict.getD, hl, firstItem] using hc
  · exact fun c hc => absurd hc List.not_mem_nil

/-- In every scope, the calls below such a condition pass the checks. -/
theorem DeepOk.calls {scope : Dict} : ∀ {fuel : ℕ} {c : Json}, DeepOk c → ∀ d ∈ evaluateCalls scope fuel c, CallOk d
  | 0, _, _, d, hd => absurd hd List.not_mem_nil
  | fuel + 1, c, h, d, hd => by
    obtain ⟨cond, rfl, -⟩ := h.callOk
    rw [evaluateCalls, List.mem_cons] at hd
    rcases hd with rfl | hd
    · exact h.callOk
    · obtain ⟨ch, hch, hd⟩ := List.mem_flatMap.mp hd
      exact (calledChildren_deepOk h ch hch).calls d hd

/-- A loop over items that all return gets to the end. -/
theorem mem_of_upToRaise {f : Json → Except PyError Bool} {P : Json → Prop}
    (hf : ∀ c, P c → Yields (f c) (fun _ => True)) : ∀ {l : List Json}, (∀ c ∈ upToRaise f l, P c) → ∀ c ∈ l, P c
  | [], _ => fun c hc => absurd hc List.not_mem_nil
  | a :: l, h => by
    rw [upToRaise] at h
    cases ha : f a with
    | error e =>
      simp only [ha] at h
      obtain ⟨b, hb, -⟩ := hf a (h a List.mem_cons_self)
      cases ha.symm.trans hb
    | ok b =>
      simp only [ha] at h
      obtain ⟨hhead, htail⟩ := List.forall_mem_cons.mp h
      exact List.forall_mem_cons.mpr ⟨hhead, mem_of_upToRaise hf htail⟩

/-- If the calls in the empty scope pass the checks, the condition passes all the way down. -/
theorem deepOk_of_calls : ∀ {fuel : ℕ} {c : Json}, c.depth < fuel → (∀ d ∈ evaluateCalls [] fuel c, CallOk d) →
    DeepOk c
  | 0, _, hfuel, _ => absurd hfuel (Nat.not_lt_zero _)
  | fuel + 1, c, hfuel, h => by
    obtain ⟨cond, rfl, hok⟩ := h c (by unfold evaluateCalls; exact List.mem_cons_self)
    rw [evaluateCalls] at h
    have hbelow : ∀ ch ∈ calledChildren [] fuel cond, ∀ d ∈ evaluateCalls [] fuel ch, CallOk d :=
      fun ch hch d hd => h d (List.mem_cons_of_mem _ (List.mem_flatMap.mpr ⟨ch, hch, hd⟩))
    cases hok with
    | comparison op left expr => exact .comparison op left expr
    | logical op c cs children =>
      have hl := Dict.lookup_of_get children Json.noConfusion
      have hdepth : ∀ d ∈ c :: cs, d.depth < fuel := fun d hd => depth_of_child hl rfl hd hfuel
      rcases logical_cases op with hop | hop
      · refine .logical hop children ?_
        have hcalled : calledChildren [] fuel cond = upToRaise (evaluateAt [] fuel) (c :: cs) := by
          unfold calledChildren
          rcases hop with hop | hop
          · simp [hop, Json.str?, Dict.getD, hl, Json.iter]
          · simp [hop, Json.str?, Dict.getD, hl, Json.iter]
        rw [hcalled] at hbelow
        have hall := @mem_of_upToRaise (evaluateAt [] fuel) (fun d => d.depth < fuel ∧ DeepOk d)
          (fun d hd => hd.2.yields_nil hd.1) (c :: cs) (fun d hd =>
            ⟨hdepth d (upToRaise_subset hd), deepOk_of_calls (hdepth d (upToRaise_subset hd)) (hbelow d hd)⟩)
        exact fun d hd => (hall d hd).2
      · refine .negation hop children ?_
        have hcalled : calledChildren [] fuel cond = [c] := by
          simp [calledChildren, hop, Json.str?, Dict.getD, hl, firstItem]
        rw [hcalled] at hbelow
        exact deepOk_of_calls (hdepth c List.mem_cons_self) (hbelow c List.mem_cons_self)

/-- **Calls.**  The calls below a condition pass the checks in every scope exactly if it passes all the way
down. -/
theorem calls_ok_iff {c : Json} : (∀ scope, ∀ d ∈ conditionCalls scope c, CallOk d) ↔ DeepOk c :=
  ⟨fun h => deepOk_of_calls (Nat.lt_succ_self _) (h []), fun h _ => h.calls⟩

/-! ## Edges -/

/-- The object condition of an edge, if it has one, passes all the way down. -/
def EdgeDeep (condition : Json) : Prop := ∀ cond, condition = .obj cond → DeepOk (.obj cond)

theorem EdgeDeep.yields_nil {condition : Json} (h : EdgeDeep condition) :
    Yields (conditionBlocks [] condition) (fun _ => True) := by
  cases condition with
  | obj cond =>
    have hr : Yields (evaluateCondition [] (.obj cond)) (fun _ => True) :=
      (h cond rfl).yields_nil (Nat.lt_succ_self _)
    simpa [conditionBlocks] using hr
  | _ => simp [conditionBlocks]

/-- Without a branch and in the empty scope, every edge is looked at whose predecessors' conditions pass. -/
theorem edgeDeep_of_followCalls : ∀ {es : List PlanEdge}, (∀ c ∈ followCalls [] none es, CallOk c) →
    ∀ e ∈ es, EdgeDeep e.condition
  | [], _ => fun e he => absurd he List.not_mem_nil
  | e :: es, h => by
    simp only [followCalls, labelBlocks, Bool.false_eq_true, if_false] at h
    cases hcond : e.condition with
    | obj cond =>
      simp only [hcond] at h
      have hdeep : DeepOk (.obj cond) := by
        refine deepOk_of_calls (Nat.lt_succ_self _) (fun d hd => h d ?_)
        split
        · exact List.mem_append_left _ hd
        · exact hd
      obtain ⟨b, hb, -⟩ := hdeep.yields_nil (Nat.lt_succ_self _)
      have hb' : evaluateCondition [] (.obj cond) = .ok b := hb
      simp only [hb'] at h
      have hes := edgeDeep_of_followCalls (fun c hc => h c (List.mem_append_right _ hc))
      refine List.forall_mem_cons.mpr ⟨?_, hes⟩
      rw [hcond]
      rintro cond' heq
      exact heq ▸ hdeep
    | _ =>
      simp only [hcond] at h
      refine List.forall_mem_cons.mpr ⟨?_, edgeDeep_of_followCalls h⟩
      rw [hcond]
      rintro cond' heq
      cases heq

theorem followCalls_ok {scope : Dict} {branch : Option Bool} : ∀ {es : List PlanEdge},
    (∀ e ∈ es, EdgeDeep e.condition) → ∀ c ∈ followCalls scope branch es, CallOk c
  | [], _ => fun c hc => absurd hc List.not_mem_nil
  | e :: es, h => by
    obtain ⟨he, hes⟩ := List.forall_mem_cons.mp h
    have hrest : ∀ c ∈ followCalls scope branch es, CallOk c := followCalls_ok hes
    rw [followCalls]
    split_ifs
    · exact hrest
    · split
      · rename_i cond hcond
        have hcalls : ∀ c ∈ conditionCalls scope (.obj cond), CallOk c := (he cond hcond).calls
        split
        · exact fun c hc => (List.mem_append.mp hc).elim (hcalls c) (hrest c)
        · exact hcalls
      · exact hrest

theorem followCalls_ok_iff {es : List PlanEdge} :
    (∀ scope branch, ∀ c ∈ followCalls scope branch es, CallOk c) ↔ ∀ e ∈ es, EdgeDeep e.condition :=
  ⟨fun h => edgeDeep_of_followCalls (h [] none), fun h _ _ => followCalls_ok h⟩

/-- The edge conditions that the validator looks at: the texts. -/
def Checked (condition : Json) : Prop := ∃ s, condition = .str s

theorem followedEdges_subset {scope : Dict} {branch : Option Bool} : ∀ {es fs : List PlanEdge},
    followedEdges scope branch es = .ok fs → fs ⊆ es
  | [], fs, h => by
    obtain rfl := Except.ok.inj h
    exact fun _ h => h
  | e :: es, fs, h => by
    rw [followedEdges] at h
    split_ifs at h
    · exact List.subset_cons_of_subset _ (followedEdges_subset h)
    · obtain ⟨b, -, h⟩ := bind_eq_ok.mp h
      split_ifs at h
      · exact List.subset_cons_of_subset _ (followedEdges_subset h)
      · obtain ⟨more, hmore, h⟩ := bind_eq_ok.mp h
        obtain rfl := pure_eq_ok.mp h
        exact List.cons_subset_cons e (followedEdges_subset hmore)

/-- In the empty scope every edge with a text condition is followed. -/
theorem followedEdges_nil : ∀ {es : List PlanEdge}, (∀ e ∈ es, EdgeDeep e.condition) →
    ∃ fs, followedEdges [] none es = .ok fs ∧ ∀ e ∈ es, Checked e.condition → e ∈ fs
  | [], _ => ⟨[], rfl, fun e he => absurd he List.not_mem_nil⟩
  | e :: es, h => by
    obtain ⟨he, hes⟩ := List.forall_mem_cons.mp h
    obtain ⟨fs, hfs, hmem⟩ := followedEdges_nil hes
    obtain ⟨blocked, hb, -⟩ := he.yields_nil
    simp only [followedEdges, labelBlocks, Bool.false_eq_true, if_false, hb, bind, Except.bind, hfs]
    cases blocked with
    | true =>
      refine ⟨fs, rfl, List.forall_mem_cons.mpr ⟨?_, hmem⟩⟩
      -- a text condition blocks nothing
      rintro ⟨s, hs⟩
      rw [hs] at hb
      cases hb
    | false =>
      exact ⟨e :: fs, rfl, List.forall_mem_cons.mpr
        ⟨fun _ => List.mem_cons_self, fun x hx hc => List.mem_cons_of_mem _ (hmem x hx hc)⟩⟩

/-- A text condition never holds for the evaluator, so that an edge that carries one may not be followed. -/
theorem followed_checked_iff {es : List PlanEdge} (h : ∀ e ∈ es, EdgeDeep e.condition) :
    (∀ scope branch fs, followedEdges scope branch es = .ok fs → ∀ e ∈ fs, Checked e.condition →
      evaluateCondition scope e.condition = .ok true) ↔ ∀ e ∈ es, ¬ Checked e.condition := by
  constructor
  · intro hf e he hc
    obtain ⟨fs, hfs, hmem⟩ := followedEdges_nil h
    have htrue := hf [] none fs hfs e (hmem e he hc) hc
    obtain ⟨s, hs⟩ := hc
    rw [hs] at htrue
    cases htrue
  · intro hno scope branch fs hfs e he hc
    exact absurd hc (hno e (followedEdges_subset hfs he))

/-! ## Documents -/

/-- Validator and engine agree: the engine evaluates only conditions that pass the validator's checks, and an
edge with a condition that the validator checked is followed only if the condition holds. -/
structure Agreement (plan : Plan) : Prop where
  nodes : ∀ x node, plan.nodes.lookup x = some node → NodeType.ofJson? (node.get "type") = some .condition →
    ∀ scope, ∀ c ∈ conditionCalls scope (node.getD "condition" (.obj [])), CallOk c
  edges : ∀ x scope branch, ∀ c ∈ followCalls scope branch (plan.edgesFrom x), CallOk c
  followed : ∀ x scope branch fs, followedEdges scope branch (plan.edgesFrom x) = .ok fs →
    ∀ e ∈ fs, Checked e.condition → evaluateCondition scope e.condition = .ok true

/-- The conditions of the nodes and the objects on the edges pass all the way down, and no edge carries a
text. -/
structure AgreementDocument (doc : Dict) : Prop where
  nodes : ∀ id node, HasNode doc id node → NodeType.ofJson? (node.get "type") = some .condition →
    DeepOk (node.getD "condition" (.obj []))
  edges : ∀ edge, .obj edge ∈ documentEdges doc →
    EdgeDeep (Dict.get edge "condition") ∧ ¬ Checked (Dict.get edge "condition")

theorem Agreement.document {py : Interpreter} {doc : Dict} {plan : Plan}
    (h : compileWorkflow py doc = .ok plan) (hagree : Agreement plan) : AgreementDocument doc := by
  obtain ⟨hnodes, hedges, hfollowed⟩ := hagree
  have hdeep : ∀ x, ∀ e ∈ plan.edgesFrom x, EdgeDeep e.condition := fun x => followCalls_ok_iff.mp (hedges x)
  have htext : ∀ x, ∀ e ∈ plan.edgesFrom x, ¬ Checked e.condition := fun x =>
    (followed_checked_iff (hdeep x)).mp (hfollowed x)
  refine ⟨fun id node hn ht => ?_, ?_⟩
  · exact calls_ok_iff.mp (hnodes id node ((compileWorkflow_ok h).lookup_of_hasNode hn) ht)
  · exact (@edgeConditions_iff py doc plan h (fun c => EdgeDeep c ∧ ¬ Checked c)).mp
      fun x e he => ⟨hdeep x e he, htext x e he⟩

/-- **Agreement.**  Validator and engine agree on an accepted document exactly if all its conditions pass the
checks all the way down and no edge carries a text condition. -/
theorem agreement_iff (py : Interpreter) (doc : Dict) (plan : Plan)
    (h : compileWorkflow py doc = .ok plan) : Agreement plan ↔ AgreementDocument doc := by
  constructor
  · exact Agreement.document h
  · rintro ⟨hnodes, hedges⟩
    have hplan := (@edgeConditions_iff py doc plan h (fun c => EdgeDeep c ∧ ¬ Checked c)).mpr hedges
    refine ⟨fun x node hl ht => ?_, fun x => ?_, fun x => ?_⟩
    · exact calls_ok_iff.mpr (hnodes x node ((compileWorkflow_ok h).node hl).1 ht)
    · exact followCalls_ok_iff.mpr fun e he => (hplan x e he).1
    · exact (followed_checked_iff fun e he => (hplan x e he).1).mpr fun e he => (hplan x e he).2

theorem largeAmount_deep : DeepOk largeAmount := by
  refine .comparison rfl rfl fun s hs => ?_
  obtain rfl := Json.str.inj hs
  have hclean : validateExpression "\x7b\x7bentity.amount\x7d\x7d" "left" = [] := by decide +kernel
  exact validateExpression_eq_nil.mp hclean

/-- The sample condition over a checked child compiles, and validator and engine agree on it. -/
theorem amountCheck_agrees : ∃ plan, compileWorkflow plainInterpreter (amountCheck [largeAmount]) = .ok plan ∧
    Agreement plan := by
  have hok : (compileWorkflow plainInterpreter (amountCheck [largeAmount])).toOption.isSome = true := by
    decide +kernel
  refine ⟨_, eq_ok_get hok, (agreement_iff _ _ _ (eq_ok_get hok)).mpr ⟨?_, ?_⟩⟩
  · rintro id node ⟨hm, -⟩ ht
    rcases List.mem_cons.mp hm with hm | hm
    · obtain rfl := Json.obj.inj hm
      exact .logical (Or.inl rfl) rfl (by simpa using largeAmount_deep)
    · obtain rfl := Json.obj.inj (List.mem_singleton.mp hm)
      exact absurd ht (by decide)
  · intro edge he
    obtain rfl := Json.obj.inj (List.mem_singleton.mp he)
    refine ⟨?_, ?_⟩
    · intro cond hcond
      cases hcond
    · rintro ⟨s, hs⟩
      cases hs

/-- A document whose only edge carries the text condition `entity.amount > 1000`. -/
def textEdge : Dict :=
  [("name", .str "Large deal"), ("trigger", .obj [("type", .str "manual")]),
    ("nodes", .arr [
      .obj [("id", .str "start"), ("type", .str "parallel")],
      .obj [("id", .str "note"), ("type", .str "action"), ("action", .str "note.create")]]),
    ("edges", .arr [.obj [("source", .str "start"), ("target", .str "note"),
      ("condition", .str "entity.amount > 1000")]])]

/-- The validator checks and accepts the text; the engine follows the edge in the empty scope, too.  And the
validator accepts a child with an operator that nothing supports. -/
theorem textEdge_followed :
    (∃ plan, compileWorkflow plainInterpreter textEdge = .ok plan ∧
      (nextNodes plan "start" [] none).toOption = some ["note"] ∧ ¬ Agreement plan) ∧
    ∃ plan, compileWorkflow plainInterpreter (amountCheck [.obj [("operator", .str "near")]]) = .ok plan ∧
      ¬ Agreement plan := by
  constructor
  · have hrun : (compileWorkflow plainInterpreter textEdge).toOption.map (fun plan =>
        (nextNodes plan "start" [] none).toOption) = some (some ["note"]) := by decide +kernel
    obtain ⟨plan, hplan, hnext⟩ := Option.map_eq_some_iff.mp hrun
    have hcompile := eq_ok_of_toOption hplan
    refine ⟨plan, hcompile, hnext, fun hagree => ?_⟩
    exact ((Agreement.document hcompile hagree).edges _ List.mem_cons_self).2 ⟨_, rfl⟩
  · have hok : (compileWorkflow plainInterpreter (amountCheck [.obj [("operator", .str "near")]])).toOption.isSome =
        true := by decide +kernel
    refine ⟨_, eq_ok_get hok, fun hagree => ?_⟩
    have hdeep := (Agreement.document (eq_ok_get hok) hagree).nodes "large" _ ⟨List.mem_cons_self, rfl⟩ rfl
    obtain ⟨children, hl, hall⟩ := hdeep.children_of_logical (Or.inl rfl)
    obtain rfl := Json.arr.inj (Option.some.inj hl)
    cases hall _ List.mem_cons_self with
    | comparison op _ _ => cases op
    | logical op _ _ => simp [Dict.get] at op
    | negation op _ _ => simp [Dict.get] at op

end RevenueOS.Workflows
