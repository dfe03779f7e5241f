import RevenueOS.Workflows.Validity
import RevenueOS.Workflows.Enabled
import Mathlib.Algebra.Order.BigOperators.Group.List
import Mathlib.Data.Int.SuccPred

/-!
# RevenueOS.Workflows.CrashFree — accepted documents that the engine runs without an exception

The validator looks at a condition node's condition one level deep and at text conditions of edges; the engine
evaluates nested children, condition objects on edges, paths with digits, and a node's own `retry_attempts`.

* `crashFree_iff`: the conditions whose evaluation returns in every scope.
* `nextNodes_yields_iff`, `runWithRetry_yields_iff`: the same for the edges and for the retries of an action.
* `run_done`: the run of a plan all of whose parts are of that kind ends with a result.
* `engine_total_iff`: an accepted document is run without an exception exactly if it is `CrashFreeDocument`.
-/

namespace RevenueOS.Workflows

open RevenueOS.Py RevenueOS.Lib

/-! ## Paths -/

/-- A part of a path that `int` accepts whenever `str.isdigit` does. -/
def PartOk (part : String) : Prop := isDigitStr part = true → (parseInt? part).isSome = true

/-- The first part is looked up in the scope itself, which is no list. -/
def PathOk (path : String) : Prop := ∀ part ∈ (split path ".").tail, PartOk part

theorem resolveParts_yields : ∀ {parts : List String}, (∀ part ∈ parts, PartOk part) → ∀ node,
    Yields (resolveParts node parts) (fun _ => True)
  | [], _, node => by cases node <;> simp [resolveParts]
  | part :: rest, h, node => by
    obtain ⟨hpart, hrest⟩ := List.forall_mem_cons.mp h
    cases node with
    | obj d => exact resolveParts_yields hrest _
    | arr xs =>
      rw [resolveParts]
      split_ifs with hd
      · obtain ⟨i, hi⟩ := Option.isSome_iff_exists.mp (hpart hd)
        simp only [hi]
        exact resolveParts_yields hrest _
      · simp
    | _ => simp [resolveParts]

/-- A bad part is met by some value: nested objects up to it, and a list there. -/
theorem resolveParts_raises : ∀ {parts : List String} {part : String}, part ∈ parts → ¬ PartOk part →
    ∃ node, ¬ Yields (resolveParts node parts) (fun _ => True)
  | p :: rest, part, hm, hbad => by
    by_cases hp : PartOk p
    · have hm' : part ∈ rest := by
        rcases List.mem_cons.mp hm with rfl | hm
        · exact absurd hp hbad
        · exact hm
      obtain ⟨node, hnode⟩ := resolveParts_raises hm' hbad
      refine ⟨.obj [(p, node)], ?_⟩
      rw [resolveParts]
      simpa [Dict.get] using hnode
    · unfold PartOk at hp
      rw [Classical.not_imp, Bool.not_eq_true, Option.isSome_eq_false_iff, Option.isNone_iff_eq_none] at hp
      obtain ⟨hd, hnone⟩ := hp
      refine ⟨.arr [], ?_⟩
      simp [resolveParts, hd, hnone]

theorem resolvePath_yields_iff {path : String} :
    (∀ scope, Yields (resolvePath scope path) (fun _ => True)) ↔ PathOk path := by
  unfold resolvePath PathOk
  cases split path "." with
  | nil => simp [resolveParts]
  | cons p rest =>
    simp only [resolveParts, List.tail_cons]
    constructor
    · intro h part hm
      by_contra hbad
      obtain ⟨node, hnode⟩ := resolveParts_raises hm hbad
      apply hnode
      simpa [Dict.get] using h [(p, node)]
    · exact fun h scope => resolveParts_yields h _

/-- The path of a template operand. -/
def templatePath? (x : Json) : Option String :=
  match x.str? with
  | some s =>
    if startsWith s "\x7b\x7b" && endsWith s "\x7d\x7d" then some (strip (stripChars "\x7b\x7d " s)) else none
  | none => none

/-- An operand whose path, if it is a template, can be resolved in every scope. -/
def OperandOk (x : Json) : Prop := ∀ path, templatePath? x = some path → PathOk path

theorem operand_yields_iff {x : Json} : (∀ scope, Yields (operand scope x) (fun _ => True)) ↔ OperandOk x := by
  unfold operand OperandOk templatePath?
  cases x with
  | str s =>
    simp only [Json.str?]
    split_ifs
    · simp [resolvePath_yields_iff]
    · simp
  | _ => simp [Json.str?]

/-! ## Conditions -/

/-- Conditions whose evaluation raises in no scope. -/
inductive CrashFree : Json → Prop
  | logical {cond : Dict} {children : List Json}
      (op : cond.get "operator" = .str "and" ∨ cond.get "operator" = .str "or")
      (items : (cond.getD "conditions" (.arr [])).iter = .ok children) (all : ∀ c ∈ children, CrashFree c) :
      CrashFree (.obj cond)
  | negation {cond : Dict} {child : Json} (op : cond.get "operator" = .str "not")
      (item : firstItem (cond.getD "conditions" (.arr [.obj []])) = .ok child) (free : CrashFree child) :
      CrashFree (.obj cond)
  | comparison {cond : Dict} (op : isOneOf logicalOperators (cond.get "operator") = false)
      (left : OperandOk (cond.get "left")) (right : OperandOk (cond.get "right")) : CrashFree (.obj cond)

theorem depth_le_depthList {x : Json} : ∀ {xs : List Json}, x ∈ xs → x.depth ≤ Json.depthList xs
  | y :: ys, h => by
    rw [Json.depthList]
    rcases List.mem_cons.mp h with rfl | h
    · exact le_max_left _ _
    · exact (depth_le_depthList h).trans (le_max_right _ _)

theorem depth_le_depthEntries {key : String} {v : Json} : ∀ {d : Dict}, d.lookup key = some v →
    v.depth ≤ Json.depthEntries d
  | (k, w) :: d, h => by
    rw [Json.depthEntries]
    rw [List.lookup_cons] at h
    split at h
    · obtain rfl := Option.some.inj h
      exact le_max_left _ _
    · exact (depth_le_depthEntries h).trans (le_max_right _ _)

/-- The items of a value are less deep than the value, or texts. -/
theorem depth_of_iter {x c : Json} {cs : List Json} (h : x.iter = .ok cs) (hc : c ∈ cs) : c.depth ≤ x.depth := by
  cases x with
  | arr xs =>
    obtain rfl := Except.ok.inj h
    have := depth_le_depthList hc
    simp only [Json.depth]
    omega
  | str s =>
    obtain rfl := Except.ok.inj h
    obtain ⟨ch, -, rfl⟩ := List.mem_map.mp hc
    simp [Json.depth]
  | obj d =>
    obtain rfl := Except.ok.inj h
    obtain ⟨kv, -, rfl⟩ := List.mem_map.mp hc
    simp [Json.depth]
  | _ => cases h

theorem firstItem_mem {x c : Json} (h : firstItem x = .ok c) : ∃ cs, x.iter = .ok cs ∧ c ∈ cs := by
  cases x with
  | arr xs =>
    cases xs with
    | nil => cases h
    | cons y ys =>
      obtain rfl := Except.ok.inj h
      exact ⟨_, rfl, List.mem_cons_self⟩
  | str s =>
    simp only [firstItem] at h
    split at h
    · rename_i ch rest hs
      obtain rfl := Except.ok.inj h
      exact ⟨_, rfl, by simp [hs]⟩
    · cases h
  | _ => cases h

/-- The children of a condition fit into the remaining fuel. -/
theorem depth_of_child {cond : Dict} {v c : Json} {cs : List Json} {fuel : ℕ}
    (hv : cond.lookup "conditions" = some v) (hcs : v.iter = .ok cs) (hc : c ∈ cs)
    (hfuel : (Json.obj cond).depth < fuel + 1) : c.depth < fuel := by
  have h1 := depth_of_iter hcs hc
  have h2 := depth_le_depthEntries hv
  simp only [Json.depth] at hfuel
  omega

theorem crashFree_nil : CrashFree (.obj []) :=
  .comparison rfl (by simp [OperandOk, templatePath?, Dict.get, Json.str?])
    (by simp [OperandOk, templatePath?, Dict.get, Json.str?])

theorem evaluateAt_nil (scope : Dict) (fuel : ℕ) : evaluateAt scope (fuel + 1) (.obj []) = .ok false := rfl

/-- An operator that is no text of `logicalOperators` is compared. -/
theorem not_logical {x : Json} (h1 : x.str? = some "and" → False) (h2 : x.str? = some "or" → False)
    (h3 : x.str? = some "not" → False) : isOneOf logicalOperators x = false := by
  rw [← Bool.not_eq_true, isOneOf_iff]
  rintro ⟨s, hs, rfl⟩
  simp only [logicalOperators, List.mem_cons, List.not_mem_nil, or_false] at hs
  rcases hs with rfl | rfl | rfl
  · exact h1 rfl
  · exact h2 rfl
  · exact h3 rfl

theorem logical_not_compared {cond : Dict} {op : String} (h : cond.get "operator" = .str op)
    (hop : op ∈ logicalOperators) (hc : isOneOf logicalOperators (cond.get "operator") = false) : False := by
  have : isOneOf logicalOperators (cond.get "operator") = true := isOneOf_iff.mpr ⟨op, hop, h⟩
  rw [hc] at this
  cases this

section Inversion

variable {cond : Dict}

/-- Inversion at a conjunction or disjunction. -/
theorem CrashFree.of_logical {op : String} (h : CrashFree (.obj cond)) (hop : cond.get "operator" = .str op)
    (hlog : op = "and" ∨ op = "or") :
    ∃ children, (cond.getD "conditions" (.arr [])).iter = .ok children ∧ ∀ c ∈ children, CrashFree c := by
  cases h with
  | logical _ items all => exact ⟨_, items, all⟩
  | negation op' _ _ =>
    rw [hop] at op'
    obtain rfl := Json.str.inj op'
    exact absurd hlog (by decide)
  | comparison op' _ _ =>
    exact (logical_not_compared hop (by rcases hlog with rfl | rfl <;> decide) op').elim

/-- Inversion at a negation. -/
theorem CrashFree.of_not (h : CrashFree (.obj cond)) (hop : cond.get "operator" = .str "not") :
    ∃ child, firstItem (cond.getD "conditions" (.arr [.obj []])) = .ok child ∧ CrashFree child := by
  cases h with
  | logical op' _ _ =>
    rw [hop] at op'
    simp at op'
  | negation _ item free => exact ⟨_, item, free⟩
  | comparison op' _ _ => exact (logical_not_compared hop (by decide) op').elim

/-- Inversion at a comparison. -/
theorem CrashFree.of_comparison (h : CrashFree (.obj cond))
    (hop : isOneOf logicalOperators (cond.get "operator") = false) :
    OperandOk (cond.get "left") ∧ OperandOk (cond.get "right") := by
  cases h with
  | logical op' _ _ =>
    rcases op' with h | h
    · exact (logical_not_compared h (by decide) hop).elim
    · exact (logical_not_compared h (by decide) hop).elim
  | negation op' _ _ => exact (logical_not_compared op' (by decide) hop).elim
  | comparison _ left right => exact ⟨left, right⟩

end Inversion

/-- The children of `and` and `or` are all evaluated, whatever the results. -/
theorem children_return_iff {cond : Dict} {fuel : ℕ} (hfuel : (Json.obj cond).depth < fuel + 1)
    (ih : ∀ c : Json, c.depth < fuel → ((∀ scope, Yields (evaluateAt scope fuel c) (fun _ => True)) ↔ CrashFree c)) :
    (∀ scope, Yields (cond.getD "conditions" (.arr [])).iter (fun children =>
      Yields (children.mapM (evaluateAt scope fuel)) (fun _ => True))) ↔
    ∃ children, (cond.getD "conditions" (.arr [])).iter = .ok children ∧ ∀ c ∈ children, CrashFree c := by
  have hdepth : ∀ {children : List Json}, (cond.getD "conditions" (.arr [])).iter = .ok children →
      ∀ c ∈ children, c.depth < fuel := by
    intro children hch c hc
    unfold Dict.getD at hch
    cases hv : cond.lookup "conditions" with
    | none =>
      rw [hv] at hch
      obtain rfl := Except.ok.inj hch
      cases hc
    | some v =>
      rw [hv] at hch
      exact depth_of_child hv hch hc hfuel
  constructor
  · intro h
    obtain ⟨children, hch, -⟩ := h []
    refine ⟨children, hch, fun c hc => (ih c (hdepth hch c hc)).mp fun scope => ?_⟩
    exact yields_mapM.mp ((yields_of_eq hch).mp (h scope)) c hc
  · rintro ⟨children, hch, hall⟩ scope
    refine (yields_of_eq hch).mpr (yields_mapM.mpr fun c hc => ?_)
    exact (ih c (hdepth hch c hc)).mpr (hall c hc) scope

/-- The operand of `not`. -/
theorem first_yields_iff {cond : Dict} {fuel : ℕ} (hfuel : (Json.obj cond).depth < fuel + 1)
    (ih : ∀ c : Json, c.depth < fuel → ((∀ scope, Yields (evaluateAt scope fuel c) (fun _ => True)) ↔ CrashFree c)) :
    (∀ scope, Yields (firstItem (cond.getD "conditions" (.arr [.obj []]))) (fun child =>
      Yields (evaluateAt scope fuel child) (fun _ => True))) ↔
    ∃ child, firstItem (cond.getD "conditions" (.arr [.obj []])) = .ok child ∧ CrashFree child := by
  have hchild : ∀ {child : Json}, firstItem (cond.getD "conditions" (.arr [.obj []])) = .ok child →
      ((∀ scope, Yields (evaluateAt scope fuel child) (fun _ => True)) ↔ CrashFree child) := by
    intro child hitem
    unfold Dict.getD at hitem
    cases hv : cond.lookup "conditions" with
    | none =>
      -- the default `[{}]` is not part of the condition, but needs one step only
      rw [hv] at hitem
      obtain rfl := Except.ok.inj hitem
      obtain ⟨m, rfl⟩ : ∃ m, fuel = m + 1 := ⟨fuel - 1, by simp only [Json.depth] at hfuel; omega⟩
      simp [evaluateAt_nil, crashFree_nil]
    | some v =>
      rw [hv] at hitem
      obtain ⟨cs, hcs, hc⟩ := firstItem_mem hitem
      exact ih child (depth_of_child hv hcs hc hfuel)
  constructor
  · intro h
    obtain ⟨child, hitem, -⟩ := h []
    exact ⟨child, hitem, (hchild hitem).mp fun scope => (yields_of_eq hitem).mp (h scope)⟩
  · rintro ⟨child, hitem, hfree⟩ scope
    exact (yields_of_eq hitem).mpr ((hchild hitem).mpr hfree scope)

theorem evaluateAt_yields_iff : ∀ (fuel : ℕ) (c : Json), c.depth < fuel →
    ((∀ scope, Yields (evaluateAt scope fuel c) (fun _ => True)) ↔ CrashFree c)
  | 0, c, h => absurd h (Nat.not_lt_zero _)
  | fuel + 1, c, h => by
    cases c with
    | obj cond =>
      have ih := evaluateAt_yields_iff fuel
      simp only [evaluateAt, Json.asDict, yields_bind, yields_ok]
      split
      · rename_i hop
        have hop := str?_eq_some.mp hop
        simp only [yields_bind, yields_pure]
        rw [children_return_iff h ih]
        constructor
        · rintro ⟨children, hch, hall⟩
          exact .logical (Or.inl hop) hch hall
        · exact fun hf => hf.of_logical hop (Or.inl rfl)
      · rename_i hop
        have hop := str?_eq_some.mp hop
        simp only [yields_bind, yields_pure]
        rw [children_return_iff h ih]
        constructor
        · rintro ⟨children, hch, hall⟩
          exact .logical (Or.inr hop) hch hall
        · exact fun hf => hf.of_logical hop (Or.inr rfl)
      · rename_i hop
        have hop := str?_eq_some.mp hop
        simp only [yields_bind, yields_pure]
        rw [first_yields_iff h ih]
        constructor
        · rintro ⟨child, hitem, hfree⟩
          exact .negation hop hitem hfree
        · exact fun hf => hf.of_not hop
      · rename_i h1 h2 h3
        have hop := not_logical h1 h2 h3
        simp only [yields_bind, yields_pure]
        constructor
        · intro hr
          refine .comparison hop (operand_yields_iff.mp fun scope => ?_) (operand_yields_iff.mp fun scope => ?_)
          · exact (hr scope).mono (fun _ _ => trivial)
          · obtain ⟨left, -, hright⟩ := hr scope
            exact hright
        · intro hf scope
          obtain ⟨hleft, hright⟩ := hf.of_comparison hop
          exact (operand_yields_iff.mpr hleft scope).mono (fun _ _ => operand_yields_iff.mpr hright scope)
    | _ =>
      simp only [evaluateAt, Json.asDict, yields_bind, yields_error, forall_const, false_iff]
      intro hf
      cases hf

/-- **Conditions.**  `evaluate_condition` raises in no scope exactly on the crash-free conditions. -/
theorem crashFree_iff {c : Json} : (∀ scope, Yields (evaluateCondition scope c) (fun _ => True)) ↔ CrashFree c :=
  evaluateAt_yields_iff (c.depth + 1) c (Nat.lt_succ_self _)

/-! ## Edges -/

/-- The object condition of an edge, if it has one, is crash-free. -/
def EdgeFree (condition : Json) : Prop := ∀ cond, condition = .obj cond → CrashFree (.obj cond)

theorem conditionBlocks_yields_iff {condition : Json} :
    (∀ scope, Yields (conditionBlocks scope condition) (fun _ => True)) ↔ EdgeFree condition := by
  unfold EdgeFree
  cases condition with
  | obj cond => simp [conditionBlocks, crashFree_iff]
  | _ => simp [conditionBlocks]

theorem follow_yields {scope : Dict} {branch : Option Bool} : ∀ {es : List PlanEdge},
    (∀ e ∈ es, Yields (conditionBlocks scope e.condition) (fun _ => True)) →
      Yields (follow scope branch es) (fun _ => True)
  | [], _ => by simp [follow]
  | e :: es, h => by
    obtain ⟨he, hes⟩ := List.forall_mem_cons.mp h
    have ih := @follow_yields scope branch es hes
    rw [follow]
    split_ifs
    · exact ih
    · rw [yields_bind]
      refine he.mono fun blocked _ => ?_
      split_ifs
      · exact ih
      · rw [yields_bind]
        exact ih.mono (fun _ _ => by simp)

/-- Without a branch no label skips an edge, so every condition is evaluated. -/
theorem conditionBlocks_of_follow {scope : Dict} : ∀ {es : List PlanEdge},
    Yields (follow scope none es) (fun _ => True) →
      ∀ e ∈ es, Yields (conditionBlocks scope e.condition) (fun _ => True)
  | [], _ => fun e he => absurd he List.not_mem_nil
  | e :: es, h => by
    simp only [follow, labelBlocks, Bool.false_eq_true, if_false, yields_bind] at h
    obtain ⟨blocked, hb, h⟩ := h
    refine List.forall_mem_cons.mpr ⟨⟨blocked, hb, trivial⟩, conditionBlocks_of_follow ?_⟩
    split_ifs at h
    · exact h
    · exact (yields_bind.mp h).mono (fun _ _ => trivial)

/-- **Edges.**  `_next_nodes` raises for no scope and branch exactly if the edges' conditions are crash-free. -/
theorem nextNodes_yields_iff {plan : Plan} {x : String} :
    (∀ scope branch, Yields (nextNodes plan x scope branch) (fun _ => True)) ↔
      ∀ e ∈ plan.edgesFrom x, EdgeFree e.condition := by
  constructor
  · exact fun h e he => conditionBlocks_yields_iff.mp fun scope => conditionBlocks_of_follow (h scope none) e he
  · exact fun h scope branch => follow_yields fun e he => conditionBlocks_yields_iff.mpr (h e he) scope

/-- The nodes that are followed, in the order of their edges. -/
theorem follow_sublist {scope : Dict} {branch : Option Bool} : ∀ {es : List PlanEdge} {next : List String},
    follow scope branch es = .ok next → next.Sublist (es.map (·.target))
  | [], next, h => by
    simp only [follow, Except.ok.injEq] at h
    exact h ▸ List.nil_sublist _
  | e :: es, next, h => by
    rw [follow] at h
    split_ifs at h
    · exact (follow_sublist h).cons _
    · obtain ⟨b, -, h⟩ := bind_eq_ok.mp h
      split_ifs at h
      · exact (follow_sublist h).cons _
      · obtain ⟨more, hmore, h⟩ := bind_eq_ok.mp h
        obtain rfl := pure_eq_ok.mp h
        exact (follow_sublist hmore).cons_cons _

/-! ## Retries -/

/-- The runner fails only with exceptions that `_run_with_retry` handles. -/
def Env.Handled {W : Type} (env : Env W) : Prop :=
  ∀ action inputs ctx key w, (env.runAction action inputs ctx key w).1 ≠ .killed

/-- The retries of a node: a number for `int`, and no attempt whose delay overflows. -/
def RetryOk (policy node : Dict) : Prop :=
  ∃ retries, (node.getD "retry_attempts" (policy.get "retry_attempts")).toInt = .ok retries ∧
    ∀ limit, backoffLimit policy = some limit → retries < limit

theorem attemptLoop_yields {W : Type} {env : Env W} (henv : env.Handled) {policy : Dict} {action nodeId : String}
    {inputs : Json} {top : ℤ} (htop : ∀ limit, backoffLimit policy = some limit → top ≤ limit) :
    ∀ (left : ℕ) (attempt : ℤ) (ctx : ExecutionContext) (w : W) (calls : List ActionCall),
      Yields (attemptLoop env policy action nodeId inputs top left attempt ctx w calls).result (fun _ => True)
  | 0, _, _, _, _ => by simp [attemptLoop]
  | left + 1, attempt, ctx, w, calls => by
    rw [attemptLoop]
    by_cases hd : ctx.dryRun = true
    · simp [hd]
    simp only [hd, Bool.false_eq_true, if_false]
    have hkilled := henv action inputs ctx (actionIdempotencyKey ctx.executionId nodeId attempt) w
    split
    · simp
    · simp
    · rename_i ho
      exact absurd ho hkilled
    · rename_i kind typeName message ho
      split_ifs with hretry hraise
      · -- the delay of an attempt below the limit does not overflow
        exfalso
        unfold backoffRaises at hraise
        rw [Option.any_eq_true] at hraise
        obtain ⟨limit, hlimit, hle⟩ := hraise
        unfold shouldRetry at hretry
        simp only [Bool.and_eq_true, decide_eq_true_eq] at hretry hle
        have := htop limit hlimit
        omega
      · exact attemptLoop_yields henv htop left (attempt + 1) _ _ _
      · simp

/-- A world in which every action fails with an exception that is worth a retry. -/
def failingEnv : Env Unit where
  runAction _ _ ctx _ w := (.raised .other "RuntimeError" "unavailable", ctx, w)
  reread scope _ := scope
  killCheck := none
  persistNode := none
  utcnow w := (0, w)
  isoformat _ := ""

/-- Every action of the catalog may be retried after such a failure. -/
theorem effectiveClass_transient {action : String} {spec : ActionSpec}
    (h : actionCatalog.lookup action = some spec) : effectiveClass action .transient ≠ .terminal := by
  have hall : ∀ kv ∈ actionCatalog, kv.2.retryClass ≠ .none := by decide
  have hne := hall _ (mem_of_lookup h)
  unfold effectiveClass
  simp only [h]
  cases hr : spec.retryClass with
  | none => exact absurd hr hne
  | _ => simp

/-- Attempts that all fail with such an exception reach the delay that overflows. -/
theorem attemptLoop_overflows {W : Type} {env : Env W} {policy : Dict} {action nodeId : String} {inputs : Json}
    {top limit : ℤ} (hclass : effectiveClass action .transient ≠ .terminal) (hlimit : backoffLimit policy = some limit)
    (hlt : limit < top) {ctx : ExecutionContext} (hdry : ctx.dryRun = false)
    (hfails : ∀ k w, ∃ typeName message w', env.runAction action inputs ctx
      (actionIdempotencyKey ctx.executionId nodeId k) w = (.raised .other typeName message, ctx, w')) :
    ∀ (left : ℕ) (attempt : ℤ) (w : W) (calls : List ActionCall), attempt ≤ limit → (limit - attempt).toNat < left →
      ¬ Yields (attemptLoop env policy action nodeId inputs top left attempt ctx w calls).result (fun _ => True)
  | 0, _, _, _, _, hleft => absurd hleft (Nat.not_lt_zero _)
  | left + 1, attempt, w, calls, hle, hleft => by
    have hretry : shouldRetry (effectiveClass action (classifyException .other)) attempt top = true := by
      simp only [shouldRetry, classifyException, Bool.and_eq_true, bne_iff_ne, decide_eq_true_eq]
      exact ⟨hclass, by omega⟩
    obtain ⟨typeName, message, w', hrun⟩ := hfails attempt w
    rw [attemptLoop]
    simp only [hdry, Bool.false_eq_true, if_false, hrun, hretry, if_true]
    by_cases hreached : limit ≤ attempt
    · have hraise : backoffRaises policy attempt = true := by simp [backoffRaises, hlimit, hreached]
      simp [hraise]
    · have hraise : backoffRaises policy attempt = false := by simp [backoffRaises, hlimit, hreached]
      simp only [hraise, Bool.false_eq_true, if_false]
      exact attemptLoop_overflows hclass hlimit hlt hdry hfails left (attempt + 1) w' _ (by omega) (by omega)

theorem backoffLimit_pos {policy : Dict} {limit : ℤ} (h : backoffLimit policy = some limit) : 1 ≤ limit := by
  unfold backoffLimit at h
  split at h
  · cases h
  · obtain rfl := Option.some.inj h
    have hlt : (2 : ℤ) ^ 970 < 2 ^ 1024 := pow_lt_pow_right₀ (by norm_num) (by norm_num)
    exact Order.one_le_iff_pos.mpr (sub_pos.mpr hlt)
  · obtain rfl := Option.some.inj h
    decide

theorem maxAttempts_eq {policy node : Dict} {v : Json} (hp : policy.lookup "retry_attempts" = some v) :
    maxAttempts policy node = (node.getD "retry_attempts" (policy.get "retry_attempts")).toInt >>=
      fun retries => .ok (retries + 1) := by
  simp [maxAttempts, getItem, hp, Dict.get, bind, Except.bind, pure, Except.pure]

/-- **Retries.**  `_run_with_retry` raises for no runner whose failures it handles exactly if the number of
retries is one for `int` and stays below the overflow of the delay. -/
theorem runWithRetry_yields_iff {policy node : Dict} {v : Json} {spec : ActionSpec}
    (hp : policy.lookup "retry_attempts" = some v)
    (ha : actionCatalog.lookup (node.get "action").text = some spec) :
    (∀ (W : Type) (env : Env W), env.Handled → ∀ ctx w,
      Yields (runWithRetry env policy node ctx w).result (fun _ => True)) ↔ RetryOk policy node := by
  constructor
  · intro h
    have hfail := h Unit failingEnv (fun _ _ _ _ _ => ActionOutcome.noConfusion) sampleContext ()
    unfold runWithRetry at hfail
    rw [maxAttempts_eq hp] at hfail
    cases hr : (node.getD "retry_attempts" (policy.get "retry_attempts")).toInt with
    | error e =>
      rw [hr] at hfail
      simp [bind, Except.bind] at hfail
    | ok retries =>
      refine ⟨retries, hr, fun limit hlimit => ?_⟩
      by_contra hge
      rw [hr] at hfail
      have hpos := backoffLimit_pos hlimit
      exact attemptLoop_overflows (effectiveClass_transient ha) hlimit (by omega) rfl (fun _ _ => ⟨_, _, _, rfl⟩) _ _ _ _
        hpos (by omega) hfail
  · rintro ⟨retries, hr, hlimit⟩ W env henv ctx w
    unfold runWithRetry
    rw [maxAttempts_eq hp, hr]
    exact attemptLoop_yields henv (fun limit hl => by have := hlimit limit hl; omega) _ _ _ _ _

/-! ## Runs -/

/-- A plan whose conditions, edges and retries raise in no scope. -/
structure PlanFree (plan : Plan) : Prop where
  conditions : ∀ x node, plan.nodes.lookup x = some node → NodeType.ofJson? (node.get "type") = some .condition →
    CrashFree (node.getD "condition" (.obj []))
  edges : ∀ x, ∀ e ∈ plan.edgesFrom x, EdgeFree e.condition
  retries : ∀ x node, plan.nodes.lookup x = some node → NodeType.ofJson? (node.get "type") = some .action →
    RetryOk plan.globalPolicy node

/-- The merged policy always has a number of retries. -/
theorem Compiled.retryAttempts {doc : Dict} {plan : Plan} (hc : Compiled doc plan) :
    ∃ v, plan.globalPolicy.lookup "retry_attempts" = some v := by
  obtain ⟨p, -, hplan⟩ := hc.policy
  refine ⟨(p.lookup "retry_attempts").getD (.int 3), ?_⟩
  rw [hplan]
  simp [defaultPolicy, Dict.merge, List.lookup_cons]

/-- The action of a compiled action node is in the catalog. -/
theorem Compiled.action {doc : Dict} {plan : Plan} (hc : Compiled doc plan) {x : String} {node : Dict}
    (hl : plan.nodes.lookup x = some node) (ht : NodeType.ofJson? (node.get "type") = some .action) :
    ∃ spec, actionCatalog.lookup (node.get "action").text = some spec := by
  obtain ⟨-, t, hok⟩ := hc.node hl
  obtain rfl := Option.some.inj (hok.type_eq.symm.trans ht)
  obtain ⟨path, check, hcheck, hnil⟩ := hok.branch
  obtain ⟨spec, hspec, -⟩ := checkNodeType_clean.mp ⟨check, hcheck, hnil⟩
  exact ⟨spec, hspec⟩

/-- The targets of all edges of a node. -/
def Plan.targets (plan : Plan) (x : String) : List String := (plan.edgesFrom x).map (·.target)

/-- A turn that took the first node from the queue did not raise, and queued only targets of it. -/
def Turn.Progress {W : Type} (targets rest : List String) : Turn W → Prop
  | .more σ => ∃ next, next.Sublist targets ∧ σ.queue = rest ++ next
  | .done _ _ => True
  | .raised _ _ => False

section Runs

variable {W : Type} {env : Env W} {doc : Dict} {plan : Plan} {x : String} {node : Dict} {σ : Loop W}
  {rest : List String} {deadline : Instant}

theorem PlanFree.nextNodes (hf : PlanFree plan) (x : String) (scope : Dict) (branch : Option Bool) :
    ∃ next, nextNodes plan x scope branch = .ok next ∧ next.Sublist (plan.targets x) := by
  obtain ⟨next, hnext, -⟩ := nextNodes_yields_iff.mpr (hf.edges x) scope branch
  exact ⟨next, hnext, follow_sublist hnext⟩

theorem progress_extend (hf : PlanFree plan) (hq : σ.queue = rest) (scope : Dict) (branch : Option Bool) :
    (σ.extend (nextNodes plan x scope branch)).Progress (plan.targets x) rest := by
  obtain ⟨next, hnext, hsub⟩ := hf.nextNodes x scope branch
  rw [hnext]
  exact ⟨next, hsub, by rw [← hq]⟩

theorem processDelay_progress (hc : Compiled doc plan) (hf : PlanFree plan) (hl : plan.nodes.lookup x = some node)
    (ht : NodeType.ofJson? (node.get "type") = some .delay) :
    (processDelay env plan x node σ).Progress (plan.targets x) rest := by
  obtain ⟨n, hn⟩ := hc.delay hl ht
  obtain ⟨next, hnext, -⟩ := hf.nextNodes x (scopeOf σ.context) none
  simp [processDelay, hn, hnext, Turn.Progress]

theorem processApproval_progress (hf : PlanFree plan) :
    (processApproval plan x σ).Progress (plan.targets x) rest := by
  obtain ⟨next, hnext, -⟩ := hf.nextNodes x (scopeOf σ.context) none
  simp [processApproval, hnext, Turn.Progress]

theorem processLoop_progress (hc : Compiled doc plan) (hf : PlanFree plan) (hl : plan.nodes.lookup x = some node)
    (ht : NodeType.ofJson? (node.get "type") = some .loop) (hq : σ.queue = rest) :
    (processLoop plan x node σ).Progress (plan.targets x) rest := by
  obtain ⟨limit, hlimit, -⟩ := hc.loopLimit hl ht
  unfold processLoop
  simp only [hlimit]
  split_ifs
  · trivial
  · exact ⟨[], List.nil_sublist _, by simpa [Loop.addResult] using hq⟩
  · refine progress_extend hf ?_ _ _
    exact hq

theorem processAction_progress (henv : env.Handled) (hc : Compiled doc plan) (hf : PlanFree plan)
    (hl : plan.nodes.lookup x = some node) (ht : NodeType.ofJson? (node.get "type") = some .action)
    (hq : σ.queue = rest) : (processAction env plan x node σ).Progress (plan.targets x) rest := by
  obtain ⟨v, hp⟩ := hc.retryAttempts
  obtain ⟨spec, ha⟩ := hc.action hl ht
  obtain ⟨result, hresult, -⟩ :=
    (runWithRetry_yields_iff hp ha).mpr (hf.retries x node hl ht) W env henv σ.context σ.world
  unfold processAction
  simp only [hresult]
  split_ifs
  · trivial
  · refine progress_extend hf ?_ _ _
    exact hq

theorem processNode_progress (henv : env.Handled) (hc : Compiled doc plan) (hf : PlanFree plan)
    (hq : σ.queue = rest) : (processNode env plan x σ).Progress (plan.targets x) rest := by
  unfold processNode
  split
  · exact ⟨[], List.nil_sublist _, by simpa using hq⟩
  · rename_i node hl
    split
    · rename_i ht
      unfold processCondition
      obtain ⟨passed, hpassed, -⟩ := crashFree_iff.mpr (hf.conditions x node hl ht) (scopeOf σ.context)
      simp only [Loop.enter, hpassed]
      refine progress_extend hf ?_ _ _
      exact hq
    · exact processDelay_progress hc hf hl ‹_›
    · exact processApproval_progress hf
    · exact processLoop_progress hc hf hl ‹_› hq
    · refine progress_extend hf ?_ _ _
      exact hq
    · exact processAction_progress henv hc hf hl ‹_› hq
    · refine progress_extend hf ?_ _ _
      exact hq

/-- **One turn** of a crash-free plan ends the run or makes progress. -/
theorem turn_progress (henv : env.Handled) (hc : Compiled doc plan) (hf : PlanFree plan)
    (hq : σ.queue = x :: rest) : (turn env plan deadline σ).Progress (plan.targets x) rest := by
  unfold turn
  rw [hq]
  simp only
  split_ifs
  · trivial
  · trivial
  · exact ⟨[], List.nil_sublist _, by simp⟩
  · exact processNode_progress henv hc hf rfl

/-- **A whole run** ends: every turn makes the queue lighter. -/
theorem runTurns_ends (henv : env.Handled) (hc : Compiled doc plan) (hf : PlanFree plan) {wt : String → ℕ}
    (hwt : ∀ x, ((plan.targets x).map wt).sum < wt x) (deadline : Instant) : ∀ (bound : ℕ) (σ : Loop W),
      (σ.queue.map wt).sum < bound → ∃ n r σ', runTurns env plan deadline n σ = .done r σ'
  | 0, σ, h => absurd h (Nat.not_lt_zero _)
  | bound + 1, σ, h => by
    cases hq : σ.queue with
    | nil => exact ⟨1, σ.result .completed [], σ, by simp [runTurns, turn, hq]⟩
    | cons x rest =>
      have hprogress := @turn_progress W env doc plan x σ rest deadline henv hc hf hq
      cases ht : turn env plan deadline σ with
      | more σ' =>
        rw [ht] at hprogress
        obtain ⟨next, hsub, hqueue⟩ := hprogress
        have hle : (next.map wt).sum ≤ ((plan.targets x).map wt).sum := (hsub.map wt).sum_le_sum (by simp)
        have hlt := hwt x
        obtain ⟨n, r, σ'', hrun⟩ := runTurns_ends henv hc hf hwt deadline bound σ' (by
          rw [hq, List.map_cons, List.sum_cons] at h
          rw [hqueue, List.map_append, List.sum_append]
          omega)
        exact ⟨n + 1, r, σ'', by simpa [runTurns, ht] using hrun⟩
      | done r σ' => exact ⟨1, r, σ', by simp [runTurns, ht]⟩
      | raised e σ' =>
        rw [ht] at hprogress
        exact hprogress.elim

theorem targets_acyclic (hc : Compiled doc plan) : WellFounded (fun y x => y ∈ plan.targets x) := by
  refine Subrelation.wf (fun {y x} h => ?_) hc.acyclic
  obtain ⟨e, he, rfl⟩ := List.mem_map.mp h
  exact hc.edge.mp ⟨e, he, rfl⟩

theorem execute_done (henv : env.Handled) (hc : Compiled doc plan) (hf : PlanFree plan) (ctx : ExecutionContext)
    (w : W) (hhash : plan.contentHash = ctx.contentHash) :
    ∃ n r σ, execute env plan n ctx none w = .done r σ := by
  obtain ⟨wt, hwt⟩ := exists_weight (targets_acyclic hc)
  obtain ⟨deadline, hdeadline⟩ := hc.deadline ctx
  obtain ⟨n, r, σ, hrun⟩ := runTurns_ends henv hc hf hwt deadline _ (startLoop plan ctx none w) (Nat.lt_succ_self _)
  exact ⟨n, r, σ, by simpa [execute, hhash, hdeadline] using hrun⟩

end Runs

/-! ## Documents -/

/-- The engine's parts return on this plan: every condition of a condition node, the successors of every node
and the retries of every action, in every scope and for every runner whose failures are handled; and every run
from the entry nodes ends with a result. -/
structure EngineTotal (plan : Plan) : Prop where
  evaluates : ∀ x node, plan.nodes.lookup x = some node → NodeType.ofJson? (node.get "type") = some .condition →
    ∀ scope, Yields (evaluateCondition scope (node.getD "condition" (.obj []))) (fun _ => True)
  follows : ∀ x scope branch, Yields (nextNodes plan x scope branch) (fun _ => True)
  retries : ∀ x node, plan.nodes.lookup x = some node → NodeType.ofJson? (node.get "type") = some .action →
    ∀ (W : Type) (env : Env W), env.Handled → ∀ ctx w,
      Yields (runWithRetry env plan.globalPolicy node ctx w).result (fun _ => True)
  executes : ∀ (W : Type) (env : Env W), env.Handled → ∀ ctx w, plan.contentHash = ctx.contentHash →
    ∃ n r σ, execute env plan n ctx none w = .done r σ

/-- What the validator would have to check as well: the conditions of the condition nodes and the condition
objects of the edges down to the last child, and the retries of the actions. -/
structure CrashFreeDocument (doc : Dict) : Prop where
  conditions : ∀ id node, HasNode doc id node → NodeType.ofJson? (node.get "type") = some .condition →
    CrashFree (node.getD "condition" (.obj []))
  edges : ∀ edge, .obj edge ∈ documentEdges doc → EdgeFree (Dict.get edge "condition")
  retries : ∀ id node, HasNode doc id node → NodeType.ofJson? (node.get "type") = some .action →
    ∀ policy, mergedPolicy doc = .ok policy → RetryOk policy node

theorem planFree_iff {py : Interpreter} {doc : Dict} {plan : Plan}
    (h : compileWorkflow py doc = .ok plan) : PlanFree plan ↔ CrashFreeDocument doc := by
  have hc := compileWorkflow_ok h
  have hpolicy := (compileWorkflow_parts h).2.1
  constructor
  · rintro ⟨hcond, hedges, hretry⟩
    refine ⟨fun id node hn ht => hcond id node (hc.lookup_of_hasNode hn) ht, (edgeConditions_iff h).mp hedges, ?_⟩
    intro id node hn ht policy hp
    obtain rfl := Except.ok.inj (hp.symm.trans hpolicy)
    exact hretry id node (hc.lookup_of_hasNode hn) ht
  · rintro ⟨hcond, hedges, hretry⟩
    exact ⟨fun x node hl ht => hcond x node (hc.node hl).1 ht, (edgeConditions_iff h).mpr hedges,
      fun x node hl ht => hretry x node (hc.node hl).1 ht _ hpolicy⟩

/-- **Crash freedom.**  An accepted document is run without an exception exactly if it is crash-free. -/
theorem engine_total_iff (py : Interpreter) (doc : Dict) (plan : Plan)
    (h : compileWorkflow py doc = .ok plan) : EngineTotal plan ↔ CrashFreeDocument doc := by
  have hc := compileWorkflow_ok h
  rw [← planFree_iff h]
  constructor
  · rintro ⟨hevaluates, hfollows, hretries, -⟩
    refine ⟨fun x node hl ht => crashFree_iff.mp (hevaluates x node hl ht),
      fun x => nextNodes_yields_iff.mp (hfollows x), fun x node hl ht => ?_⟩
    obtain ⟨v, hp⟩ := hc.retryAttempts
    obtain ⟨spec, ha⟩ := hc.action hl ht
    exact (runWithRetry_yields_iff hp ha).mp (hretries x node hl ht)
  · intro hf
    refine ⟨fun x node hl ht => crashFree_iff.mpr (hf.conditions x node hl ht),
      fun x => nextNodes_yields_iff.mpr (hf.edges x), fun x node hl ht => ?_,
      fun W env henv ctx w => execute_done henv hc hf ctx w⟩
    obtain ⟨v, hp⟩ := hc.retryAttempts
    obtain ⟨spec, ha⟩ := hc.action hl ht
    exact (runWithRetry_yields_iff hp ha).mpr (hf.retries x node hl ht)

/-- A condition node over an amount, in front of a note. -/
def amountCheck (children : List Json) : Dict :=
  [("name", .str "Large deal"), ("trigger", .obj [("type", .str "manual")]),
    ("nodes", .arr [
      .obj [("id", .str "large"), ("type", .str "condition"),
        ("condition", .obj [("operator", .str "and"), ("conditions", .arr children)])],
      .obj [("id", .str "note"), ("type", .str "action"), ("action", .str "note.create")]]),
    ("edges", .arr [.obj [("source", .str "large"), ("target", .str "note"), ("label", .str "true")]])]

/-- The child condition of the sample. -/
def largeAmount : Json :=
  .obj [("operator", .str "gt"), ("left", .str "\x7b\x7bentity.amount\x7d\x7d"), ("right", .int 1000)]

theorem largeAmount_free : CrashFree largeAmount := by
  refine .comparison rfl ?_ ?_
  · intro path hpath
    obtain rfl : path = "entity.amount" := by
      have : templatePath? (.str "\x7b\x7bentity.amount\x7d\x7d") = some "entity.amount" := by decide +kernel
      exact Option.some.inj (hpath.symm.trans this)
    have hparts : (split "entity.amount" ".").tail = ["amount"] := by decide +kernel
    intro part hm hd
    rw [hparts] at hm
    obtain rfl := List.mem_singleton.mp hm
    exact absurd hd (by decide +kernel)
  · intro path hpath
    cases hpath

theorem amountCheck_free : CrashFreeDocument (amountCheck [largeAmount]) := by
  have hnodes : ∀ {id : String} {node : Dict}, HasNode (amountCheck [largeAmount]) id node →
      node = [("id", .str "large"), ("type", .str "condition"),
        ("condition", .obj [("operator", .str "and"), ("conditions", .arr [largeAmount])])] ∨
      node = [("id", .str "note"), ("type", .str "action"), ("action", .str "note.create")] := by
    rintro id node ⟨hm, -⟩
    rcases List.mem_cons.mp hm with hm | hm
    · exact Or.inl (Json.obj.inj hm)
    · exact Or.inr (Json.obj.inj (List.mem_singleton.mp hm))
  refine ⟨?_, ?_, ?_⟩
  · intro id node hn ht
    rcases hnodes hn with rfl | rfl
    · exact .logical (Or.inl rfl) rfl (by simpa using largeAmount_free)
    · exact absurd ht (by decide)
  · intro edge he cond hcond
    obtain rfl := Json.obj.inj (List.mem_singleton.mp he)
    cases hcond
  · intro id node hn ht policy hp
    obtain rfl := Except.ok.inj hp
    rcases hnodes hn with rfl | rfl
    · exact absurd ht (by decide)
    · exact ⟨3, rfl, by decide +kernel⟩

/-- A condition over well-formed children compiles, and its engine is total. -/
theorem amountCheck_total : ∃ plan, compileWorkflow plainInterpreter (amountCheck [largeAmount]) = .ok plan ∧
    EngineTotal plan := by
  have hok : (compileWorkflow plainInterpreter (amountCheck [largeAmount])).toOption.isSome = true := by
    decide +kernel
  exact ⟨_, eq_ok_get hok, (engine_total_iff _ _ _ (eq_ok_get hok)).mpr amountCheck_free⟩

/-- The exception a run ended with. -/
def Turn.error? {W : Type} : Turn W → Option EngineError
  | .raised e _ => some e
  | _ => none

/-- The validator accepts a child that is a text; the first turn of the engine raises on it. -/
theorem amountCheck_raises : ∃ plan,
    compileWorkflow plainInterpreter (amountCheck [.str "amount"]) = .ok plan ∧
      (execute calmEnv plan 1 sampleContext none ()).error? = some (.raised .attributeError) ∧ ¬ EngineTotal plan := by
  have hrun : (compileWorkflow plainInterpreter (amountCheck [.str "amount"])).toOption.map (fun plan =>
      (execute calmEnv plan 1 sampleContext none ()).error?) = some (some (.raised .attributeError)) := by
    decide +kernel
  obtain ⟨plan, hplan, hraise⟩ := Option.map_eq_some_iff.mp hrun
  have hcompile := eq_ok_of_toOption hplan
  refine ⟨plan, hcompile, hraise, fun htotal => ?_⟩
  have hnode : HasNode (amountCheck [.str "amount"]) "large" [("id", .str "large"), ("type", .str "condition"),
      ("condition", .obj [("operator", .str "and"), ("conditions", .arr [.str "amount"])])] :=
    ⟨List.mem_cons_self, rfl⟩
  obtain ⟨b, hb, -⟩ := htotal.evaluates "large" _ ((compileWorkflow_ok hcompile).lookup_of_hasNode hnode) rfl []
  cases hb

end RevenueOS.Workflows
