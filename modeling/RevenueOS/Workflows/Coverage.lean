import RevenueOS.Workflows.ActionKeys
import RevenueOS.Workflows.Orphans
import RevenueOS.Workflows.Suspension

/-!
# RevenueOS.Workflows.Coverage — a run processes what its entry nodes reach

A plan without delays, approvals and loops, an environment whose runner leaves the context alone, with no kill and time
enough.  In the scope of the run the enabled edges form a graph, and the run is a search of it.

* `steady_turn`: a turn is a step of the search, or ends the run with a failed action.
* `covers_of_smooth`: where nothing raises, the run completes and processes what is reached, each node once.
* `traversal_covers_iff`: that is also necessary, and what is reached depends on no order and no priority.
-/

namespace RevenueOS.Workflows

open RevenueOS.Py RevenueOS.Lib Relation

variable {W : Type}

/-! ## Plans and environments -/

/-- The plan has no node that suspends the run or loops. -/
def Straight (plan : Plan) : Prop := ∀ x node, plan.nodes.lookup x = some node →
  NodeType.ofJson? (node.get "type") ≠ some .delay ∧ NodeType.ofJson? (node.get "type") ≠ some .approval ∧
    NodeType.ofJson? (node.get "type") ≠ some .loop

/-- The runner leaves the context alone and is not killed, no kill switch is engaged, and the deadline does not pass. -/
structure Undisturbed (env : Env W) (plan : Plan) (ctx : ExecutionContext) : Prop where
  context : ∀ action inputs c key w, (env.runAction action inputs c key w).2.1 = c
  reread : ∀ scope w, env.reread scope w = scope
  handled : env.Handled
  alive : ∀ c w, (env.killed c w).1 = false
  timely : ∀ deadline, deadlineOf plan ctx = .ok deadline → ∀ w, (env.utcnow w).1 ≤ deadline

/-- What enabled edges lead to from the entry nodes. -/
def Reached (plan : Plan) (ctx : ExecutionContext) (x : String) : Prop :=
  ReachedFrom (enabledNext plan (scopeOf ctx)) plan.entryNodes x

/-- The run completes and has processed what is reached, each node once. -/
def Covered (env : Env W) (plan : Plan) (ctx : ExecutionContext) (w : W) : Prop :=
  ∃ n r σ, execute env plan n ctx none w = .done r σ ∧ r.state = .completed ∧
    (processed env plan n ctx none w).Nodup ∧ ∀ x, x ∈ processed env plan n ctx none w ↔ Reached plan ctx x

/-- Every action that is reached succeeds, whenever it is run: no result of its attempts is a failure. -/
def AllSucceed (env : Env W) (plan : Plan) (ctx : ExecutionContext) : Prop :=
  ∀ x node, Reached plan ctx x → plan.nodes.lookup x = some node → NodeType.ofJson? (node.get "type") = some .action →
    ∀ w result, (runWithRetry env plan.globalPolicy node ctx w).result = .ok result → result.state ≠ .failed

/-- No action of the run fails. -/
def NoneFails (env : Env W) (plan : Plan) (ctx : ExecutionContext) (w : W) : Prop :=
  ∀ n, ∀ r ∈ (execute env plan n ctx none w).loop.results, r.state ≠ .failed

/-- The node can be processed in the scope: its condition and its edges evaluate, and the attempts of an action are a
number of which none reaches a delay that overflows. -/
structure Smooth (plan : Plan) (ctx : ExecutionContext) (x : String) (node : Dict) : Prop where
  evaluates : ∃ next, enabledEdges plan (scopeOf ctx) x = .ok next
  retries : NodeType.ofJson? (node.get "type") = some .action → ∃ n, maxAttempts plan.globalPolicy node = .ok n ∧
    (ctx.dryRun = false → ∀ limit, backoffLimit plan.globalPolicy = some limit → n ≤ limit)

/-- Every node that is reached can be processed. -/
def AllSmooth (plan : Plan) (ctx : ExecutionContext) : Prop :=
  ∀ x node, Reached plan ctx x → plan.nodes.lookup x = some node → Smooth plan ctx x node

/-! ## One turn -/

section Actions

variable {env : Env W} {plan : Plan} {ctx : ExecutionContext} {node : Dict}

theorem attemptLoop_context (hcontext : ∀ action inputs c key w, (env.runAction action inputs c key w).2.1 = c)
    {policy : Dict} {action x : String} {inputs : Json} {top : ℤ} : ∀ (left : ℕ) (attempt : ℤ) (w : W)
      (calls : List ActionCall), (attemptLoop env policy action x inputs top left attempt ctx w calls).context = ctx := by
  intro left
  induction left with
  | zero => exact fun _ _ _ => rfl
  | succ left ih =>
    intro attempt w calls
    have hsame := hcontext action inputs ctx (actionIdempotencyKey ctx.executionId x attempt) w
    rw [attemptLoop]
    dsimp only
    by_cases hdry : ctx.dryRun = true
    · rw [if_pos hdry]
    · rw [if_neg hdry]
      split
      · exact hsame
      · exact hsame
      · exact hsame
      · split
        · split
          · exact hsame
          · rw [hsame]
            exact ih _ _ _
        · exact hsame

theorem runWithRetry_context (hcontext : ∀ action inputs c key w, (env.runAction action inputs c key w).2.1 = c)
    (policy node : Dict) (ctx : ExecutionContext) (w : W) : (runWithRetry env policy node ctx w).context = ctx := by
  unfold runWithRetry
  split
  · rfl
  · exact attemptLoop_context hcontext _ _ _ _

/-- The attempts of a smooth action come to a result. -/
theorem Smooth.result {x : String} (hs : Smooth plan ctx x node) (hsteady : Undisturbed env plan ctx)
    (ht : NodeType.ofJson? (node.get "type") = some .action) (w : W) :
    ∃ result, (runWithRetry env plan.globalPolicy node ctx w).result = .ok result := by
  obtain ⟨n, hn, hlimit⟩ := hs.retries ht
  unfold runWithRetry
  simp only [hn]
  cases hdry : ctx.dryRun with
  | true =>
    cases n.toNat with
    | zero => exact ⟨_, rfl⟩
    | succ m =>
      rw [attemptLoop]
      simp only [hdry, if_true]
      exact ⟨_, rfl⟩
  | false =>
    obtain ⟨result, hresult, -⟩ := @attemptLoop_yields W env hsteady.handled plan.globalPolicy _ _ _ n
      (hlimit hdry) n.toNat 1 ctx w []
    exact ⟨result, hresult⟩

end Actions

section Turns

variable {env : Env W} {plan : Plan} {ctx : ExecutionContext} {node doc : Dict} {deadline : Instant} {σ σ' : Loop W}
  {x : String} {rest : List String}

/-- A node was processed: its enabled successors are queued. -/
structure Searched (plan : Plan) (ctx : ExecutionContext) (x : String) (rest : List String) (σ σ' : Loop W) : Prop where
  context : σ'.context = ctx
  queue : σ'.queue = rest ++ enabledNext plan (scopeOf ctx) x
  visited : σ'.visited = insertId σ.visited x

/-- A turn ends the run because the action `x` has failed. -/
structure FailsAction (env : Env W) (plan : Plan) (ctx : ExecutionContext) (x : String) (t : Turn W) : Prop where
  stops : plan.stops = true
  failed : ∃ node w result, plan.nodes.lookup x = some node ∧ NodeType.ofJson? (node.get "type") = some .action ∧
    (runWithRetry env plan.globalPolicy node ctx w).result = .ok result ∧ result ∈ t.loop.results ∧
    result.state = .failed

/-- A node that is no action. -/
theorem searched_extend {σ₀ : Loop W} {next : List String} {r : Except PyError (List String)}
    (hcontext : σ.context = ctx) (hqueue : σ.queue = rest) (hvisited : σ.visited = insertId σ₀.visited x)
    (hnext : enabledEdges plan (scopeOf ctx) x = .ok next) (hfollow : r = .ok next) :
    ∃ σ', σ.extend r = .more σ' ∧ Searched plan ctx x rest σ₀ σ' := by
  refine ⟨_, extend_eq_more.mpr ⟨next, hfollow, rfl⟩, hcontext, ?_, hvisited⟩
  show σ.queue ++ next = _
  rw [hqueue, enabledNext_of_ok hnext]

/-- An action, which may fail. -/
theorem searched_action {σ₀ : Loop W} (hsteady : Undisturbed env plan ctx) (hs : Smooth plan ctx x node)
    (hl : plan.nodes.lookup x = some node) (ht : NodeType.ofJson? (node.get "type") = some .action)
    (hcontext : σ.context = ctx) (hqueue : σ.queue = rest) (hvisited : σ.visited = insertId σ₀.visited x) :
    (∃ σ', processAction env plan x node σ = .more σ' ∧ Searched plan ctx x rest σ₀ σ') ∨
      FailsAction env plan ctx x (processAction env plan x node σ) := by
  obtain ⟨next, hnext⟩ := hs.evaluates
  obtain ⟨result, hresult⟩ := hs.result hsteady ht σ.world
  have hfollow := nextNodes_of_enabled hl (by rw [ht]; decide) hnext
  have hsame := runWithRetry_context hsteady.context plan.globalPolicy node ctx σ.world
  unfold processAction
  simp only [hcontext, hresult, hsteady.reread, hfollow]
  by_cases hstop : result.state = .failed ∧ plan.stops = true
  · rw [if_pos hstop]
    exact .inr ⟨hstop.2, node, σ.world, result, hl, ht, hresult, List.mem_append_right _ List.mem_cons_self, hstop.1⟩
  · rw [if_neg hstop]
    refine .inl ⟨_, extend_eq_more.mpr ⟨next, rfl, rfl⟩, hsame, ?_, hvisited⟩
    show σ.queue ++ next = _
    rw [hqueue, enabledNext_of_ok hnext]

/-- **A node that is processed.** -/
theorem processNode_searched {σ₀ : Loop W} (hc : Compiled doc plan) (hstraight : Straight plan)
    (hsteady : Undisturbed env plan ctx) (hl : plan.nodes.lookup x = some node) (hs : Smooth plan ctx x node)
    (hcontext : σ.context = ctx) (hqueue : σ.queue = rest) (hvisited : σ.visited = insertId σ₀.visited x) :
    (∃ σ', processNode env plan x σ = .more σ' ∧ Searched plan ctx x rest σ₀ σ') ∨
      FailsAction env plan ctx x (processNode env plan x σ) := by
  obtain ⟨-, t, hok⟩ := hc.node hl
  have ht := hok.type_eq
  obtain ⟨hdelay, happroval, hloop⟩ := hstraight x node hl
  obtain ⟨next, hnext⟩ := hs.evaluates
  have hscope : scopeOf (σ.enter x).context = scopeOf ctx := congrArg scopeOf hcontext
  simp only [processNode, hl, ht]
  cases t with
  | delay => exact absurd ht hdelay
  | approval => exact absurd ht happroval
  | loop => exact absurd ht hloop
  | action => exact searched_action hsteady hs hl ht hcontext hqueue hvisited
  | condition =>
    obtain ⟨passed, hpassed, hfollow⟩ := nextNodes_of_condition hl ht hnext
    simp only [processCondition, hscope, hpassed]
    refine .inl (searched_extend ?_ hqueue hvisited hnext hfollow)
    exact hcontext
  | parallel =>
    have hfollow := nextNodes_of_enabled hl (by rw [ht]; decide) hnext
    simp only [processParallel, hscope]
    refine .inl (searched_extend ?_ hqueue hvisited hnext hfollow)
    exact hcontext
  | subworkflow =>
    have hfollow := nextNodes_of_enabled hl (by rw [ht]; decide) hnext
    simp only [hcontext]
    exact .inl (searched_extend hcontext hqueue hvisited hnext hfollow)

/-- The queue, the nodes visited and the nodes processed so far. -/
def Loop.search (σ : Loop W) (log : List String) : Front String := ⟨σ.queue, {x | x ∈ σ.visited}, log⟩

theorem seen_visited (h : σ'.visited = insertId σ.visited x) : {y | y ∈ σ'.visited} = insert x {y | y ∈ σ.visited} := by
  ext y
  rw [h]
  simp only [Set.mem_ofPred_eq, Set.mem_insert_iff, mem_insertId]
  exact or_comm

/-- **One turn** is a step of the search, or ends the run with a failed action. -/
theorem steady_turn (hc : Compiled doc plan) (hstraight : Straight plan) (hsteady : Undisturbed env plan ctx)
    (hd : deadlineOf plan ctx = .ok deadline) (hcontext : σ.context = ctx) (hq : σ.queue = x :: rest)
    (hs : ∀ node, plan.nodes.lookup x = some node → Smooth plan ctx x node) (log : List String) :
    (∃ σ', turn env plan deadline σ = .more σ' ∧ σ'.context = ctx ∧
      Front.Advance (enabledNext plan (scopeOf ctx)) (fun y => (plan.nodes.lookup y).isSome = true) (σ.search log)
        (σ'.search (log ++ (taken env plan deadline σ).toList))) ∨
      FailsAction env plan ctx x (turn env plan deadline σ) := by
  have halive := hsteady.alive σ.context σ.world
  have htimely := hsteady.timely deadline hd (env.killed σ.context σ.world).2
  have htaken : taken env plan deadline σ = if x ∈ σ.visited ∧ plan.typeOf x ≠ some .loop then none
      else if (plan.nodes.lookup x).isNone then none else some x := by
    unfold taken
    rw [hq]
    dsimp only
    rw [halive, if_neg Bool.false_ne_true, if_neg (not_lt.mpr htimely)]
  rw [htaken]
  unfold turn
  rw [hq]
  dsimp only
  rw [halive, if_neg Bool.false_ne_true, if_neg (not_lt.mpr htimely)]
  by_cases hskip : x ∈ σ.visited ∧ plan.typeOf x ≠ some .loop
  · rw [if_pos hskip, if_pos hskip]
    refine .inl ⟨_, rfl, hcontext, ?_⟩
    unfold Loop.search
    rw [hq, Option.toList_none, List.append_nil]
    exact .skip hskip.1
  · rw [if_neg hskip, if_neg hskip]
    generalize hσ : ({ σ with queue := rest, world := _, visited := insertId σ.visited x } : Loop W) = σ₁
    have hqueue : σ₁.queue = rest := by rw [← hσ]
    have hvisited : σ₁.visited = insertId σ.visited x := by rw [← hσ]
    have hcontext' : σ₁.context = ctx := by rw [← hσ]; exact hcontext
    cases hl : plan.nodes.lookup x with
    | none =>
      have hnext : enabledNext plan (scopeOf ctx) x = [] := enabledNext_of_ok (by simp only [enabledEdges, hl])
      have hquiet : ¬(plan.nodes.lookup x).isSome = true := by rw [hl]; exact Bool.false_ne_true
      refine .inl ⟨σ₁, by simp only [processNode, hl], hcontext', ?_⟩
      have hnone : (if (none : Option Dict).isNone then none else some x).toList = [] := rfl
      unfold Loop.search
      rw [hq, hqueue, seen_visited hvisited, hnone, List.append_nil]
      simpa only [hnext, List.append_nil] using
        @Front.Advance.expand _ (enabledNext plan (scopeOf ctx)) (fun y => (plan.nodes.lookup y).isSome = true) x rest
          {y | y ∈ σ.visited} log hquiet
    | some node =>
      have hfresh : x ∉ σ.visited := by
        intro hv
        refine hskip ⟨hv, ?_⟩
        rw [typeOf_of_lookup hl]
        exact (hstraight x node hl).2.2
      have hruns : (plan.nodes.lookup x).isSome = true := by rw [hl]; rfl
      rcases processNode_searched hc hstraight hsteady hl (hs node hl) hcontext' hqueue hvisited with
        ⟨σ', hmore, hsearched⟩ | hfails
      · refine .inl ⟨σ', hmore, hsearched.context, ?_⟩
        unfold Loop.search
        rw [hq, hsearched.queue, seen_visited hsearched.visited]
        exact .run hruns hfresh
      · exact .inr hfails

/-! ## Runs -/

theorem runTurns_one (σ : Loop W) : (runTurns env plan deadline 1 σ).loop = (turn env plan deadline σ).loop := by
  rw [runTurns]
  cases turn env plan deadline σ <;> rfl

/-- **A run** of a smooth plan completes, by the weight of the queue. -/
theorem run_covers (hc : Compiled doc plan) (hstraight : Straight plan) (hsteady : Undisturbed env plan ctx)
    (hd : deadlineOf plan ctx = .ok deadline) (hsmooth : AllSmooth plan ctx) {wt : String → ℕ}
    (hwt : ∀ x, ((enabledNext plan (scopeOf ctx) x).map wt).sum < wt x) : ∀ (bound : ℕ) (σ : Loop W) (log : List String),
      (σ.search log).weight wt < bound → σ.context = ctx →
      Front.Sound (enabledNext plan (scopeOf ctx)) (fun y => (plan.nodes.lookup y).isSome = true) plan.entryNodes
        (σ.search log) →
      (plan.stops = false ∨ AllSucceed env plan ctx ∨
        ∀ n, ∀ r ∈ (runTurns env plan deadline n σ).loop.results, r.state ≠ .failed) →
      ∃ n r σ', runTurns env plan deadline n σ = .done r σ' ∧ r.state = .completed ∧
        Front.Sound (enabledNext plan (scopeOf ctx)) (fun y => (plan.nodes.lookup y).isSome = true) plan.entryNodes
          ⟨[], {x | x ∈ σ'.visited}, log ++ trail env plan deadline (taken env plan deadline) n σ⟩ := by
  intro bound
  induction bound with
  | zero => exact fun σ log h => absurd h (Nat.not_lt_zero _)
  | succ bound ih =>
    intro σ log hweight hcontext hsound hnofail
    cases hq : σ.queue with
    | nil =>
      have hdone : turn env plan deadline σ = .done (σ.result .completed []) σ := by simp only [turn, hq]
      have htaken : taken env plan deadline σ = none := by simp only [taken, hq]
      refine ⟨1, σ.result .completed [], σ, by simp only [runTurns, hdone], rfl, ?_⟩
      have hlog : log ++ trail env plan deadline (taken env plan deadline) 1 σ = log := by
        simp only [trail, hdone, htaken, Option.toList_none, List.append_nil]
      rw [hlog, ← hq]
      exact hsound
    | cons x rest =>
      have hreached : Reached plan ctx x := hsound.reached x (.inr (by rw [Loop.search, hq]; exact List.mem_cons_self))
      rcases steady_turn hc hstraight hsteady hd hcontext hq (fun node hl => hsmooth x node hreached hl) log with
        ⟨σ', hmore, hcontext', hadvance⟩ | ⟨hstops, node, w, r, hl, ht, hresult, hr, hfailed⟩
      · have hlighter := hadvance.weight_lt hwt
        have hnofail' : plan.stops = false ∨ AllSucceed env plan ctx ∨
            ∀ n, ∀ r ∈ (runTurns env plan deadline n σ').loop.results, r.state ≠ .failed := by
          refine hnofail.imp_right fun hor => hor.imp_right fun hall n r hr => hall (n + 1) r ?_
          simpa only [runTurns, hmore] using hr
        obtain ⟨n, result, σ'', hrun, hstate, hfinal⟩ :=
          ih σ' _ (by omega) hcontext' (hsound.advance hadvance) hnofail'
        refine ⟨n + 1, result, σ'', by simpa only [runTurns, hmore] using hrun, hstate, ?_⟩
        simpa only [trail, hmore, List.append_assoc] using hfinal
      · -- a failed action ends the run only under the policy that stops
        rcases hnofail with hgo | hsucceed | hall
        · rw [hgo] at hstops
          cases hstops
        · exact absurd hfailed (hsucceed x node hreached hl ht w r hresult)
        · exact absurd hfailed (hall 1 r (by rw [runTurns_one]; exact hr))

/-- What is reached is in the plan. -/
theorem Compiled.lookup_of_reached (hc : Compiled doc plan) {x : String} (h : Reached plan ctx x) :
    (plan.nodes.lookup x).isSome = true := by
  have hknown : x ∈ plan.nodes.map (·.1) := by
    obtain ⟨r, hr, hpath⟩ := h
    rcases ReflTransGen.cases_tail hpath with rfl | ⟨u, -, hu⟩
    · exact (hc.entry.mp hr).1
    · exact (hc.edge_known (hasEdge_of_enabled hc hu)).2
  obtain ⟨⟨x', node⟩, hp, rfl⟩ := List.mem_map.mp hknown
  rw [lookup_of_mem hc.ids_nodup hp]
  rfl

/-- **Coverage** of a plan whose nodes can be processed, by a run of which no action fails or that goes on. -/
theorem covers_of_smooth (hc : Compiled doc plan) (hstraight : Straight plan) (hsteady : Undisturbed env plan ctx)
    (hash : plan.contentHash = ctx.contentHash) (hsmooth : AllSmooth plan ctx) {w : W}
    (hnofail : plan.stops = false ∨ AllSucceed env plan ctx ∨ NoneFails env plan ctx w) : Covered env plan ctx w := by
  obtain ⟨deadline, hd⟩ := hc.deadline ctx
  obtain ⟨wt, hwt⟩ := exists_weight (enabled_acyclic hc (scopeOf ctx))
  have hnofail' : plan.stops = false ∨ AllSucceed env plan ctx ∨
      ∀ n, ∀ r ∈ (runTurns env plan deadline n (startLoop plan ctx none w)).loop.results, r.state ≠ .failed := by
    refine hnofail.imp_right fun hor => hor.imp_right fun hall n r hr => hall n r ?_
    rw [execute_eq hash hd]
    exact hr
  have hstart : (startLoop plan ctx none w).search [] = ⟨plan.entryNodes, ∅, []⟩ := by
    unfold Loop.search
    have hempty : {x | x ∈ (startLoop plan ctx none w).visited} = (∅ : Set String) :=
      Set.eq_empty_of_forall_notMem fun _ => List.not_mem_nil
    rw [hempty]
    rfl
  obtain ⟨n, r, σ, hrun, hstate, hsound⟩ := run_covers hc hstraight hsteady hd hsmooth hwt _ (startLoop plan ctx none w) []
    (Nat.lt_succ_self _) rfl (hstart ▸ Front.sound_start plan.entryNodes) hnofail'
  rw [List.nil_append, ← processed_eq hash hd] at hsound
  refine ⟨n, r, σ, (execute_eq hash hd n).trans hrun, hstate, hsound.once, fun x => ?_⟩
  rw [hsound.finished rfl]
  exact ⟨fun h => h.2, fun h => ⟨hc.lookup_of_reached h, h⟩⟩

/-! ## What a completed run shows -/

/-- A node that is processed does not complete the run. -/
theorem processNode_not_completed {r : ExecutionResult} (h : processNode env plan x σ = .done r σ') :
    r.state ≠ .completed := by
  have hextend : ∀ {σ : Loop W} {next : Except PyError (List String)}, σ.extend next ≠ .done r σ' := by
    intro σ next heq
    cases next <;> cases heq
  unfold processNode at h
  split at h
  · cases h
  · split at h
    · unfold processCondition at h
      split at h
      · cases h
      · exact absurd h hextend
    · unfold processDelay at h
      split at h
      · cases h
      · dsimp only at h
        split at h
        · cases h
        · cases h
          exact fun heq => by cases heq
    · unfold processApproval at h
      dsimp only at h
      split at h
      · cases h
      · cases h
        exact fun heq => by cases heq
    · unfold processLoop at h
      split at h
      · cases h
      · dsimp only at h
        split_ifs at h
        · cases h
          exact fun heq => by cases heq
        · exact absurd h hextend
    · exact absurd h hextend
    · unfold processAction at h
      dsimp only at h
      split at h
      · cases h
      · split_ifs at h
        · cases h
          exact fun heq => by cases heq
        · exact absurd h hextend
    · exact absurd h hextend

/-- A turn that takes a node processes it. -/
theorem turn_of_taken (htaken : taken env plan deadline σ = some x) :
    ∃ σ₀ : Loop W, σ₀.context = σ.context ∧ turn env plan deadline σ = processNode env plan x σ₀ := by
  obtain ⟨⟨rest, hq⟩, hskip, -⟩ := taken_eq_some htaken
  unfold taken at htaken
  unfold turn
  rw [hq] at htaken ⊢
  dsimp only at htaken ⊢
  split_ifs at htaken ⊢ with hkilled hlate
  exact ⟨{ σ with
    queue := rest, visited := insertId σ.visited x, world := (env.utcnow (env.killed σ.context σ.world).2).2 }, rfl, rfl⟩

/-- The context stays what it is. -/
theorem context_of_more (hsteady : Undisturbed env plan ctx) (h : turn env plan deadline σ = .more σ') :
    σ'.context = σ.context := by
  have hloop : (turn env plan deadline σ).loop = σ' := by rw [h]; rfl
  rcases turn_calls env plan deadline σ with hsilent | ⟨y, node, w, hruns⟩
  · rw [← hloop]
    exact hsilent.context
  · rw [← hloop, hruns.context]
    exact runWithRetry_context hsteady.context _ _ _ _

/-- A node that a completed run has processed was processed by a turn after which the run went on. -/
theorem more_of_completed (hsteady : Undisturbed env plan ctx) {r : ExecutionResult} (hstate : r.state = .completed) :
    ∀ (n : ℕ) (σ : Loop W), σ.context = ctx → runTurns env plan deadline n σ = .done r σ' →
      x ∈ trail env plan deadline (taken env plan deadline) n σ →
      ∃ σ₀ σ₁ : Loop W, σ₀.context = ctx ∧ processNode env plan x σ₀ = .more σ₁ := by
  intro n
  induction n with
  | zero => exact fun σ _ h => by cases h
  | succ n ih =>
    intro σ hcontext hrun hx
    rw [trail] at hx
    rw [runTurns] at hrun
    rcases List.mem_append.mp hx with hx | hx
    · have htaken := Option.mem_toList.mp hx
      obtain ⟨σ₀, hsame, hturn⟩ := turn_of_taken htaken
      rw [hturn] at hrun
      cases hnode : processNode env plan x σ₀ with
      | more σ₁ => exact ⟨σ₀, σ₁, hsame.trans hcontext, hnode⟩
      | done r' σ₁ =>
        rw [hnode] at hrun
        obtain ⟨rfl, -⟩ := Turn.done.inj hrun
        exact absurd hstate (processNode_not_completed hnode)
      | raised e σ₁ =>
        rw [hnode] at hrun
        cases hrun
    · split at hx
      · next σ₁ hmore =>
        rw [hmore] at hrun
        exact ih σ₁ ((context_of_more hsteady hmore).trans hcontext) hrun hx
      · cases hx

/-- An action after which the run goes on has a result, and its edges evaluate. -/
theorem processAction_more_result (h : processAction env plan x node σ = .more σ') :
    (∃ result, (runWithRetry env plan.globalPolicy node σ.context σ.world).result = .ok result) ∧
      ∃ w next, nextNodes plan x (env.reread (scopeOf σ.context) w) none = .ok next := by
  unfold processAction at h
  dsimp only at h
  split at h
  · cases h
  · next result hresult =>
    split_ifs at h
    obtain ⟨next, hnext, -⟩ := extend_eq_more.mp h
    exact ⟨⟨result, hresult⟩, _, next, hnext⟩

/-- What a processed node shows of its condition, its edges and its attempts. -/
theorem shown_of_more (hc : Compiled doc plan) (hstraight : Straight plan) (hsteady : Undisturbed env plan ctx)
    (hl : plan.nodes.lookup x = some node) (hcontext : σ.context = ctx) (h : processNode env plan x σ = .more σ') :
    (∃ next, enabledEdges plan (scopeOf ctx) x = .ok next) ∧
      (NodeType.ofJson? (node.get "type") = some .action →
        ∃ w result, (runWithRetry env plan.globalPolicy node ctx w).result = .ok result) := by
  obtain ⟨-, t, hok⟩ := hc.node hl
  have ht := hok.type_eq
  obtain ⟨hdelay, happroval, hloop⟩ := hstraight x node hl
  have hpasses := passes_of_more hc hl (fun hx => absurd ((typeOf_of_lookup hl).symm.trans hx) hloop) h
  rw [hcontext] at hpasses
  unfold Passes at hpasses
  rw [ht] at hpasses hdelay happroval hloop ⊢
  cases t with
  | delay => exact absurd rfl hdelay
  | approval => exact absurd rfl happroval
  | loop => exact absurd rfl hloop
  | condition => exact ⟨hpasses, fun heq => by cases heq⟩
  | parallel => exact ⟨hpasses, fun heq => by cases heq⟩
  | subworkflow => exact ⟨hpasses, fun heq => by cases heq⟩
  | action =>
    simp only [processNode, hl, ht] at h
    obtain ⟨⟨result, hresult⟩, w, next, hnext⟩ := processAction_more_result h
    simp only [Loop.enter, hcontext, hsteady.reread] at hresult hnext
    exact ⟨⟨next, enabledEdges_of_next hl (enabledBranch_none (by rw [ht]; decide)) hnext⟩,
      fun _ => ⟨σ.world, result, hresult⟩⟩

end Turns

/-! ## Necessity -/

/-- In every undisturbed environment in which all actions succeed, or the policy does not stop, the run covers the plan. -/
def Covers (plan : Plan) (ctx : ExecutionContext) : Prop :=
  ∀ (W : Type) (env : Env W) (w : W), Undisturbed env plan ctx → plan.stops = false ∨ AllSucceed env plan ctx →
    Covered env plan ctx w

/-- The policy stops, and an action that is reached has no attempt: it succeeds in no environment. -/
def Hopeless (plan : Plan) (ctx : ExecutionContext) : Prop :=
  plan.stops = true ∧ ∃ x node n, Reached plan ctx x ∧ plan.nodes.lookup x = some node ∧
    NodeType.ofJson? (node.get "type") = some .action ∧ maxAttempts plan.globalPolicy node = .ok n ∧ n < 1

/-- The runner fails under some keys and returns under the others. -/
def failingOn (fails : String → Bool) (now : Instant) : Env Unit where
  runAction _ _ ctx key w :=
    (if fails key then .raised .other "RuntimeError" "unavailable" else .returned [], ctx, w)
  reread scope _ := scope
  killCheck := none
  persistNode := none
  utcnow w := (now, w)
  isoformat _ := ""

section Necessity

variable {plan : Plan} {ctx : ExecutionContext} {node doc : Dict} {deadline : Instant} {x : String}
  {fails : String → Bool}

theorem undisturbed_failingOn (hd : deadlineOf plan ctx = .ok deadline) :
    Undisturbed (failingOn fails deadline) plan ctx where
  context _ _ _ _ _ := rfl
  reread _ _ := rfl
  handled _ _ _ key _ := by
    show (if fails key then _ else _ : ActionOutcome) ≠ .killed
    split_ifs <;> exact fun h => by cases h
  alive _ _ := rfl
  timely deadline' hd' _ := by
    obtain rfl := Except.ok.inj (hd.symm.trans hd')
    exact le_rfl

/-- An action with an attempt whose first key does not fail. -/
theorem failingOn_succeeds {n : ℤ} (hn : maxAttempts plan.globalPolicy node = .ok n) (hpos : 1 ≤ n)
    (hfine : fails (actionIdempotencyKey ctx.executionId (node.get "id").text 1) = false) {w : Unit}
    {result : NodeResult}
    (h : (runWithRetry (failingOn fails deadline) plan.globalPolicy node ctx w).result = .ok result) :
    result.state ≠ .failed := by
  obtain ⟨result', hresult', -, -, hstate⟩ :=
    @runWithRetry_first Unit (failingOn fails deadline) node plan.globalPolicy n hn hpos ctx w
      ⟨[], w, by simp only [failingOn, hfine, Bool.false_eq_true, if_false]⟩
  obtain rfl := Except.ok.inj (hresult'.symm.trans h)
  exact hstate.1

theorem Compiled.nodeId (hc : Compiled doc plan) (hl : plan.nodes.lookup x = some node) :
    (Dict.get node "id").text = x := by
  rw [(hc.node hl).1.2]
  rfl

/-- All actions succeed whose keys do not fail, where each has an attempt. -/
theorem allSucceed_failingOn (hc : Compiled doc plan) (hhope : ¬Hopeless plan ctx) (hstops : plan.stops = true)
    (hfine : ∀ y node, plan.nodes.lookup y = some node → NodeType.ofJson? (node.get "type") = some .action →
      fails (actionIdempotencyKey ctx.executionId y 1) = false ∨
        ∀ w, ¬Yields (runWithRetry (failingOn fails deadline) plan.globalPolicy node ctx w).result fun _ => True) :
    AllSucceed (failingOn fails deadline) plan ctx := by
  intro y node hreached hl ht w result hresult
  rcases hfine y node hl ht with hfine | hraises
  · cases hn : maxAttempts plan.globalPolicy node with
    | error e =>
      simp only [runWithRetry, hn] at hresult
      cases hresult
    | ok n =>
      have hpos : 1 ≤ n := by
        by_contra hnone
        exact hhope ⟨hstops, y, node, n, hreached, hl, ht, hn, by omega⟩
      exact failingOn_succeeds hn hpos (by rw [hc.nodeId hl]; exact hfine) hresult
  · exact absurd ⟨result, hresult, trivial⟩ (hraises w)

/-- A reached node of a plan that is covered was passed in such an environment. -/
theorem passed_of_covers (hc : Compiled doc plan) (hstraight : Straight plan) (hcovers : Covers plan ctx)
    (hd : deadlineOf plan ctx = .ok deadline)
    (hsucceed : plan.stops = false ∨ AllSucceed (failingOn fails deadline) plan ctx) :
    plan.contentHash = ctx.contentHash ∧ ∀ x node, Reached plan ctx x → plan.nodes.lookup x = some node →
      (∃ next, enabledEdges plan (scopeOf ctx) x = .ok next) ∧
        (NodeType.ofJson? (node.get "type") = some .action →
          ∃ w result, (runWithRetry (failingOn fails deadline) plan.globalPolicy node ctx w).result = .ok result) := by
  obtain ⟨n, r, σ, hrun, hstate, -, hmem⟩ := hcovers Unit _ () (undisturbed_failingOn hd) hsucceed
  have hash : plan.contentHash = ctx.contentHash := by
    by_contra hash
    unfold execute at hrun
    dsimp only at hrun
    rw [if_pos hash] at hrun
    cases hrun
  refine ⟨hash, fun x node hx hl => ?_⟩
  rw [execute_eq hash hd] at hrun
  have hprocessed := (hmem x).mpr hx
  rw [processed_eq hash hd] at hprocessed
  obtain ⟨σ₀, σ₁, hcontext, hmore⟩ :=
    more_of_completed (undisturbed_failingOn hd) hstate n (startLoop plan ctx none ()) rfl hrun hprocessed
  exact shown_of_more hc hstraight (undisturbed_failingOn hd) hl hcontext hmore

/-- An action all of whose attempts fail overflows the delay, if its attempts go that far. -/
theorem failingOn_overflows {spec : ActionSpec} (ha : actionCatalog.lookup (node.get "action").text = some spec) {n : ℤ}
    (hn : maxAttempts plan.globalPolicy node = .ok n) (hdry : ctx.dryRun = false) {limit : ℤ}
    (hlimit : backoffLimit plan.globalPolicy = some limit) (hlt : limit < n)
    (hfails : ∀ k, fails (actionIdempotencyKey ctx.executionId (node.get "id").text k) = true) (w : Unit) :
    ¬Yields (runWithRetry (failingOn fails deadline) plan.globalPolicy node ctx w).result fun _ => True := by
  have hpos := backoffLimit_pos hlimit
  unfold runWithRetry
  simp only [hn]
  refine attemptLoop_overflows (effectiveClass_transient ha) hlimit hlt hdry (fun k w => ?_) _ _ _ _ hpos (by omega)
  refine ⟨"RuntimeError", "unavailable", w, ?_⟩
  simp only [failingOn, hfails k, if_true]

open Classical in
/-- **Necessity**: a plan that is covered can be processed. -/
theorem smooth_of_covers (hc : Compiled doc plan) (hstraight : Straight plan) (hcovers : Covers plan ctx)
    (hhope : ¬Hopeless plan ctx) : plan.contentHash = ctx.contentHash ∧ AllSmooth plan ctx := by
  obtain ⟨deadline, hd⟩ := hc.deadline ctx
  have hcalm : plan.stops = false ∨ AllSucceed (failingOn (fun _ => false) deadline) plan ctx := by
    cases hstops : plan.stops with
    | false => exact .inl rfl
    | true => exact .inr (allSucceed_failingOn hc hhope hstops fun _ _ _ _ => .inl rfl)
  obtain ⟨hash, hshown⟩ := passed_of_covers hc hstraight hcovers hd hcalm
  refine ⟨hash, fun x node hx hl => ?_⟩
  obtain ⟨hevaluates, hresult⟩ := hshown x node hx hl
  refine ⟨hevaluates, fun ht => ?_⟩
  obtain ⟨w, result, hresult⟩ := hresult ht
  cases hn : maxAttempts plan.globalPolicy node with
  | error e =>
    simp only [runWithRetry, hn] at hresult
    cases hresult
  | ok n =>
    refine ⟨n, rfl, fun hdry limit hlimit => ?_⟩
    by_contra hlt
    rw [not_le] at hlt
    obtain ⟨spec, ha⟩ := hc.action hl ht
    -- the runner fails under the keys of this node, and under no other
    let fails : String → Bool := fun key => decide (∃ k, key = actionIdempotencyKey ctx.executionId x k)
    have hraises : ∀ w, ¬Yields (runWithRetry (failingOn fails deadline) plan.globalPolicy node ctx w).result
        fun _ => True := by
      refine failingOn_overflows ha hn hdry hlimit hlt fun k => ?_
      rw [hc.nodeId hl]
      exact decide_eq_true ⟨k, rfl⟩
    have hsucceed : plan.stops = false ∨ AllSucceed (failingOn fails deadline) plan ctx := by
      cases hstops : plan.stops with
      | false => exact .inl rfl
      | true =>
        refine .inr (allSucceed_failingOn hc hhope hstops fun y node' hl' _ => ?_)
        by_cases hy : y = x
        · subst hy
          obtain rfl := Option.some.inj (hl.symm.trans hl')
          exact .inr hraises
        · refine .inl (decide_eq_false ?_)
          rintro ⟨k, hkey⟩
          exact hy (actionKey_same hkey).1
    obtain ⟨-, hshown⟩ := passed_of_covers hc hstraight hcovers hd hsucceed
    obtain ⟨w, result, hresult⟩ := (hshown x node hx hl).2 ht
    exact hraises w ⟨result, hresult, trivial⟩

end Necessity

/-! ## Order and priorities -/

/-- An edge without its priority. -/
def withoutPriority : Json → Json
  | .obj edge => .obj (edge.filter fun kv => kv.1 != "priority")
  | edge => edge

/-- Two documents with the same nodes and the same edges up to their order and the priorities. -/
structure Reordered (doc doc' : Dict) : Prop where
  nodes : (documentNodes doc).1.Perm (documentNodes doc').1
  edges : ((documentEdges doc).map withoutPriority).Perm ((documentEdges doc').map withoutPriority)

theorem Reordered.symm {doc doc' : Dict} (h : Reordered doc doc') : Reordered doc' doc := ⟨h.nodes.symm, h.edges.symm⟩

section Following

variable {scope : Dict} {branch : Option Bool} {es : List PlanEdge}

/-- An edge is followed in the scope. -/
def EdgeFollowed (scope : Dict) (branch : Option Bool) (e : PlanEdge) : Prop :=
  labelBlocks branch e.label = false ∧ conditionBlocks scope e.condition = .ok false

/-- An edge is passed over, or its condition evaluates. -/
def EdgeEvaluates (scope : Dict) (branch : Option Bool) (e : PlanEdge) : Prop :=
  labelBlocks branch e.label = true ∨ ∃ b, conditionBlocks scope e.condition = .ok b

/-- The edges are followed if each evaluates, and the targets are those of the edges that nothing blocks. -/
theorem follow_iff : ((∃ next, follow scope branch es = .ok next) ↔ ∀ e ∈ es, EdgeEvaluates scope branch e) ∧
    ∀ next, follow scope branch es = .ok next → ∀ y, y ∈ next ↔ ∃ e ∈ es, EdgeFollowed scope branch e ∧ e.target = y := by
  induction es with
  | nil =>
    refine ⟨⟨fun _ e he => absurd he List.not_mem_nil, fun _ => ⟨[], rfl⟩⟩, fun next h y => ?_⟩
    obtain rfl := Except.ok.inj h
    simp
  | cons e es ih =>
    obtain ⟨ihok, ihmem⟩ := ih
    unfold EdgeEvaluates EdgeFollowed at *
    simp only [List.forall_mem_cons, List.exists_mem_cons_iff, follow]
    cases hlabel : labelBlocks branch e.label with
    | true => simpa only [if_true, true_or, true_and, Bool.true_eq_false, false_and, false_or] using ⟨ihok, ihmem⟩
    | false =>
      simp only [Bool.false_eq_true, if_false, false_or, true_and]
      cases hcond : conditionBlocks scope e.condition with
      | error err =>
        refine ⟨⟨?_, ?_⟩, ?_⟩
        · rintro ⟨next, h⟩
          cases h
        · rintro ⟨⟨b, hb⟩, -⟩
          cases hb
        · exact fun next h => by cases h
      | ok blocked =>
        cases blocked with
        | true =>
          simp only [bind, Except.bind, if_true, Except.ok.injEq, exists_eq', true_and, Bool.true_eq_false, false_and,
            false_or]
          exact ⟨ihok, ihmem⟩
        | false =>
          simp only [bind, Except.bind, Bool.false_eq_true, if_false, Except.ok.injEq, exists_eq', true_and]
          cases hrest : follow scope branch es with
          | error err =>
            rw [hrest] at ihok
            refine ⟨⟨?_, fun h => ?_⟩, fun next h => by cases h⟩
            · rintro ⟨next, h⟩
              cases h
            · obtain ⟨next, hnext⟩ := ihok.mpr h
              cases hnext
          | ok more =>
            rw [hrest] at ihok
            refine ⟨⟨fun _ => ihok.mp ⟨more, rfl⟩, fun _ => ⟨_, rfl⟩⟩, fun next h y => ?_⟩
            obtain rfl := Except.ok.inj h
            rw [List.mem_cons, ihmem more hrest y]
            exact or_congr_left eq_comm

/-- Edges with the same targets, labels and conditions are followed alike. -/
theorem follow_congr {es' : List PlanEdge}
    (hsub : ∀ e ∈ es, ∃ e' ∈ es', e'.target = e.target ∧ e'.condition = e.condition ∧ e'.label = e.label)
    (hsub' : ∀ e' ∈ es', ∃ e ∈ es, e.target = e'.target ∧ e.condition = e'.condition ∧ e.label = e'.label)
    {next : List String} (h : follow scope branch es = .ok next) :
    ∃ next', follow scope branch es' = .ok next' ∧ ∀ y, y ∈ next → y ∈ next' := by
  have hevaluates := follow_iff.1.mp ⟨next, h⟩
  obtain ⟨next', hnext'⟩ := follow_iff.1.mpr fun e' he' => by
    obtain ⟨e, he, -, hcond, hlabel⟩ := hsub' e' he'
    have hthis := hevaluates e he
    unfold EdgeEvaluates at hthis ⊢
    rwa [← hlabel, ← hcond]
  refine ⟨next', hnext', fun y hy => ?_⟩
  obtain ⟨e, he, hfollows, rfl⟩ := (follow_iff.2 next h y).mp hy
  obtain ⟨e', he', htarget, hcond, hlabel⟩ := hsub e he
  refine (follow_iff.2 next' hnext' _).mpr ⟨e', he', ?_, htarget⟩
  unfold EdgeFollowed at hfollows ⊢
  rwa [hlabel, hcond]

end Following

section Documents

variable {py py' : Interpreter} {doc doc' : Dict} {plan plan' : Plan} {ctx : ExecutionContext}

theorem get_withoutPriority (edge : Dict) {key : String} (hkey : (key != "priority") = true) :
    Dict.get (edge.filter fun kv => kv.1 != "priority") key = edge.get key := by
  unfold Dict.get
  rw [lookup_filter_key (fun k => k != "priority") hkey]

/-- The ends, the condition and the label of an edge of the plan are those of the edge without its priority. -/
theorem planEdge_of_withoutPriority {j : Json} {x : String} {e : PlanEdge} (h : planEdge j = .ok (x, e)) :
    ∃ edge, withoutPriority j = .obj edge ∧ x = (Dict.get edge "source").text ∧
      e.target = (Dict.get edge "target").text ∧ e.condition = Dict.get edge "condition" ∧
      e.label = Dict.get edge "label" := by
  cases j with
  | obj edge =>
    have hends := planEdge_ok h
    obtain ⟨hsource, htarget⟩ := Prod.mk.inj (Except.ok.inj hends)
    obtain ⟨hcond, hlabel⟩ := planEdge_fields h
    refine ⟨_, rfl, ?_, ?_, ?_, ?_⟩
    · rw [get_withoutPriority edge (by decide)]
      exact hsource.symm
    · rw [get_withoutPriority edge (by decide)]
      exact htarget.symm
    · rw [get_withoutPriority edge (by decide)]
      exact hcond
    · rw [get_withoutPriority edge (by decide)]
      exact hlabel
  | _ => exact absurd (planEdge_ok h) (fun heq => by cases heq)

/-- The edges of a plan are those of the plan of a reordered document, up to the priorities. -/
theorem edges_of_reordered (h : compileWorkflow py doc = .ok plan)
    (h' : compileWorkflow py' doc' = .ok plan') (hr : Reordered doc doc') {x : String} {e : PlanEdge}
    (he : e ∈ plan.edgesFrom x) :
    ∃ e' ∈ plan'.edgesFrom x, e'.target = e.target ∧ e'.condition = e.condition ∧ e'.label = e.label := by
  obtain ⟨j, hj, hje⟩ := (mem_edgesFrom h).mp he
  obtain ⟨edge, hedge, rfl, htarget, hcond, hlabel⟩ := planEdge_of_withoutPriority hje
  obtain ⟨j', hj', hsame⟩ := List.mem_map.mp (hr.edges.mem_iff.mp (List.mem_map_of_mem hj))
  obtain ⟨-, -, edges, hedges, -⟩ := compileWorkflow_parts h'
  obtain ⟨⟨x', e'⟩, -, hje'⟩ := mem_of_forall₂_left (mapM_eq_ok hedges) hj'
  obtain ⟨edge', hedge', hx', htarget', hcond', hlabel'⟩ := planEdge_of_withoutPriority hje'
  obtain rfl := Json.obj.inj (hedge.symm.trans (hsame.symm.trans hedge'))
  subst hx'
  exact ⟨e', (mem_edgesFrom h').mpr ⟨j', hj', hje'⟩, htarget'.trans htarget.symm, hcond'.trans hcond.symm,
    hlabel'.trans hlabel.symm⟩

theorem lookup_of_reordered (hc : Compiled doc plan) (hc' : Compiled doc' plan') (hr : Reordered doc doc') {x : String}
    {node : Dict} (hl : plan.nodes.lookup x = some node) : plan'.nodes.lookup x = some node := by
  obtain ⟨hmem, hid⟩ := (hc.node hl).1
  exact hc'.lookup_of_hasNode ⟨hr.nodes.mem_iff.mp hmem, hid⟩

theorem enabledNext_of_reordered (h : compileWorkflow py doc = .ok plan)
    (h' : compileWorkflow py' doc' = .ok plan') (hr : Reordered doc doc') {scope : Dict} {x y : String}
    (hy : y ∈ enabledNext plan scope x) : y ∈ enabledNext plan' scope x := by
  unfold enabledNext at hy
  split at hy
  · next next hnext =>
    unfold enabledEdges at hnext
    split at hnext
    · obtain rfl := Except.ok.inj hnext
      cases hy
    · next node hl =>
      obtain ⟨branch, hbranch, hnext⟩ := bind_eq_ok.mp hnext
      obtain ⟨next', hnext', hsub⟩ := follow_congr (fun e he => edges_of_reordered h h' hr he)
        (fun e he => edges_of_reordered h' h hr.symm he) hnext
      have hl' := lookup_of_reordered (compileWorkflow_ok h) (compileWorkflow_ok h') hr hl
      rw [enabledNext_of_ok (enabledEdges_of_next hl' hbranch hnext')]
      exact hsub y hy
  · cases hy

/-- A root of one is a root of the other. -/
theorem entry_of_reordered (h : compileWorkflow py doc = .ok plan)
    (h' : compileWorkflow py' doc' = .ok plan') (hr : Reordered doc doc') {x : String}
    (hx : x ∈ plan.entryNodes) : x ∈ plan'.entryNodes := by
  have hc := compileWorkflow_ok h
  have hc' := compileWorkflow_ok h'
  obtain ⟨hknown, hroot⟩ := hc.entry.mp hx
  obtain ⟨⟨x', node⟩, hp, rfl⟩ := List.mem_map.mp hknown
  have hl' := lookup_of_reordered hc hc' hr (lookup_of_mem hc.ids_nodup hp)
  refine hc'.entry.mpr ⟨List.mem_map_of_mem (mem_of_lookup hl'), fun u hu => ?_⟩
  obtain ⟨e', he', htarget'⟩ := hc'.edge.mpr hu
  obtain ⟨e, he, htarget, -, -⟩ := edges_of_reordered h' h hr.symm he'
  exact hroot u (hc.edge.mp ⟨e, he, htarget.trans htarget'⟩)

theorem reached_of_reordered (h : compileWorkflow py doc = .ok plan)
    (h' : compileWorkflow py' doc' = .ok plan') (hr : Reordered doc doc') {x : String}
    (hx : Reached plan ctx x) : Reached plan' ctx x := by
  obtain ⟨r, hr', hpath⟩ := hx
  refine ⟨r, entry_of_reordered h h' hr hr', ?_⟩
  induction hpath with
  | refl => exact .refl
  | tail _ hstep ih => exact ih.tail (enabledNext_of_reordered h h' hr hstep)

end Documents

section Theorem

variable {py : Interpreter} {doc : Dict} {plan : Plan}

/-- A plan that raises in no scope can be processed in every one. -/
theorem PlanFree.allSmooth (hf : PlanFree plan) (hc : Compiled doc plan) (ctx : ExecutionContext) :
    AllSmooth plan ctx := by
  intro x node _ hl
  refine ⟨?_, fun ht => ?_⟩
  · obtain ⟨branch, hbranch⟩ : ∃ branch, enabledBranch (scopeOf ctx) node = .ok branch := by
      by_cases ht : NodeType.ofJson? (node.get "type") = some .condition
      · obtain ⟨passed, hpassed, -⟩ := crashFree_iff.mpr (hf.conditions x node hl ht) (scopeOf ctx)
        refine ⟨some passed, ?_⟩
        simp only [enabledBranch, ht, hpassed]
        rfl
      · exact ⟨none, enabledBranch_none ht⟩
    obtain ⟨next, hnext, -⟩ := hf.nextNodes x (scopeOf ctx) branch
    exact ⟨next, enabledEdges_of_next hl hbranch hnext⟩
  · obtain ⟨v, hv⟩ := hc.retryAttempts
    obtain ⟨retries, hretries, hbelow⟩ := hf.retries x node hl ht
    refine ⟨retries + 1, ?_, fun _ limit hlimit => hbelow limit hlimit⟩
    rw [maxAttempts_eq hv, hretries]
    rfl

/-- **Coverage.**  A plan without delays, approvals and loops is covered in a scope if and only if every node that is
reached can be processed there, or no environment lets all of its actions succeed; then every run covers it that goes
on or in which no action fails.  What is reached is that of every reordered document. -/
theorem traversal_covers_iff (h : compileWorkflow py doc = .ok plan) (hstraight : Straight plan)
    (ctx : ExecutionContext) :
    (Covers plan ctx ↔ Hopeless plan ctx ∨ plan.contentHash = ctx.contentHash ∧ AllSmooth plan ctx) ∧
      (plan.contentHash = ctx.contentHash → AllSmooth plan ctx → ∀ (W : Type) (env : Env W) (w : W),
        Undisturbed env plan ctx → plan.stops = false ∨ NoneFails env plan ctx w → Covered env plan ctx w) ∧
      ∀ py' doc' plan', compileWorkflow py' doc' = .ok plan' → Reordered doc doc' →
        ∀ x, Reached plan ctx x ↔ Reached plan' ctx x := by
  have hc := compileWorkflow_ok h
  refine ⟨⟨fun hcovers => ?_, ?_⟩, ?_, ?_⟩
  · by_cases hhope : Hopeless plan ctx
    · exact .inl hhope
    · exact .inr (smooth_of_covers hc hstraight hcovers hhope)
  · rintro (⟨hstops, x, node, n, hx, hl, ht, hn, hnone⟩ | ⟨hash, hsmooth⟩) W env w hsteady hsucceed
    · -- such an action fails without a call
      exfalso
      rcases hsucceed with hgo | hsucceed
      · rw [hgo] at hstops
        cases hstops
      · have hzero : n.toNat = 0 := by omega
        have hresult : (runWithRetry env plan.globalPolicy node ctx w).result =
            .ok ⟨(node.get "id").text, .failed, n, [], [("message", .str "exhausted")], "", none⟩ := by
          simp only [runWithRetry, hn, hzero]
          rfl
        exact hsucceed x node hx hl ht w _ hresult rfl
    · exact covers_of_smooth hc hstraight hsteady hash hsmooth (hsucceed.imp_right .inl)
  · exact fun hash hsmooth W env w hsteady hnofail =>
      covers_of_smooth hc hstraight hsteady hash hsmooth (hnofail.imp_right .inr)
  · exact fun _ doc' plan' h' hr x => ⟨reached_of_reordered h h' hr, reached_of_reordered h' h hr.symm⟩

theorem straight_amountCheck {plan : Plan}
    (h : compileWorkflow py (amountCheck [largeAmount]) = .ok plan) : Straight plan := by
  intro x node hl
  obtain ⟨hmem, -⟩ := ((compileWorkflow_ok h).node hl).1
  rcases List.mem_cons.mp hmem with hmem | hmem
  · obtain rfl := Json.obj.inj hmem
    decide
  · obtain rfl := Json.obj.inj (List.mem_singleton.mp hmem)
    decide

/-- A condition with a child that evaluates, in front of a note: the plan is covered in the scope of the sample. -/
theorem amountCheck_covered : ∃ plan, compileWorkflow plainInterpreter (amountCheck [largeAmount]) = .ok plan ∧
    Covers plan sampleContext := by
  have hok : (compileWorkflow plainInterpreter (amountCheck [largeAmount])).toOption.isSome = true := by
    decide +kernel
  have hhash : (compileWorkflow plainInterpreter (amountCheck [largeAmount])).toOption.map (·.contentHash) =
      some "hash" := by decide +kernel
  have h := eq_ok_get hok
  have hash : ((compileWorkflow plainInterpreter (amountCheck [largeAmount])).toOption.get hok).contentHash = "hash" := by
    rw [h] at hhash
    exact Option.some.inj hhash
  refine ⟨_, h, (traversal_covers_iff h (straight_amountCheck h) sampleContext).1.mpr (.inr ⟨hash, ?_⟩)⟩
  exact ((planFree_iff h).mpr amountCheck_free).allSmooth (compileWorkflow_ok h) sampleContext

/-- A condition node whose condition has a text for a child. -/
def textChild : Dict :=
  [("name", .str "Large deal"), ("trigger", .obj [("type", .str "manual")]),
    ("nodes", .arr [.obj [("id", .str "large"), ("type", .str "condition"),
      ("condition", .obj [("operator", .str "and"), ("conditions", .arr [.str "amount"])])]]),
    ("edges", .arr [])]

/-- A run that raises in its first turn never returns. -/
theorem not_done_of_raised {env : Env W} {ctx : ExecutionContext} {w : W} {e : EngineError}
    (h : (execute env plan 1 ctx none w).error? = some e) (n : ℕ) (r : ExecutionResult) (σ : Loop W) :
    execute env plan n ctx none w ≠ .done r σ := by
  unfold execute at h ⊢
  dsimp only at h ⊢
  split_ifs at h ⊢
  · exact fun heq => by cases heq
  · split at h
    · exact fun heq => by cases heq
    · next deadline hd =>
      cases n with
      | zero => exact fun heq => by cases heq
      | succ n =>
        rw [runTurns] at h ⊢
        cases hturn : turn env plan deadline (startLoop plan ctx none w) with
        | more σ' =>
          rw [hturn] at h
          cases h
        | done r' σ' =>
          rw [hturn] at h
          cases h
        | raised e' σ' => exact fun heq => by cases heq

/-- The validator accepts it, and the run of the entry node raises in place of completing. -/
theorem textChild_not_covered : ∃ plan, compileWorkflow plainInterpreter textChild = .ok plan ∧ Straight plan ∧
    plan.contentHash = sampleContext.contentHash ∧
    (execute calmEnv plan 1 sampleContext none ()).error? = some (.raised .attributeError) ∧
    ¬Covers plan sampleContext := by
  have hrun : (compileWorkflow plainInterpreter textChild).toOption.map (fun plan =>
      (plan.contentHash, deadlineOf plan sampleContext, (execute calmEnv plan 1 sampleContext none ()).error?)) =
        some ("hash", .ok 3600000000, some (.raised .attributeError)) := by decide +kernel
  obtain ⟨plan, hplan, heq⟩ := Option.map_eq_some_iff.mp hrun
  have h := eq_ok_of_toOption hplan
  obtain ⟨hash, hrest⟩ := Prod.mk.inj heq
  obtain ⟨hdeadline, hraised⟩ := Prod.mk.inj hrest
  have hnode : ∀ x node, plan.nodes.lookup x = some node →
      NodeType.ofJson? (node.get "type") = some .condition := by
    intro x node hl
    obtain ⟨hmem, -⟩ := ((compileWorkflow_ok h).node hl).1
    obtain rfl := Json.obj.inj (List.mem_singleton.mp hmem)
    decide
  refine ⟨plan, h, fun x node hl => ?_, hash, hraised, fun hcovers => ?_⟩
  · rw [hnode x node hl]
    decide
  · have hsteady : Undisturbed calmEnv plan sampleContext := by
      refine ⟨fun _ _ _ _ _ => rfl, fun _ _ => rfl, fun _ _ _ _ _ => ActionOutcome.noConfusion,
        fun _ _ => rfl, ?_⟩
      intro deadline hd w
      obtain rfl := Except.ok.inj (hdeadline.symm.trans hd)
      show (0 : ℤ) ≤ 3600000000
      decide
    have hsucceed : AllSucceed calmEnv plan sampleContext := by
      intro x node _ hl ht
      rw [hnode x node hl] at ht
      cases ht
    obtain ⟨n, r, σ, hdone, -⟩ := hcovers Unit calmEnv () hsteady (.inr hsucceed)
    exact not_done_of_raised hraised n r σ hdone

end Theorem

end RevenueOS.Workflows
