import RevenueOS.Workflows.DslFacts
import RevenueOS.Workflows.Executor

/-!
# RevenueOS.Workflows.Gating — approval gating of a run from the entry nodes

The validator accepts a gated action (`requires_approval`) as soon as *some* ancestor is an approval node;
the engine walks forward along *every* path.  `Exposed doc x` says that a run can walk from an entry node to
`x` without meeting a node at which it suspends.

* `turn_effect`: all that one turn of the loop can do to the queue and to the calls, for any environment.
* `gated_of_paths`: if no exposed node is a gated action, no run ever calls the runner for a gated action.
* `diamondRefund_not_gated`: an accepted document with an approval beside the path, whose refund runs unapproved.
-/

namespace RevenueOS.Workflows

open RevenueOS.Py RevenueOS.Lib

/-! ## What a turn can do -/

section Turns

variable {W : Type} {env : Env W} {plan : Plan}

theorem mem_follow {scope : Dict} {branch : Option Bool} {y : String} : ∀ {es : List PlanEdge} {next : List String},
    follow scope branch es = .ok next → y ∈ next → ∃ e ∈ es, e.target = y
  | [], next, h, hy => by
    simp only [follow, Except.ok.injEq] at h
    subst h
    cases hy
  | e :: es, next, h, hy => by
    rw [follow] at h
    split_ifs at h with hl
    · obtain ⟨e', he', rfl⟩ := mem_follow h hy
      exact ⟨e', List.mem_cons_of_mem _ he', rfl⟩
    · obtain ⟨b, -, h⟩ := bind_eq_ok.mp h
      split_ifs at h with hb
      · obtain ⟨e', he', rfl⟩ := mem_follow h hy
        exact ⟨e', List.mem_cons_of_mem _ he', rfl⟩
      · obtain ⟨more, hmore, h⟩ := bind_eq_ok.mp h
        rw [pure_eq_ok] at h
        subst h
        rcases List.mem_cons.mp hy with rfl | hy
        · exact ⟨e, List.mem_cons_self, rfl⟩
        · obtain ⟨e', he', rfl⟩ := mem_follow hmore hy
          exact ⟨e', List.mem_cons_of_mem _ he', rfl⟩

theorem attemptLoop_calls (policy : Dict) (action nodeId : String) (inputs : Json) (top : ℤ) :
    ∀ (left : ℕ) (attempt : ℤ) (ctx : ExecutionContext) (w : W) (calls : List ActionCall),
      ∃ new, (attemptLoop env policy action nodeId inputs top left attempt ctx w calls).calls = calls ++ new ∧
        ∀ c ∈ new, c.action = action
  | 0, _, _, _, calls => ⟨[], by simp [attemptLoop]⟩
  | left + 1, attempt, ctx, w, calls => by
    rw [attemptLoop]
    by_cases hd : ctx.dryRun = true
    · exact ⟨[], by simp [hd]⟩
    simp only [hd, Bool.false_eq_true, if_false]
    set key := actionIdempotencyKey ctx.executionId nodeId attempt
    set cw := env.runAction action inputs ctx key w
    cases ho : cw.1 with
    | raised kind typeName message =>
      simp only
      split_ifs with hr hraise
      · exact ⟨[⟨nodeId, action, inputs, key⟩], rfl, by simp⟩
      · obtain ⟨new, hnew, hall⟩ := attemptLoop_calls policy action nodeId inputs top left (attempt + 1) cw.2.1
          cw.2.2 (calls ++ [⟨nodeId, action, inputs, key⟩])
        refine ⟨⟨nodeId, action, inputs, key⟩ :: new, by rw [hnew, List.append_assoc]; rfl, ?_⟩
        intro c hc
        rcases List.mem_cons.mp hc with rfl | hc
        · rfl
        · exact hall c hc
      · exact ⟨[⟨nodeId, action, inputs, key⟩], rfl, by simp⟩
    | _ => exact ⟨[⟨nodeId, action, inputs, key⟩], rfl, by simp⟩

theorem runWithRetry_calls (policy node : Dict) (ctx : ExecutionContext) (w : W) :
    ∀ c ∈ (runWithRetry env policy node ctx w).calls, c.action = (node.get "action").text := by
  unfold runWithRetry
  split
  · simp
  · rename_i n _
    obtain ⟨new, hnew, hall⟩ := @attemptLoop_calls W env policy (node.get "action").text (node.get "id").text
      (node.getD "inputs" (.obj [])) n n.toNat 1 ctx w []
    rw [hnew]
    simpa using hall

/-- The run suspends at this node. -/
def Suspends (node : Dict) : Prop :=
  NodeType.ofJson? (node.get "type") = some .approval ∨ NodeType.ofJson? (node.get "type") = some .delay

/-- What one turn does to the queue and to the calls. -/
inductive Effect (plan : Plan) (σ σ' : Loop W) : Prop
  | idle (queue : σ'.queue ⊆ σ.queue) (calls : σ'.calls = σ.calls)
  | node (x : String) (node : Dict) (mem : x ∈ σ.queue) (lookup : plan.nodes.lookup x = some node)
      (passes : ¬ Suspends node)
      (queue : ∀ y ∈ σ'.queue, y ∈ σ.queue ∨ ∃ e ∈ plan.edgesFrom x, e.target = y)
      (calls : ∀ c ∈ σ'.calls, c ∈ σ.calls ∨
        NodeType.ofJson? (node.get "type") = some .action ∧ c.action = (node.get "action").text)

theorem mem_extend {σ : Loop W} {x y : String} {scope : Dict} {branch : Option Bool}
    (h : y ∈ (σ.extend (nextNodes plan x scope branch)).loop.queue) :
    y ∈ σ.queue ∨ ∃ e ∈ plan.edgesFrom x, e.target = y := by
  cases hn : nextNodes plan x scope branch with
  | error e =>
    rw [hn] at h
    exact Or.inl h
  | ok next =>
    rw [hn] at h
    rcases List.mem_append.mp h with h | h
    · exact Or.inl h
    · exact Or.inr (mem_follow hn h)

theorem calls_extend (σ : Loop W) (next : Except PyError (List String)) :
    (σ.extend next).loop.calls = σ.calls := by
  cases next <;> rfl

section Process

variable {x : String} {node : Dict} {σ₀ σ : Loop W}

theorem processCondition_queue {y : String} (h : y ∈ (processCondition plan x node σ).loop.queue) :
    y ∈ σ.queue ∨ ∃ e ∈ plan.edgesFrom x, e.target = y := by
  unfold processCondition at h
  split at h
  · exact Or.inl h
  · have := mem_extend h
    exact this

theorem processCondition_calls : (processCondition plan x node σ).loop.calls = σ.calls := by
  unfold processCondition
  split
  · rfl
  · exact calls_extend _ _

theorem processDelay_keeps : (processDelay env plan x node σ).loop.queue = σ.queue ∧
    (processDelay env plan x node σ).loop.calls = σ.calls := by
  unfold processDelay
  split
  · exact ⟨rfl, rfl⟩
  · simp only
    split <;> exact ⟨rfl, rfl⟩

theorem processApproval_keeps : (processApproval plan x σ).loop.queue = σ.queue ∧
    (processApproval plan x σ).loop.calls = σ.calls := by
  unfold processApproval
  simp only
  split <;> exact ⟨rfl, rfl⟩

theorem processLoop_queue {y : String} (h : y ∈ (processLoop plan x node σ).loop.queue) :
    y ∈ σ.queue ∨ ∃ e ∈ plan.edgesFrom x, e.target = y := by
  unfold processLoop at h
  split at h
  · exact Or.inl h
  · simp only at h
    split_ifs at h
    · exact Or.inl h
    · exact Or.inl h
    · have := mem_extend h
      exact this

theorem processLoop_calls : (processLoop plan x node σ).loop.calls = σ.calls := by
  unfold processLoop
  split
  · rfl
  · simp only
    split_ifs
    · rfl
    · rfl
    · exact calls_extend _ _

theorem processAction_queue {y : String} (h : y ∈ (processAction env plan x node σ).loop.queue) :
    y ∈ σ.queue ∨ ∃ e ∈ plan.edgesFrom x, e.target = y := by
  unfold processAction at h
  simp only at h
  split at h
  · exact Or.inl h
  · split_ifs at h
    · exact Or.inl h
    · have := mem_extend h
      exact this

theorem processAction_calls {c : ActionCall} (h : c ∈ (processAction env plan x node σ).loop.calls) :
    c ∈ σ.calls ∨ c.action = (node.get "action").text := by
  have key : (processAction env plan x node σ).loop.calls =
      σ.calls ++ (runWithRetry env plan.globalPolicy node σ.context σ.world).calls := by
    unfold processAction
    simp only
    split
    · rfl
    · split_ifs
      · rfl
      · exact calls_extend _ _
  rw [key, List.mem_append] at h
  exact h.imp_right (runWithRetry_calls _ _ _ _ c)

/-- The branches of the loop body, after `x` was taken from the queue of `σ₀`. -/
theorem processNode_effect (hx : x ∈ σ₀.queue) (hq : σ.queue ⊆ σ₀.queue) (hc : σ.calls = σ₀.calls) :
    Effect plan σ₀ (processNode env plan x σ).loop := by
  unfold processNode
  split
  · exact .idle hq hc
  · rename_i node hl
    have ext : ∀ {σ' : Loop W}, ¬ Suspends node →
        (∀ y ∈ σ'.queue, y ∈ σ.queue ∨ ∃ e ∈ plan.edgesFrom x, e.target = y) → σ'.calls = σ.calls →
        Effect plan σ₀ σ' := fun hs hq' hc' =>
      .node x node hx hl hs (fun y hy => (hq' y hy).imp_left (fun h => hq h))
        (fun c hcc => Or.inl (by rwa [hc', hc] at hcc))
    split
    · exact ext (by simp [Suspends, *]) (fun _ => processCondition_queue) processCondition_calls
    · exact .idle (by rw [processDelay_keeps.1]; exact hq) (by rw [processDelay_keeps.2]; exact hc)
    · exact .idle (by rw [processApproval_keeps.1]; exact hq) (by rw [processApproval_keeps.2]; exact hc)
    · exact ext (by simp [Suspends, *]) (fun _ => processLoop_queue) processLoop_calls
    · exact ext (by simp [Suspends, *]) (fun _ => mem_extend) (calls_extend _ _)
    · rename_i ht
      refine .node x node hx hl (by simp [Suspends, ht])
        (fun y hy => (processAction_queue hy).imp_left (fun h => hq h)) (fun c hcc => ?_)
      rw [← hc]
      exact (processAction_calls hcc).imp_right (fun h => ⟨ht, h⟩)
    · rename_i hne1 hne2 hne3 hne4
      refine ext ?_ (fun _ => mem_extend) (calls_extend _ _)
      rintro (h | h)
      · exact absurd h (by assumption)
      · exact absurd h (by assumption)

end Process

/-- One turn, for any environment. -/
theorem turn_effect (deadline : Instant) (σ : Loop W) : Effect plan σ (turn env plan deadline σ).loop := by
  unfold turn
  split
  · exact .idle (fun _ h => h) rfl
  · rename_i x rest hq
    have hrest : rest ⊆ σ.queue := by rw [hq]; exact List.subset_cons_self _ _
    have hx : x ∈ σ.queue := by rw [hq]; exact List.mem_cons_self
    simp only
    split_ifs
    · exact .idle (fun _ h => h) rfl
    · exact .idle (fun _ h => h) rfl
    · exact .idle hrest rfl
    · exact processNode_effect hx hrest rfl

/-- An invariant of the turns is an invariant of every run. -/
theorem runTurns_inv {P : Loop W → Prop} {deadline : Instant}
    (step : ∀ σ, P σ → P (turn env plan deadline σ).loop) :
    ∀ (n : ℕ) (σ : Loop W), P σ → P (runTurns env plan deadline n σ).loop
  | 0, _, h => h
  | n + 1, σ, h => by
    have h1 := step σ h
    rw [runTurns]
    split
    · rename_i σ' ht
      rw [ht] at h1
      exact runTurns_inv step n σ' h1
    · exact h1

theorem execute_inv {P : Loop W → Prop} {ctx : ExecutionContext} {resumeFrom : Option (List String)} {w : W}
    (start : P (startLoop plan ctx resumeFrom w))
    (step : ∀ deadline σ, P σ → P (turn env plan deadline σ).loop) (n : ℕ) :
    P (execute env plan n ctx resumeFrom w).loop := by
  unfold execute
  simp only
  split_ifs
  · exact start
  · split
    · exact start
    · exact runTurns_inv (step _) n _ start

end Turns

/-! ## Exposed nodes -/

/-- A run from the entry nodes can walk to the node without meeting a node at which it suspends. -/
inductive Exposed (doc : Dict) : String → Prop
  | entry {id : String} {node : Dict} (mem : HasNode doc id node) (root : ∀ u, ¬ HasEdge doc u id) :
      Exposed doc id
  | edge {u v : String} {node : Dict} (prior : Exposed doc u) (mem : HasNode doc u node)
      (passes : ¬ Suspends node) (step : HasEdge doc u v) : Exposed doc v

/-- Every path from an entry node to a gated action meets a node at which the run suspends. -/
def PathsGated (doc : Dict) : Prop :=
  ∀ id node, Exposed doc id → HasNode doc id node → NodeType.ofJson? (node.get "type") = some .action →
    requiresApproval (node.get "action").text = false

/-- No run from the entry nodes, in any environment, calls the runner for a gated action. -/
def ApprovalGated (py : Interpreter) (doc : Dict) : Prop :=
  ∀ plan, compileWorkflow py doc = .ok plan →
    ∀ (W : Type) (env : Env W) (ctx : ExecutionContext) (w : W) (n : ℕ),
      ∀ c ∈ (execute env plan n ctx none w).loop.calls, requiresApproval c.action = false

/-- The loop invariant: only exposed nodes are queued, and no gated action was called. -/
structure GateInv (doc : Dict) {W : Type} (σ : Loop W) : Prop where
  queue : ∀ x ∈ σ.queue, Exposed doc x
  calls : ∀ c ∈ σ.calls, requiresApproval c.action = false

theorem GateInv.step {doc : Dict} {plan : Plan} (hc : Compiled doc plan) (hg : PathsGated doc) {W : Type}
    {σ σ' : Loop W} (h : GateInv doc σ) (he : Effect plan σ σ') : GateInv doc σ' := by
  cases he with
  | idle queue calls => exact ⟨fun x hx => h.queue x (queue hx), calls ▸ h.calls⟩
  | node x node mem lookup passes queue calls =>
    obtain ⟨hnode, -⟩ := hc.node lookup
    refine ⟨?_, ?_⟩
    · intro y hy
      rcases queue y hy with hy | hy
      · exact h.queue y hy
      · exact .edge (h.queue x mem) hnode passes (hc.edge.mp hy)
    · intro c hcc
      rcases calls c hcc with hcc | ⟨ht, ha⟩
      · exact h.calls c hcc
      · rw [ha]
        exact hg x node (h.queue x mem) hnode ht

/-- **Gating.**  Where every path is interrupted, no run from the entry nodes reaches a gated action. -/
theorem gated_of_paths (py : Interpreter) (doc : Dict) (hg : PathsGated doc) :
    ApprovalGated py doc := by
  intro plan hplan W env ctx w n
  have hc := compileWorkflow_ok hplan
  have hstart : GateInv doc (startLoop plan ctx none w) := by
    refine ⟨?_, fun c hcc => absurd hcc List.not_mem_nil⟩
    intro x hx
    obtain ⟨hx, hroot⟩ := hc.entry.mp hx
    obtain ⟨⟨x', node⟩, hm, rfl⟩ := List.mem_map.mp hx
    exact .entry (hc.node (lookup_of_mem hc.ids_nodup hm)).1 hroot
  exact (execute_inv hstart (fun _ _ h => h.step hc hg (turn_effect _ _)) n).calls

/-- An approval in front of a refund. -/
def guardedRefund : Dict :=
  [("name", .str "Refund"), ("trigger", .obj [("type", .str "manual")]),
    ("nodes", .arr [
      .obj [("id", .str "approve"), ("type", .str "approval"), ("assignees", .arr [.str "role:finance"])],
      .obj [("id", .str "pay"), ("type", .str "action"), ("action", .str "payment.refund")]]),
    ("edges", .arr [.obj [("source", .str "approve"), ("target", .str "pay")]])]

theorem exposed_guardedRefund {x : String} (h : Exposed guardedRefund x) : x = "approve" := by
  have hedge : ∀ {u v : String}, HasEdge guardedRefund u v ↔ u = "approve" ∧ v = "pay" := by
    intro u v
    have : HasEdge guardedRefund u v ↔
        (.ok ("approve", "pay") : Except PyError (String × String)) = .ok (u, v) := by
      constructor
      · rintro ⟨e, he, hends⟩
        obtain rfl := List.mem_singleton.mp he
        exact hends
      · exact fun hends => ⟨_, List.mem_singleton.mpr rfl, hends⟩
    rw [this]
    simp [eq_comm]
  have hnode : ∀ {id : String} {node : Dict}, HasNode guardedRefund id node →
      (id = "approve" ∧ Suspends node) ∨ id = "pay" := by
    rintro id node ⟨hm, hid⟩
    rcases List.mem_cons.mp hm with hm | hm
    · obtain rfl := Json.obj.inj hm
      exact Or.inl ⟨(Json.str.inj hid).symm, Or.inl rfl⟩
    · obtain rfl := Json.obj.inj (List.mem_singleton.mp hm)
      exact Or.inr (Json.str.inj hid).symm
  induction h with
  | entry mem root =>
    rcases hnode mem with h | rfl
    · exact h.1
    · exact absurd (hedge.mpr ⟨rfl, rfl⟩) (root "approve")
  | edge prior mem passes step ih =>
    obtain ⟨rfl, rfl⟩ := hedge.mp step
    rcases hnode mem with h | h
    · exact absurd h.2 passes
    · exact absurd h (by decide)

/-- The guarded refund compiles and its paths are interrupted, so it is gated. -/
theorem guardedRefund_gated : (compileWorkflow plainInterpreter guardedRefund).isOk = true ∧
    PathsGated guardedRefund ∧ ApprovalGated plainInterpreter guardedRefund := by
  have hg : PathsGated guardedRefund := by
    rintro id node hx ⟨hm, hid⟩ ht
    obtain rfl := exposed_guardedRefund hx
    rcases List.mem_cons.mp hm with hm | hm
    · obtain rfl := Json.obj.inj hm
      exact absurd ht (by decide)
    · obtain rfl := Json.obj.inj (List.mem_singleton.mp hm)
      exact absurd hid (by simp [Dict.get])
  exact ⟨by decide +kernel, hg, gated_of_paths _ _ hg⟩

/-- The same refund with a second edge around the approval. -/
def diamondRefund : Dict :=
  [("name", .str "Refund"), ("trigger", .obj [("type", .str "manual")]),
    ("nodes", .arr [
      .obj [("id", .str "start"), ("type", .str "parallel")],
      .obj [("id", .str "approve"), ("type", .str "approval"), ("assignees", .arr [.str "role:finance"])],
      .obj [("id", .str "pay"), ("type", .str "action"), ("action", .str "payment.refund")]]),
    ("edges", .arr [
      .obj [("source", .str "start"), ("target", .str "pay"), ("priority", .int 1)],
      .obj [("source", .str "start"), ("target", .str "approve")],
      .obj [("source", .str "approve"), ("target", .str "pay")]])]

def sampleContext : ExecutionContext :=
  ⟨"execution", "tenant", "workflow", "version", "hash", [], [], [], false, none, 0⟩

/-- The validator accepts the diamond, and its run from the entry node refunds without approval. -/
theorem diamondRefund_not_gated : ¬ ApprovalGated plainInterpreter diamondRefund := by
  intro h
  have hrun : ∃ plan, compileWorkflow plainInterpreter diamondRefund = .ok plan ∧
      ((execute calmEnv plan 2 sampleContext none ()).loop.calls.map (·.action)) = ["payment.refund"] := by
    cases hc : compileWorkflow plainInterpreter diamondRefund with
    | error e =>
      have : (compileWorkflow plainInterpreter diamondRefund).isOk = true := by decide +kernel
      rw [hc] at this
      cases this
    | ok plan =>
      have : (compileWorkflow plainInterpreter diamondRefund).toOption.map (fun plan =>
          (execute calmEnv plan 2 sampleContext none ()).loop.calls.map (·.action)) =
            some ["payment.refund"] := by decide +kernel
      rw [hc] at this
      exact ⟨plan, rfl, Option.some.inj this⟩
  obtain ⟨plan, hplan, hcalls⟩ := hrun
  obtain ⟨c, hc, ha⟩ := List.mem_map.mp (hcalls ▸ List.mem_singleton_self "payment.refund")
  have := h plan hplan Unit calmEnv sampleContext () 2 c hc
  rw [ha] at this
  exact absurd this (by decide)

end RevenueOS.Workflows
