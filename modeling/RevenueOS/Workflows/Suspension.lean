import RevenueOS.Workflows.Enabled
import RevenueOS.Workflows.Wakeups

/-!
# RevenueOS.Workflows.Suspension — suspension against an uninterrupted run

An execution is driven to its end: `_execute_workflow_once`, and after every waiting result, with the approval
approved and the delay elapsed, `_resume_execution_once` on the persisted `resume_nodes`.  Each call is a
segment with an engine of its own, over the same plan and scope, and ends with the transaction that stores its
result, which may raise.

What is persisted is `resume_nodes` alone: neither the rest of the queue nor the set of visited nodes.

* `undisturbed_resume`: a segment is what the steps of an undisturbed resume task do.
* `suspension_transparent`: where no suspension loses or repeats anything, the segments together run what an
  uninterrupted run would, and complete.
* `fanout_loses_branch`: a delay in one branch of a fan-out drops the other branch.
-/

namespace RevenueOS.Workflows

open RevenueOS.Py RevenueOS.Lib

/-- The scope of an execution; the start of a run is no part of it. -/
def Pinned.scope (p : Pinned) : Dict := scopeOf (p.context 0)

/-- One call of `_execute_workflow_once`: its engine, when it starts, the world it starts in, and the clock and the
new id of its last transaction. -/
structure Segment (W : Type) where
  env : Env W
  startedAt : Instant
  world : W
  closedAt : Instant
  approvalId : String

/-- Every approval is approved. -/
def approveAll (approvals : String → Option Approval) : String → Option Approval :=
  fun nodeId => (approvals nodeId).map ({ · with state := .approved })

/-- None of them is in the way of a resume. -/
theorem approveAll_free {s : TaskState} {approvals : String → Option Approval}
    (happroved : s.approvals = approveAll approvals) : s.approvalBlocks = false := by
  unfold TaskState.approvalBlocks
  rw [happroved]
  split
  · rfl
  · rename_i nodeId _
    cases h : approvals nodeId <;> simp [approveAll, h]

section Driver

variable {W : Type} (py : Interpreter) (p : Pinned)

/-- The engine of the segment returns `r`. -/
def Returns (seg : Segment W) (resumeFrom : Option (List String)) (r : ExecutionResult) : Prop :=
  ∃ turns, engineRun py seg.env p resumeFrom seg.startedAt turns seg.world = .ok (.ran r)

/-- The last transaction of the segment stores `r`, and leaves the approvals `approvals'`. -/
def Closes (seg : Segment W) (r : ExecutionResult) (approvals approvals' : String → Option Approval) : Prop :=
  persistRun p r seg.approvalId seg.closedAt approvals = .ok approvals'

/-- Segment `k` starts from `resumeFrom`, with the approvals `approvals`, after segments with the results
`nodes`. -/
inductive Begins (segs : ℕ → Segment W) :
    ℕ → Option (List String) → (String → Option Approval) → List NodeResult → Prop
  | execute : Begins segs 0 none (fun _ => none) []
  | resume {k : ℕ} {resumeFrom : Option (List String)} {approvals approvals' : String → Option Approval}
      {nodes : List NodeResult} {r : ExecutionResult} {next : List String}
      (begins : Begins segs k resumeFrom approvals nodes)
      (returns : Returns py p (segs k) resumeFrom r) (closes : Closes p (segs k) r approvals approvals')
      (continues : (ExecutionRow.ofResult r).resumeFrom = some next) :
      Begins segs (k + 1) (some next) (approveAll approvals') (nodes ++ r.nodes)

/-- The execution is stored as completed, and over all its segments every action reachable from the entry nodes
along enabled edges is run exactly once, and no other. -/
def Transparent (plan : Plan) (segs : ℕ → Segment W) : Prop :=
  ∃ k resumeFrom approvals approvals' nodes r, Begins py p segs k resumeFrom approvals nodes ∧
    Returns py p (segs k) resumeFrom r ∧ Closes p (segs k) r approvals approvals' ∧
    r.state = .completed ∧ (ranActions plan (nodes ++ r.nodes)).Nodup ∧
    ∀ a, a ∈ ranActions plan (nodes ++ r.nodes) ↔
      IsAction plan a ∧ ReachedFrom (enabledNext plan p.scope) plan.entryNodes a

/-- Every turn of every segment meets the condition. -/
def TurnsOk (plan : Plan) (segs : ℕ → Segment W) : Prop :=
  ∀ k resumeFrom approvals nodes, Begins py p segs k resumeFrom approvals nodes → ∀ turns σ,
    execute (segs k).env plan turns (p.context (segs k).startedAt) resumeFrom (segs k).world = .more σ →
    TurnOk plan p.scope (segs k).closedAt (ranActions plan nodes) σ

/-- No segment is killed, passes its deadline, or has an action that fails or changes the context. -/
def CalmSegments (plan : Plan) (segs : ℕ → Segment W) : Prop :=
  ∀ k deadline, deadlineOf plan (p.context (segs k).startedAt) = .ok deadline → Calm (segs k).env deadline

/-- What the segments before one with the entry `roots` leave it to do. -/
structure History (plan : Plan) (nodes : List NodeResult) (roots : List String) : Prop where
  once : (ranActions plan nodes).Nodup
  sound : ∀ a ∈ ranActions plan nodes,
    IsAction plan a ∧ ReachedFrom (enabledNext plan p.scope) plan.entryNodes a
  covered : ∀ a, IsAction plan a → ReachedFrom (enabledNext plan p.scope) plan.entryNodes a →
    a ∈ ranActions plan nodes ∨ ReachedFrom (enabledNext plan p.scope) roots a
  fresh : ∀ a ∈ ranActions plan nodes, ¬ ReachedFrom (enabledNext plan p.scope) roots a
  within : ∀ r ∈ roots, ReachedFrom (enabledNext plan p.scope) plan.entryNodes r

/-- **A segment in the transport.**  Where every approval is approved and no switch is engaged, the steps of a
resume task leave the row that the segment returns and the approvals that it closes with. -/
theorem undisturbed_resume (seg : Segment W) {s : TaskState} {k n turns : ℕ} {up : Bool} {next : List String}
    {r : ExecutionResult} {before approvals' : String → Option Approval}
    (ht : s.tasks[k]? = some ⟨.resume, .queued, n⟩)
    (happroved : s.approvals = approveAll before) (halive : (isKilled up p.tenantId none s.kill).1 = false)
    (hnext : s.row.resumeFrom = some next)
    (hrun : engineRun py seg.env p (some next) seg.startedAt turns seg.world = .ok (.ran r))
    (hcloses : Closes p seg r s.approvals approvals') :
    let s' := after (TaskState.step py seg.env p) s [.read k, .killCheck k up, .start k,
      .run k seg.startedAt turns seg.world, .commit k seg.approvalId seg.closedAt]
    s'.row = .ofResult r ∧ s'.approvals = approvals' := by
  have hwaiting : s.row.state = .waiting := by
    by_contra hne
    simp [ExecutionRow.resumeFrom, hne] at hnext
  have hcont : s.continuation = some next := by
    simp [TaskState.continuation, hwaiting, approveAll_free happroved, hnext]
  have hterm : s.row.state.isTerminal = false := by rw [hwaiting]; rfl
  have hset : ∀ a : Task, (s.tasks.set k a)[k]? = some a := fun a => getElem?_set_of_some ht
  unfold Closes at hcloses
  simp [after, TaskState.step, TaskState.move, ht, hcont, hset, halive, hterm, hrun, hcloses]

variable {py p} {plan : Plan} {segs : ℕ → Segment W} {nodes : List NodeResult} {roots : List String}
  {r : ExecutionResult} {x : String} {k : ℕ} {resumeFrom : Option (List String)} {closedAt : Instant}
  {approvals approvals' : String → Option Approval}

/-- The actions of a segment are new. -/
theorem History.nodup_append (h : History p plan nodes roots) (honce : (ranActions plan r.nodes).Nodup)
    (hsound : ∀ a ∈ ranActions plan r.nodes, ReachedFrom (enabledNext plan p.scope) roots a) :
    (ranActions plan (nodes ++ r.nodes)).Nodup := by
  rw [ranActions_append, List.nodup_append]
  refine ⟨h.once, honce, ?_⟩
  rintro a ha b hb rfl
  exact h.fresh a ha (hsound a hb)

/-- A segment that pauses leaves the rest to its continuation. -/
theorem History.pauses (h : History p plan nodes roots)
    (hr : Pauses plan p.scope closedAt roots (ranActions plan nodes) r x) :
    History p plan (nodes ++ r.nodes) (enabledNext plan p.scope x) := by
  have hentry : ∀ {a}, ReachedFrom (enabledNext plan p.scope) roots a →
      ReachedFrom (enabledNext plan p.scope) plan.entryNodes a := fun ha => .trans h.within ha
  refine ⟨h.nodup_append hr.once (fun a ha => (hr.sound a ha).2), ?_, ?_, ?_, ?_⟩
  · intro a ha
    rw [ranActions_append, List.mem_append] at ha
    rcases ha with ha | ha
    · exact h.sound a ha
    · exact ⟨(hr.sound a ha).1, hentry (hr.sound a ha).2⟩
  · intro a hact hreach
    rw [ranActions_append]
    rcases h.covered a hact hreach with ha | ha
    · exact Or.inl (List.mem_append_left _ ha)
    · exact hr.covered a hact ha
  · rw [ranActions_append]
    exact hr.fresh
  · exact fun y hy => (hentry hr.reached).step hy

/-- A segment that completes leaves nothing. -/
theorem History.completes (h : History p plan nodes roots) (hr : Completes plan p.scope roots r) :
    (ranActions plan (nodes ++ r.nodes)).Nodup ∧ ∀ a, a ∈ ranActions plan (nodes ++ r.nodes) ↔
      IsAction plan a ∧ ReachedFrom (enabledNext plan p.scope) plan.entryNodes a := by
  refine ⟨h.nodup_append hr.once (fun a ha => ((hr.ran a).mp ha).2), ?_⟩
  intro a
  rw [ranActions_append, List.mem_append]
  constructor
  · rintro (ha | ha)
    · exact h.sound a ha
    · obtain ⟨hact, hreach⟩ := (hr.ran a).mp ha
      exact ⟨hact, .trans h.within hreach⟩
  · rintro ⟨hact, hreach⟩
    exact (h.covered a hact hreach).imp_right (fun ha => (hr.ran a).mpr ⟨hact, ha⟩)

/-- The engine of a segment, past its checks. -/
theorem execute_eq {env : Env W} {ctx : ExecutionContext} {deadline : Instant} {w : W}
    (hhash : plan.contentHash = ctx.contentHash) (hdeadline : deadlineOf plan ctx = .ok deadline) (n : ℕ) :
    execute env plan n ctx resumeFrom w = runTurns env plan deadline n (startLoop plan ctx resumeFrom w) := by
  simp [execute, hhash, hdeadline]

theorem front_startLoop (ctx : ExecutionContext) (resumeFrom : Option (List String)) (w : W) :
    (startLoop plan ctx resumeFrom w).front plan = ⟨resumeFrom.getD plan.entryNodes, ∅, []⟩ := by
  simp [startLoop, Loop.front, ranActions]

/-- A segment that completes is stored. -/
theorem closes_of_completes {seg : Segment W} (hr : Completes plan p.scope roots r) :
    Closes p seg r approvals approvals := by
  unfold Closes persistRun
  rw [if_pos hr.stored, hr.waits]
  rfl

/-- A segment that pauses is stored, with the approval it waits for. -/
theorem closes_of_pauses (hc : Compiled p.planSource plan) {seg : Segment W} {before : List String}
    (hr : Pauses plan p.scope seg.closedAt roots before r x) : ∃ approvals', Closes p seg r approvals approvals' := by
  obtain ⟨node, hl, hask⟩ := hr.known
  unfold Closes persistRun
  rw [if_pos hr.stored, hr.waits]
  exact persistApproval_total hc hl hask hr.fits seg.approvalId approvals

/-- **One segment** completes the execution or hands over to the next. -/
theorem segment_step (hplan : compileWorkflow py p.planSource = .ok plan)
    (hhash : plan.contentHash = p.contentHash) (hcalm : CalmSegments p plan segs)
    (hok : TurnsOk py p plan segs) (hbegins : Begins py p segs k resumeFrom approvals nodes)
    (h : History p plan nodes (resumeFrom.getD plan.entryNodes)) :
    Transparent py p plan segs ∨
      ∃ x approvals' nodes', ReachedFrom (enabledNext plan p.scope) (resumeFrom.getD plan.entryNodes) x ∧
        Begins py p segs (k + 1) (some (enabledNext plan p.scope x)) approvals' nodes' ∧
        History p plan nodes' (enabledNext plan p.scope x) := by
  have hc := compileWorkflow_ok hplan
  obtain ⟨deadline, hdeadline⟩ := hc.deadline (p.context (segs k).startedAt)
  have heq := fun n => @execute_eq W plan resumeFrom (segs k).env (p.context (segs k).startedAt) deadline
    (segs k).world hhash hdeadline n
  have hstart : Front.Sound (enabledNext plan p.scope) (IsAction plan) (resumeFrom.getD plan.entryNodes)
      ((startLoop plan (p.context (segs k).startedAt) resumeFrom (segs k).world).front plan) := by
    rw [front_startLoop]
    exact Front.sound_start _
  have hscope : scopeOf (startLoop plan (p.context (segs k).startedAt) resumeFrom (segs k).world).context =
      p.scope := rfl
  obtain ⟨i, r, σ, hdone, hr⟩ := segment_outcome hc (hcalm k deadline hdeadline) hscope hstart rfl
    (fun i σ hi => hok k resumeFrom approvals nodes hbegins i σ ((heq i).trans hi))
  have hreturns : Returns py p (segs k) resumeFrom r :=
    ⟨i, by simp only [engineRun, hplan, heq i, hdone]⟩
  rcases hr with hr | ⟨x, hr⟩
  · exact Or.inl ⟨k, resumeFrom, approvals, approvals, nodes, r, hbegins, hreturns, closes_of_completes hr,
      hr.state, h.completes hr⟩
  · obtain ⟨approvals', hcloses⟩ := closes_of_pauses hc hr
    refine Or.inr ⟨x, _, nodes ++ r.nodes, hr.reached, .resume hbegins hreturns hcloses ?_, h.pauses hr⟩
    simp [ExecutionRow.resumeFrom, ExecutionRow.ofResult, hr.state, hr.next, hr.continues]

/-- **Suspension is transparent** when every turn of the run meets the condition: each suspension then
carries over everything that an uninterrupted run would still do, and nothing that was done. -/
theorem suspension_transparent (hplan : compileWorkflow py p.planSource = .ok plan)
    (hhash : plan.contentHash = p.contentHash) (hcalm : CalmSegments p plan segs)
    (hok : TurnsOk py p plan segs) : Transparent py p plan segs := by
  -- each suspension is a proper descendant of the one before
  have hwf : WellFounded (Relation.TransGen (fun y x => y ∈ enabledNext plan p.scope x)) :=
    (enabled_acyclic (compileWorkflow_ok hplan) p.scope).transGen
  have hlater : ∀ d k approvals nodes, Begins py p segs k (some (enabledNext plan p.scope d)) approvals nodes →
      History p plan nodes (enabledNext plan p.scope d) → Transparent py p plan segs := by
    intro d
    induction d using hwf.induction with
    | _ d ih =>
      intro k approvals nodes hbegins h
      rcases segment_step hplan hhash hcalm hok hbegins h with
        hdone | ⟨x, approvals', nodes', ⟨y, hy, hyx⟩, hbegins', h'⟩
      · exact hdone
      · refine ih x ?_ (k + 1) approvals' nodes' hbegins' h'
        rw [← Relation.transGen_swap]
        exact Relation.TransGen.head' hy hyx
  have hfirst : History p plan [] plan.entryNodes :=
    ⟨List.nodup_nil, by simp [ranActions], fun a _ ha => Or.inr ha, by simp [ranActions],
      fun r hr => ⟨r, hr, .refl⟩⟩
  rcases segment_step hplan hhash hcalm hok .execute hfirst with
    hdone | ⟨x, approvals, nodes', -, hbegins, h⟩
  · exact hdone
  · exact hlater x 1 approvals nodes' hbegins h

theorem execute_mono {env : Env W} {ctx : ExecutionContext} {w : W} {σ : Loop W} {n m : ℕ} (hnm : n ≤ m)
    (h : execute env plan n ctx resumeFrom w = .done r σ) : execute env plan m ctx resumeFrom w = .done r σ := by
  unfold execute at h ⊢
  simp only at h ⊢
  split_ifs at h ⊢
  split at h
  · cases h
  · exact runTurns_mono hnm h

/-- The result of a segment is one. -/
theorem returns_unique {seg : Segment W} {r' : ExecutionResult} (h : Returns py p seg resumeFrom r)
    (h' : Returns py p seg resumeFrom r') : r = r' := by
  obtain ⟨n, hn⟩ := h
  obtain ⟨m, hm⟩ := h'
  unfold engineRun at hn hm
  split at hn
  · cases hn
  rename_i plan hplan
  rw [hplan] at hm
  simp only at hm
  split at hn
  · rename_i σ hσ
    split at hm
    · rename_i σ' hσ'
      have h1 := execute_mono (le_max_left n m) hσ
      have h2 := execute_mono (le_max_right n m) hσ'
      obtain ⟨hr, -⟩ := Turn.done.inj (h1.symm.trans h2)
      rw [← TaskPc.ran.inj (Except.ok.inj hn), ← TaskPc.ran.inj (Except.ok.inj hm), hr]
    · cases Except.ok.inj hm
    · cases hm
  · cases Except.ok.inj hn
  · cases hn

/-- The segments of an execution that suspends once. -/
theorem begins_of_two {seg : Segment W} {r₁ r₂ : ExecutionResult} {next : List String}
    (h₁ : Returns py p seg none r₁) (hnext : (ExecutionRow.ofResult r₁).resumeFrom = some next)
    (h₂ : Returns py p seg (some next) r₂) (hend : (ExecutionRow.ofResult r₂).resumeFrom = none)
    (h : Begins py p (fun _ => seg) k resumeFrom approvals nodes) :
    resumeFrom = none ∧ nodes = [] ∨ resumeFrom = some next ∧ nodes = r₁.nodes := by
  induction h with
  | execute => exact Or.inl ⟨rfl, rfl⟩
  | resume begins returns closes continues ih =>
    rcases ih with ⟨rfl, rfl⟩ | ⟨rfl, rfl⟩
    · obtain rfl := returns_unique returns h₁
      obtain rfl := Option.some.inj (continues.symm.trans hnext)
      exact Or.inr ⟨rfl, rfl⟩
    · obtain rfl := returns_unique returns h₂
      cases continues.symm.trans hend

end Driver

/-! ## Two executions -/

/-- The result of a turn that returned. -/
def Turn.result? {W : Type} : Turn W → Option ExecutionResult
  | .done r _ => some r
  | _ => none

/-- A segment that starts at once, in the calm environment. -/
def calmSegment : Segment Unit := ⟨calmEnv, 0, (), 0, "approval"⟩

theorem calm_calmEnv {deadline : Instant} (h : 0 ≤ deadline) : Calm calmEnv deadline where
  succeeds _ _ _ _ w := ⟨[], w, rfl⟩
  reread _ _ := rfl
  alive _ _ := rfl
  timely _ := h

section Calm

variable {p : Pinned} {plan : Plan} {resumeFrom : Option (List String)} {r : ExecutionResult} {turns : ℕ}

/-- A segment, by what it returns after so many turns. -/
theorem returns_of_result (hplan : compileWorkflow plainInterpreter p.planSource = .ok plan)
    (h : (execute calmEnv plan turns (p.context 0) resumeFrom ()).result? = some r) :
    Returns plainInterpreter p calmSegment resumeFrom r := by
  refine ⟨turns, ?_⟩
  simp only [engineRun, hplan, calmSegment]
  cases he : execute calmEnv plan turns (p.context 0) resumeFrom () with
  | done r' σ =>
    rw [he] at h
    rw [Option.some.inj h]
  | more σ => rw [he] at h; cases h
  | raised e σ => rw [he] at h; cases h

/-- A segment that returned is not under way. -/
theorem lt_of_more {σ : Loop Unit} {n : ℕ}
    (h : (execute calmEnv plan turns (p.context 0) resumeFrom ()).result? = some r)
    (hn : execute calmEnv plan n (p.context 0) resumeFrom () = .more σ) : n < turns := by
  by_contra hge
  cases he : execute calmEnv plan turns (p.context 0) resumeFrom () with
  | done r' σ' => cases (execute_mono (not_lt.mp hge) he).symm.trans hn
  | more σ' => rw [he] at h; cases h
  | raised e σ' => rw [he] at h; cases h

end Calm

def reviewPlan : Plan := (compileWorkflow plainInterpreter reviewDocument).toOption.get (by decide +kernel)

theorem compile_review : compileWorkflow plainInterpreter reviewDocument = .ok reviewPlan := eq_ok_get _

/-- The review sets neither a due time nor a quorum nor a timeout path. -/
theorem review_requestable {node : Dict} (hl : reviewPlan.nodes.lookup "review" = some node) :
    Requestable 0 node := by
  have hnode : reviewPlan.nodes.lookup "review" =
      some [("id", .str "review"), ("type", .str "approval"), ("assignees", .arr [.str "user:a"])] := rfl
  obtain rfl := Option.some.inj (hnode.symm.trans hl)
  exact ⟨⟨0, rfl, by decide⟩, ⟨1, rfl, by decide⟩, Or.inl rfl⟩

/-- The reviewed task meets the condition: its one suspension has nothing queued and nothing run. -/
theorem review_turnsOk :
    TurnsOk plainInterpreter (pinnedTo reviewDocument) reviewPlan (fun _ => calmSegment) := by
  set p := pinnedTo reviewDocument
  obtain ⟨r₁, e₁, h₁⟩ := Option.map_eq_some_iff.mp (show
    (execute calmEnv reviewPlan 1 (p.context 0) none ()).result?.map
      (fun r => (ExecutionRow.ofResult r).resumeFrom) = some (some ["call"]) by decide +kernel)
  obtain ⟨r₂, e₂, h₂⟩ := Option.map_eq_some_iff.mp (show
    (execute calmEnv reviewPlan 2 (p.context 0) (some ["call"]) ()).result?.map
      (fun r => (ExecutionRow.ofResult r).resumeFrom) = some none by decide +kernel)
  rintro k resumeFrom approvals nodes hbegins turns σ hσ x rest node hq hl -
  have ret₁ := returns_of_result compile_review e₁
  have ret₂ := returns_of_result compile_review e₂
  rcases begins_of_two ret₁ h₁ ret₂ h₂ hbegins with ⟨rfl, rfl⟩ | ⟨rfl, rfl⟩
  · -- the first segment suspends in its first turn
    obtain rfl : turns = 0 := Nat.lt_one_iff.mp (lt_of_more e₁ hσ)
    have hstart : (execute calmEnv reviewPlan 0 (p.context 0) none ()).loop.queue = ["review"] ∧
        ranActions reviewPlan (execute calmEnv reviewPlan 0 (p.context 0) none ()).loop.results = [] := by
      decide +kernel
    change execute calmEnv reviewPlan 0 (p.context 0) none () = .more σ at hσ
    rw [hσ] at hstart
    obtain ⟨hqueue, hran⟩ := hstart
    obtain ⟨rfl, rfl⟩ := List.cons.inj (hq.symm.trans hqueue)
    have ht := typeOf_of_lookup hl
    rw [show reviewPlan.typeOf "review" = some .approval by decide +kernel] at ht
    refine ⟨⟨⟨["call"], eq_ok_of_toOption (by decide +kernel)⟩, ?_, ?_, fun _ => by decide⟩,
      fun _ => ⟨by decide +kernel, ?_, ?_⟩, fun _ => review_requestable hl⟩
    · rw [← ht]; simp
    · rw [← ht]; simp
    · rintro a - ⟨y, hy, -⟩
      cases hy
    · rw [show σ.results = (Turn.more σ).loop.results from rfl, hran]
      simp [ranActions]
  · -- the second segment runs the task and completes
    have hlt := lt_of_more e₂ hσ
    change execute calmEnv reviewPlan turns (p.context 0) (some ["call"]) () = .more σ at hσ
    obtain rfl | rfl : turns = 0 ∨ turns = 1 := by omega
    · have hqueue : (execute calmEnv reviewPlan 0 (p.context 0) (some ["call"]) ()).loop.queue = ["call"] := by
        decide +kernel
      rw [hσ] at hqueue
      obtain ⟨rfl, rfl⟩ := List.cons.inj (hq.symm.trans hqueue)
      have ht := typeOf_of_lookup hl
      rw [show reviewPlan.typeOf "call" = some .action by decide +kernel] at ht
      have hattempts : (reviewPlan.nodes.lookup "call").map
          (fun node => (maxAttempts reviewPlan.globalPolicy node).toOption) = some (some 4) := by
        decide +kernel
      rw [hl] at hattempts
      refine ⟨⟨⟨[], eq_ok_of_toOption (by decide +kernel)⟩, fun _ => ⟨4, ?_, by decide⟩, ?_, fun _ => by decide⟩,
        ?_, ?_⟩
      · exact eq_ok_of_toOption (Option.some.inj hattempts)
      · rw [← ht]; simp
      · rintro (hs | hs) <;> rw [← ht] at hs <;> cases hs
      · rw [← ht]; simp
    · have hqueue : (execute calmEnv reviewPlan 1 (p.context 0) (some ["call"]) ()).loop.queue = [] := by
        decide +kernel
      rw [hσ] at hqueue
      cases hq.symm.trans hqueue

/-- The reviewed task, driven through its approval, is created once. -/
theorem review_transparent :
    Transparent plainInterpreter (pinnedTo reviewDocument) reviewPlan (fun _ => calmSegment) := by
  refine suspension_transparent compile_review (by decide +kernel) ?_ review_turnsOk
  intro k deadline hdeadline
  have htime : deadlineOf reviewPlan ((pinnedTo reviewDocument).context 0) = .ok (seconds 3600) :=
    eq_ok_of_toOption (by decide +kernel)
  obtain rfl := Except.ok.inj (htime.symm.trans hdeadline)
  exact calm_calmEnv (by decide)

/-- A fan-out into a delayed task and an immediate one. -/
def fanoutDocument : Dict :=
  [("name", .str "Fan-out"), ("trigger", .obj [("type", .str "manual")]),
    ("nodes", .arr [
      .obj [("id", .str "start"), ("type", .str "parallel")],
      .obj [("id", .str "wait"), ("type", .str "delay"), ("delay_seconds", .int 60)],
      .obj [("id", .str "remind"), ("type", .str "action"), ("action", .str "task.create")],
      .obj [("id", .str "call"), ("type", .str "action"), ("action", .str "task.create")]]),
    ("edges", .arr [
      .obj [("source", .str "start"), ("target", .str "wait"), ("priority", .int 1)],
      .obj [("source", .str "start"), ("target", .str "call")],
      .obj [("source", .str "wait"), ("target", .str "remind")]])]

def fanoutPlan : Plan := (compileWorkflow plainInterpreter fanoutDocument).toOption.get (by decide +kernel)

theorem compile_fanout : compileWorkflow plainInterpreter fanoutDocument = .ok fanoutPlan := eq_ok_get _

/-- The delay is taken from the queue before the call, which no later segment runs. -/
theorem fanout_loses_branch : ¬ ∀ (p : Pinned) (plan : Plan) (segs : ℕ → Segment Unit),
    compileWorkflow plainInterpreter p.planSource = .ok plan → plan.contentHash = p.contentHash →
    CalmSegments p plan segs → Transparent plainInterpreter p plan segs := by
  intro h
  set p := pinnedTo fanoutDocument
  have htime : deadlineOf fanoutPlan (p.context 0) = .ok (seconds 3600) := eq_ok_of_toOption (by decide +kernel)
  have hcalm : CalmSegments p fanoutPlan (fun _ => calmSegment) := by
    intro k deadline hdeadline
    obtain rfl := Except.ok.inj (htime.symm.trans hdeadline)
    exact calm_calmEnv (by decide)
  obtain ⟨r₁, e₁, h₁⟩ := Option.map_eq_some_iff.mp (show
    (execute calmEnv fanoutPlan 2 (p.context 0) none ()).result?.map
      (fun r => ((ExecutionRow.ofResult r).resumeFrom, r.state, ranActions fanoutPlan r.nodes)) =
        some (some ["remind"], .waiting, []) by decide +kernel)
  obtain ⟨r₂, e₂, h₂⟩ := Option.map_eq_some_iff.mp (show
    (execute calmEnv fanoutPlan 2 (p.context 0) (some ["remind"]) ()).result?.map
      (fun r => ((ExecutionRow.ofResult r).resumeFrom, ranActions fanoutPlan r.nodes)) =
        some (none, ["remind"]) by decide +kernel)
  simp only [Prod.mk.injEq] at h₁ h₂
  have ret₁ := returns_of_result compile_fanout e₁
  have ret₂ := returns_of_result compile_fanout e₂
  obtain ⟨k, resumeFrom, approvals, approvals', nodes, r, hbegins, hreturns, -, hstate, -, hran⟩ :=
    h p fanoutPlan _ compile_fanout (by decide +kernel) hcalm
  have hcall : "call" ∈ ranActions fanoutPlan (nodes ++ r.nodes) := by
    refine (hran "call").mpr ⟨by decide +kernel, "start", by decide +kernel, ?_⟩
    exact .single (show "call" ∈ enabledNext fanoutPlan p.scope "start" by decide +kernel)
  rcases begins_of_two ret₁ h₁.1 ret₂ h₂.1 hbegins with ⟨rfl, rfl⟩ | ⟨rfl, rfl⟩
  · obtain rfl := returns_unique hreturns ret₁
    cases h₁.2.1.symm.trans hstate
  · obtain rfl := returns_unique hreturns ret₂
    rw [ranActions_append, h₁.2.2, h₂.2] at hcall
    revert hcall
    decide

end RevenueOS.Workflows
