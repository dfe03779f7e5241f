import RevenueOS.Workflows.Executor
import RevenueOS.Workflows.Approvals
import RevenueOS.Workflows.Control
import RevenueOS.Lib.Slots
import RevenueOS.Lib.Trace

/-!
# RevenueOS.Workflows.Tasks — the durable transport of one execution

`infrastructure/celery/tasks/workflow.py`, the sweep `process_due_work` of `tasks/scheduled.py` and the write of
`decide_approval` to the execution: everything that reads or writes one `WorkflowExecution`, one transaction
a step.  Rows of other executions are touched by none of these steps.

* A task is `execute_workflow` or `resume_execution`; any number of them may be queued at any time, which
  covers duplicates and redeliveries.  A task whose worker is lost is delivered again (`redeliver`); one that
  raises is sent again or dead-lettered (`TaskState.fail`); the step `fail` is an exception of the infrastructure.
* `start` locks the row (`with_for_update`), `commit` does not and does not look at it either: it is one
  unconditional write.  Between the two the engine runs on no lock.
* The sweep sends its message before it commits, so its read and its commit are two steps.

The engine is that of `RevenueOS.Workflows.Executor`, in an arbitrary environment; the kill switches are those
of `RevenueOS.Workflows.Control`.

* `terminal_absorbing`: a terminal state stays when no write interferes with another run.
* `rejected_run_waits_again`: an execution failed by a rejection that waits again.
-/

namespace RevenueOS.Workflows

open RevenueOS.Py RevenueOS.Lib

/-! ## Rows and tasks -/

/-- `state in ("completed", "failed", "cancelled")`. -/
def ExecutionState.isTerminal : ExecutionState → Bool
  | .completed | .failed | .cancelled => true
  | _ => false

/-- The columns of an execution that its tasks write, with `waiting_on` and `resume_nodes` of `context`. -/
structure ExecutionRow where
  state : ExecutionState
  resumeAt : Option Instant
  waitingOn : Option String
  resumeNodes : List String
deriving DecidableEq

namespace ExecutionRow

/-- The row that `_execute_workflow_once` writes at its end. -/
def ofResult (r : ExecutionResult) : ExecutionRow := ⟨r.state, r.resumeAt, r.waitingOn, r.resumeNodes⟩

/-- What `_resume_execution_once` resumes from, where no approval is in the way. -/
def resumeFrom (row : ExecutionRow) : Option (List String) :=
  if row.state ≠ .waiting then none
  else if row.resumeNodes = [] then none
  else some row.resumeNodes

end ExecutionRow

/-- What is fixed when the execution is created, and the content of the version it pins. -/
structure Pinned where
  executionId : String
  tenantId : String
  workflowId : String
  versionId : String
  contentHash : String
  triggerPayload : Dict
  entity : Dict
  dryRun : Bool
  correlationId : Option String
  planSource : Dict

/-- The context a run is started with. -/
def Pinned.context (p : Pinned) (startedAt : Instant) : ExecutionContext :=
  ⟨p.executionId, p.tenantId, p.workflowId, p.versionId, p.contentHash, p.triggerPayload, p.entity, [], p.dryRun,
    p.correlationId, startedAt⟩

inductive TaskKind where
  | execute | resume
deriving DecidableEq, Repr

/-- Where a task stands: queued, past the read of `_resume_execution_once`, past the kill check, past the
first transaction of `_execute_workflow_once`, past the engine, returned, or dead-lettered. -/
inductive TaskPc where
  | queued
  | found (resumeFrom : List String)
  | admitted (resumeFrom : Option (List String))
  | running (resumeFrom : Option (List String))
  | ran (result : ExecutionResult)
  | returned
  | dead

namespace TaskPc

/-- Between the two transactions of `_execute_workflow_once`. -/
def inRun : TaskPc → Bool
  | .running _ | .ran _ => true
  | _ => false

/-- Before the first transaction of `_execute_workflow_once`. -/
def unstarted : TaskPc → Bool
  | .queued | .found _ | .admitted _ => true
  | _ => false

/-- What the engine returned to the task. -/
def result? : TaskPc → Option ExecutionResult
  | .ran r => some r
  | _ => none

end TaskPc

/-- `retries` is that of Celery's request. -/
structure Task where
  kind : TaskKind
  pc : TaskPc
  retries : ℕ

/-- The task raises: it is sent again up to its third attempt where the exception allows it, and dead-lettered
otherwise. -/
def Task.raised (t : Task) (kind : ExceptionKind) : Task :=
  if shouldRetry (classifyException kind) (t.retries + 1) 3 then { t with pc := .queued, retries := t.retries + 1 }
  else { t with pc := .dead }

/-! ## Exceptions -/

/-- What a task raises: the compiler's exceptions, the engine's, and those of its last transaction, from Python or
from the database. -/
inductive TaskError where
  | compile (e : CompileError)
  | engine (e : EngineError)
  | python (e : PyError)
  | database

/-- Where `classify_exception` finds a built-in exception. -/
def builtinKind : PyError → ExceptionKind
  | .typeError | .valueError | .keyError | .attributeError => .terminalException
  | .indexError | .overflowError | .recursionError => .other

/-- Where it finds the others: `DslValidationError` and the hash mismatch are `ValueError`s. -/
def TaskError.kind : TaskError → ExceptionKind
  | .compile (.invalid _) | .engine .hashMismatch => .terminalException
  | .compile (.raised e) | .engine (.raised e) | .python e => builtinKind e
  | .engine .workflowKilled | .database => .other

/-- The execution, its approvals by node id (`execution_node_approval` is unique), its tasks, the open sweeps
with the task each has sent, and the kill switches. -/
structure TaskState where
  row : ExecutionRow
  approvals : String → Option Approval
  tasks : List Task
  sweeps : List ℕ
  kill : KillWorld

/-! ## Transactions -/

/-- `next((item for item in nodes if str(item.get("id")) == waiting_on), None)`. -/
def nodeById (waitingOn : String) : List Json → Except PyError (Option Dict)
  | [] => .ok none
  | item :: rest => do
    let node ← item.asDict
    if (node.get "id").text = waitingOn then return some node
    nodeById waitingOn rest

/-- `insert .. on conflict do nothing`: a row that cannot be stored is refused before any conflict is looked at. -/
def insertApproval (row : Approval) (approvals : String → Option Approval) :
    Except TaskError (String → Option Approval) :=
  if !row.dueAt.all Shared.inRange then .error (.python .overflowError)
  else if !row.storable then .error .database
  else if (approvals row.nodeId).isSome then .ok approvals
  else .ok (Function.update approvals row.nodeId (some row))

/-- `_persist_approval`. -/
def persistApproval (p : Pinned) (waitingOn : Option String) (approvalId : String) (now : ℤ)
    (approvals : String → Option Approval) : Except TaskError (String → Option Approval) :=
  match waitingOn with
  | none => .ok approvals
  | some nodeId =>
    if nodeId = "" then .ok approvals
    else do
      match ← ((p.planSource.getD "nodes" (.arr [])).iter >>= nodeById nodeId).mapError .python with
      | none => return approvals
      | some node =>
        if NodeType.ofJson? (node.get "type") = some .approval then
          insertApproval (← (newApproval approvalId p.executionId nodeId now node).mapError .python) approvals
        else return approvals

/-- What the last transaction of `_execute_workflow_once` writes besides the execution: `_persist_nodes` and
`_persist_approval`. -/
def persistRun (p : Pinned) (r : ExecutionResult) (approvalId : String) (now : ℤ)
    (approvals : String → Option Approval) : Except TaskError (String → Option Approval) :=
  if r.nodes.all NodeResult.storable then persistApproval p r.waitingOn approvalId now approvals
  else .error .database

namespace TaskState

/-- The approval of `waiting_on` exists and is not approved. -/
def approvalBlocks (s : TaskState) : Bool :=
  match s.row.waitingOn with
  | none => false
  | some nodeId => nodeId != "" && (s.approvals nodeId).any (fun a => a.state != .approved)

/-- The transaction of `_resume_execution_once`: the continuation, or `none` for an early return. -/
def continuation (s : TaskState) : Option (List String) :=
  if s.row.state ≠ .waiting then none
  else if s.approvalBlocks then none
  else s.row.resumeFrom

/-- Task `k` moves. -/
def move (s : TaskState) (k : ℕ) (t : Task) (pc : TaskPc) : TaskState :=
  { s with tasks := s.tasks.set k { t with pc } }

/-- Task `k` raises. -/
def fail (s : TaskState) (k : ℕ) (t : Task) (kind : ExceptionKind) : TaskState :=
  { s with tasks := s.tasks.set k (t.raised kind) }

/-- What `decide_approval` writes to the execution. -/
def decided (row : ExecutionRow) (moment : ℤ) : Option ApprovalState → ExecutionRow
  | some .approved => { row with resumeAt := some moment }
  | some .rejected => { row with state := .failed, resumeAt := none }
  | _ => row

/-- What a call of `decide_approval` resolves the approval of the node to. -/
def resolves (s : TaskState) (nodeId : String) (call : DecideCall) : Option ApprovalState :=
  (s.approvals nodeId).bind (fun a => (decideApproval a call).toOption.bind (·.resolved))

end TaskState

/-! ## Steps -/

inductive TaskStep (W : Type) where
  | enqueue (kind : TaskKind)
  | read (k : ℕ)
  | killCheck (k : ℕ) (up : Bool)
  | start (k : ℕ)
  | run (k : ℕ) (startedAt : Instant) (turns : ℕ) (world : W)
  | commit (k : ℕ) (approvalId : String) (now : ℤ)
  | redeliver (k : ℕ)
  | fail (k : ℕ) (kind : ExceptionKind)
  | decide (nodeId : String) (call : DecideCall)
  | sweepRead (now : Instant)
  | sweepCommit (i : ℕ)
  | engage (up : Bool) (scope : Option String)
  | release (up : Bool) (scope : Option String)
  | elapse (d : ℕ)

section Steps

variable {W : Type} (py : Interpreter) (env : Env W) (p : Pinned)

/-- Where the engine leaves a task: with a result, or still running after so many turns. -/
def engineRun (resumeFrom : Option (List String)) (startedAt : Instant) (turns : ℕ) (w : W) :
    Except TaskError TaskPc :=
  match compileWorkflow py p.planSource with
  | .error e => .error (.compile e)
  | .ok plan =>
    match execute env plan turns (p.context startedAt) resumeFrom w with
    | .done result _ => .ok (.ran result)
    | .more _ => .ok (.running resumeFrom)
    | .raised e _ => .error (.engine e)

namespace TaskState

/-- One step of the system. -/
def step (s : TaskState) : TaskStep W → TaskState
  | .enqueue kind => { s with tasks := s.tasks ++ [⟨kind, .queued, 0⟩] }
  | .read k =>
    match s.tasks[k]? with
    | some ⟨.resume, .queued, n⟩ =>
      match s.continuation with
      | some resumeFrom => s.move k ⟨.resume, .queued, n⟩ (.found resumeFrom)
      | none => s.move k ⟨.resume, .queued, n⟩ .returned
    | _ => s
  | .killCheck k up =>
    let (killed, kill) := isKilled up p.tenantId none s.kill
    match s.tasks[k]? with
    | some ⟨.execute, .queued, n⟩ =>
      { s with kill }.move k ⟨.execute, .queued, n⟩ (if killed then .returned else .admitted none)
    | some ⟨.resume, .found r, n⟩ =>
      { s with kill }.move k ⟨.resume, .found r, n⟩ (if killed then .returned else .admitted (some r))
    | _ => s
  | .start k =>
    match s.tasks[k]? with
    | some ⟨kind, .admitted resumeFrom, n⟩ =>
      if s.row.state.isTerminal then s.move k ⟨kind, .admitted resumeFrom, n⟩ .returned
      else
        { s with row := { s.row with state := .running, resumeAt := none } }.move k
          ⟨kind, .admitted resumeFrom, n⟩ (.running resumeFrom)
    | _ => s
  | .run k startedAt turns w =>
    match s.tasks[k]? with
    | some ⟨kind, .running resumeFrom, n⟩ =>
      match engineRun py env p resumeFrom startedAt turns w with
      | .ok pc => s.move k ⟨kind, .running resumeFrom, n⟩ pc
      | .error e => s.fail k ⟨kind, .running resumeFrom, n⟩ e.kind
    | _ => s
  | .commit k approvalId now =>
    match s.tasks[k]? with
    | some ⟨kind, .ran r, n⟩ =>
      match persistRun p r approvalId now s.approvals with
      | .error e => s.fail k ⟨kind, .ran r, n⟩ e.kind
      | .ok approvals => { s with row := .ofResult r, approvals }.move k ⟨kind, .ran r, n⟩ .returned
    | _ => s
  | .redeliver k =>
    match s.tasks[k]? with
    | some ⟨_, .returned, _⟩ | some ⟨_, .dead, _⟩ => s
    | some t => s.move k t .queued
    | none => s
  | .fail k kind =>
    match s.tasks[k]? with
    | some ⟨_, .returned, _⟩ | some ⟨_, .dead, _⟩ => s
    | some t => s.fail k t kind
    | none => s
  | .decide nodeId call =>
    match s.approvals nodeId with
    | none => s
    | some a =>
      { s with
        row := decided s.row call.moment (s.resolves nodeId call)
        approvals := Function.update s.approvals nodeId (some (applyCall a call)) }
  | .sweepRead now =>
    if s.row.state = .waiting ∧ s.row.resumeAt.any (fun t => decide (t ≤ now)) = true then
      { s with tasks := s.tasks ++ [⟨.resume, .queued, 0⟩], sweeps := s.sweeps ++ [s.tasks.length] }
    else s
  | .sweepCommit i =>
    match s.sweeps[i]? with
    | some _ => { s with row := { s.row with resumeAt := none }, sweeps := s.sweeps.eraseIdx i }
    | none => s
  | .engage up scope =>
    match engageKillSwitch up p.tenantId scope s.kill with
    | .ok kill => { s with kill }
    | .error _ => s
  | .release up scope =>
    match releaseKillSwitch up p.tenantId scope s.kill with
    | .ok kill => { s with kill }
    | .error _ => s
  | .elapse d => { s with kill := s.kill.elapse d }

/-- A new execution: pending, no approval, no task. -/
def initial (kill : KillWorld) : TaskState := ⟨⟨.pending, none, none, []⟩, fun _ => none, [], [], kill⟩

end TaskState

/-! ## Terminal states -/

/-- A write that does not interfere: no other run is between its two transactions when a run commits, and
no run at all, nor a completed or cancelled execution, when a decision rejects. -/
def Serial (s : TaskState) : TaskStep W → Prop
  | .commit k _ _ => ∀ t ∈ s.tasks.eraseIdx k, t.pc.inRun = false
  | .decide nodeId call => s.resolves nodeId call = some .rejected →
      (∀ t ∈ s.tasks, t.pc.inRun = false) ∧ s.row.state ≠ .completed ∧ s.row.state ≠ .cancelled
  | _ => True

instance decidableSerial (s : TaskState) : ∀ l : TaskStep W, Decidable (Serial s l)
  | .commit k _ _ => inferInstanceAs (Decidable (∀ t ∈ s.tasks.eraseIdx k, t.pc.inRun = false))
  | .decide nodeId call => inferInstanceAs (Decidable (s.resolves nodeId call = some .rejected →
      (∀ t ∈ s.tasks, t.pc.inRun = false) ∧ s.row.state ≠ .completed ∧ s.row.state ≠ .cancelled))
  | .enqueue _ | .read _ | .killCheck _ _ | .start _ | .run _ _ _ _ | .redeliver _ | .fail _ _ | .sweepRead _
  | .sweepCommit _ | .engage _ _ | .release _ _ | .elapse _ => .isTrue trivial

/-- In a terminal state no run is between its transactions. -/
def Quiet (s : TaskState) : Prop := s.row.state.isTerminal = true → ∀ t ∈ s.tasks, t.pc.inRun = false

section Quieting

variable {s : TaskState}

theorem quiet_move (h : Quiet s) (k : ℕ) (t : Task) {pc : TaskPc} (hpc : pc.inRun = false) :
    Quiet (s.move k t pc) := by
  intro hterm
  exact forall_mem_set (h hterm) hpc

/-- A task that raised is queued or dead-lettered. -/
theorem raised_inRun (t : Task) (kind : ExceptionKind) : (t.raised kind).pc.inRun = false := by
  unfold Task.raised
  split_ifs <;> rfl

theorem quiet_fail (h : Quiet s) (k : ℕ) (t : Task) (kind : ExceptionKind) : Quiet (s.fail k t kind) := by
  intro hterm
  exact forall_mem_set (h hterm) (raised_inRun t kind)

theorem quiet_concat (h : Quiet s) {t : Task} (ht : t.pc.inRun = false) (sweeps : List ℕ) :
    Quiet { s with tasks := s.tasks ++ [t], sweeps } := by
  intro hterm
  exact forall_mem_concat (h hterm) ht

/-- A run that has not committed is under way in a state that is not terminal. -/
theorem not_terminal_of_inRun (h : Quiet s) {k : ℕ} {t : Task} (ht : s.tasks[k]? = some t)
    (hrun : t.pc.inRun = true) : s.row.state.isTerminal = false := by
  by_contra hterm
  have := h (by simpa using hterm) t (List.mem_of_getElem? ht)
  rw [hrun] at this
  cases this

/-- A commit whose run was the only one leaves no run behind. -/
theorem inRun_of_commit {k : ℕ} {t : Task} (halone : ∀ t ∈ s.tasks.eraseIdx k, t.pc.inRun = false) :
    ∀ t' ∈ (s.move k t .returned).tasks, t'.pc.inRun = false := by
  intro t' ht'
  obtain ⟨j, hj⟩ := List.mem_iff_getElem?.mp ht'
  rcases getElem?_set_cases hj with ⟨-, rfl⟩ | ⟨hne, hj⟩
  · rfl
  · exact halone t' (List.mem_eraseIdx_iff_getElem?.mpr ⟨j, hne, hj⟩)

/-- What a decision writes keeps a terminal state that it may not reject. -/
theorem decided_state {row : ExecutionRow} {moment : ℤ} {resolved : Option ApprovalState}
    (hr : resolved = some .rejected → row.state ≠ .completed ∧ row.state ≠ .cancelled)
    (hterm : row.state.isTerminal = true) : (TaskState.decided row moment resolved).state = row.state := by
  unfold TaskState.decided
  split
  · rfl
  · obtain ⟨h1, h2⟩ := hr rfl
    cases hs : row.state <;> simp_all [ExecutionState.isTerminal]
  · rfl

/-- **One step** that does not interfere keeps a terminal state, and leaves no run in one. -/
theorem quiet_step (h : Quiet s) (l : TaskStep W) (hl : Serial s l) :
    Quiet (s.step py env p l) ∧
      (s.row.state.isTerminal = true → (s.step py env p l).row.state = s.row.state) := by
  cases l with
  | enqueue kind => exact ⟨quiet_concat h rfl s.sweeps, fun _ => rfl⟩
  | read k =>
    simp only [TaskState.step]
    split
    · split
      · exact ⟨quiet_move h k _ rfl, fun _ => rfl⟩
      · exact ⟨quiet_move h k _ rfl, fun _ => rfl⟩
    · exact ⟨h, fun _ => rfl⟩
  | killCheck k up =>
    have hkill : Quiet { s with kill := (isKilled up p.tenantId none s.kill).2 } := h
    simp only [TaskState.step]
    split
    · exact ⟨quiet_move hkill k _ (by split_ifs <;> rfl), fun _ => rfl⟩
    · exact ⟨quiet_move hkill k _ (by split_ifs <;> rfl), fun _ => rfl⟩
    · exact ⟨h, fun _ => rfl⟩
  | start k =>
    simp only [TaskState.step]
    split
    · split_ifs with hterm
      · exact ⟨quiet_move h k _ rfl, fun _ => rfl⟩
      · exact ⟨fun hc => (by cases hc), fun hc => absurd hc hterm⟩
    · exact ⟨h, fun _ => rfl⟩
  | run k startedAt turns w =>
    simp only [TaskState.step]
    split
    · rename_i kind resumeFrom n ht
      have hnot := not_terminal_of_inRun h ht rfl
      split
      · exact ⟨fun hc => absurd (hnot.symm.trans hc) (by decide), fun _ => rfl⟩
      · exact ⟨quiet_fail h k _ _, fun _ => rfl⟩
    · exact ⟨h, fun _ => rfl⟩
  | commit k approvalId now =>
    simp only [TaskState.step]
    split
    · rename_i kind r n ht
      have hnot := not_terminal_of_inRun h ht rfl
      split
      · exact ⟨quiet_fail h k _ _, fun _ => rfl⟩
      · exact ⟨fun _ => @inRun_of_commit s k ⟨kind, .ran r, n⟩ hl,
          fun hc => absurd (hnot.symm.trans hc) (by decide)⟩
    · exact ⟨h, fun _ => rfl⟩
  | redeliver k =>
    simp only [TaskState.step]
    split
    · exact ⟨h, fun _ => rfl⟩
    · exact ⟨h, fun _ => rfl⟩
    · exact ⟨quiet_move h k _ rfl, fun _ => rfl⟩
    · exact ⟨h, fun _ => rfl⟩
  | fail k kind =>
    simp only [TaskState.step]
    split
    · exact ⟨h, fun _ => rfl⟩
    · exact ⟨h, fun _ => rfl⟩
    · exact ⟨quiet_fail h k _ kind, fun _ => rfl⟩
    · exact ⟨h, fun _ => rfl⟩
  | decide nodeId call =>
    simp only [TaskState.step]
    split
    · exact ⟨h, fun _ => rfl⟩
    · refine ⟨?_, decided_state (fun hr => (hl hr).2)⟩
      intro hterm
      by_cases hr : s.resolves nodeId call = some .rejected
      · exact (hl hr).1
      · refine h ?_
        revert hterm
        simp only [TaskState.decided]
        split
        · exact id
        · exact absurd ‹_› hr
        · exact id
  | sweepRead now =>
    simp only [TaskState.step]
    split_ifs
    · exact ⟨quiet_concat h rfl _, fun _ => rfl⟩
    · exact ⟨h, fun _ => rfl⟩
  | sweepCommit i =>
    simp only [TaskState.step]
    split <;> exact ⟨h, fun _ => rfl⟩
  | engage up scope =>
    simp only [TaskState.step]
    split <;> exact ⟨h, fun _ => rfl⟩
  | release up scope =>
    simp only [TaskState.step]
    split <;> exact ⟨h, fun _ => rfl⟩
  | elapse d => exact ⟨h, fun _ => rfl⟩

end Quieting

/-- **Terminal states are absorbing** along every run whose writes do not interfere. -/
theorem terminal_absorbing (kill : KillWorld) (before later : List (TaskStep W))
    (h : Meets (TaskState.step py env p) Serial (.initial kill) (before ++ later))
    (hterm : (after (TaskState.step py env p) (.initial kill) before).row.state.isTerminal = true) :
    (after (TaskState.step py env p) (.initial kill) (before ++ later)).row.state =
      (after (TaskState.step py env p) (.initial kill) before).row.state := by
  obtain ⟨hbefore, hlater⟩ := meets_append.mp h
  have hinitial : Quiet (.initial kill) := fun hc => by cases hc
  have hquiet := inv_after Quiet (fun s l hs hl => (quiet_step py env p hs l hl).1) before _ hinitial
    hbefore
  rw [after_append]
  set s := after (TaskState.step py env p) (.initial kill) before
  -- along the rest of the run: quiet, and in the state `s` ended in
  have hinv := inv_after (fun s' => Quiet s' ∧ s'.row.state = s.row.state)
    (fun s' l hs hl => by
      obtain ⟨hstep, hkeep⟩ := quiet_step py env p hs.1 l hl
      exact ⟨hstep, (hkeep (hs.2 ▸ hterm)).trans hs.2⟩)
    later s ⟨hquiet, rfl⟩ hlater
  exact hinv.2

end Steps

/-- A task behind an approval by one user. -/
def reviewDocument : Dict :=
  [("name", .str "Review"), ("trigger", .obj [("type", .str "manual")]),
    ("nodes", .arr [
      .obj [("id", .str "review"), ("type", .str "approval"), ("assignees", .arr [.str "user:a"])],
      .obj [("id", .str "call"), ("type", .str "action"), ("action", .str "task.create")]]),
    ("edges", .arr [.obj [("source", .str "review"), ("target", .str "call")]])]

/-- An execution of a document, under a hash that is the same for all. -/
def pinnedTo (planSource : Dict) : Pinned :=
  ⟨"execution", "tenant", "workflow", "version", "hash", [], [], false, none, planSource⟩

/-- The steps of a run of task `k` up to the end of the engine. -/
def engineSteps (k : ℕ) : List (TaskStep Unit) := [.killCheck k true, .start k, .run k 0 10 ()]

def rejects : DecideCall := ⟨⟨"a", []⟩, "rejected", "", 0⟩

/-- The execution waits for the review, which is rejected. -/
def rejectedRun : List (TaskStep Unit) :=
  .enqueue .execute :: engineSteps 0 ++ [.commit 0 "approval" 0, .decide "review" rejects]

/-- A redelivery after the rejection finds a failed execution and leaves it so. -/
theorem redelivery_stays_failed :
    (after (TaskState.step plainInterpreter calmEnv (pinnedTo reviewDocument)) (.initial freshWorld)
        (rejectedRun ++ (.enqueue .execute :: engineSteps 1 ++ [.commit 1 "approval" 0]))).row.state =
      (after (TaskState.step plainInterpreter calmEnv (pinnedTo reviewDocument)) (.initial freshWorld)
        rejectedRun).row.state :=
  terminal_absorbing _ _ _ _ _ _ (by decide +kernel) (by decide +kernel)

/-- The same with the redelivery under way when the review is rejected. -/
def overlappedRun : List (TaskStep Unit) :=
  .enqueue .execute :: engineSteps 0 ++ [.commit 0 "approval" 0, .enqueue .execute] ++ engineSteps 1 ++
    [.decide "review" rejects]

/-- The commit of the redelivered run overwrites the rejection: a failed execution waits again. -/
theorem rejected_run_waits_again : ¬ ∀ (kill : KillWorld) (before later : List (TaskStep Unit)),
    (after (TaskState.step plainInterpreter calmEnv (pinnedTo reviewDocument)) (.initial kill)
      before).row.state.isTerminal = true →
    (after (TaskState.step plainInterpreter calmEnv (pinnedTo reviewDocument)) (.initial kill)
        (before ++ later)).row.state =
      (after (TaskState.step plainInterpreter calmEnv (pinnedTo reviewDocument)) (.initial kill)
        before).row.state := by
  intro h
  have hstate := h freshWorld overlappedRun [.commit 1 "approval" 0] (by decide +kernel)
  revert hstate
  decide +kernel

end RevenueOS.Workflows
