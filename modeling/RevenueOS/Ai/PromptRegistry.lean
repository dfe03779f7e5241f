import RevenueOS.Lib.RowLocks
import RevenueOS.Lib.Table
import RevenueOS.Lib.Trace
import RevenueOS.Workflows.Triggers

/-!
# RevenueOS.Ai.PromptRegistry — which prompt is in production

`application/ai/prompt_registry.py` over the tables of `models/ai.py`, in any interleaving.  A transaction goes on by
one statement at a time.  A `SELECT .. FOR UPDATE` first chooses the row, from what is committed at that time, and
later, when nobody else has the row locked, reads it as it is then, if it is still one that was asked for.  What a
transaction writes it writes to rows it has locked, or to new rows, so that its writes are made at its commit; there
the database refuses what its unique indexes do not allow.  A transaction can fail at any time.

The replay of an idempotency key, audit records, events and the contents of prompts are left out.

* `progress`: the statements of `sync_git_prompts`, `record_evaluation`, `promote_prompt` and `rollback_prompt`.
* `RegistryWorld.perform`: one step of one of the transactions that are open.
-/

namespace RevenueOS.Ai

open RevenueOS.Py RevenueOS.Lib RevenueOS.Workflows

/-! ## Tables -/

/-- `PROMPT_STATUSES`. -/
inductive PromptStatus where
  | draft | staging | production | deprecated
deriving DecidableEq, Repr

structure Prompt where
  id : Uuid
  task : String
  version : ℤ
  status : PromptStatus
  contentHash : String
  promotedAt : Option ℤ
  promotedBy : Option Uuid
  rollbackTargetVersion : Option ℤ
  evaluationRunId : Option Uuid

/-- A threshold is the value of the binary64 that is stored. -/
structure AiEvaluationSet where
  id : Uuid
  task : String
  name : String
  version : ℤ
  cases : List Json
  threshold : ℚ

structure AiEvaluationRun where
  id : Uuid
  evaluationSetId : Uuid
  promptId : Option Uuid
  passed : Bool

/-- What is committed. -/
structure Registry where
  prompts : Table Prompt.id
  sets : Table AiEvaluationSet.id
  runs : Table AiEvaluationRun.id

/-- `uq_prompts_one_production`. -/
def OneProduction (prompts : List Prompt) : Prop :=
  ∀ p ∈ prompts, ∀ q ∈ prompts, p.status = .production → q.status = .production → p.task = q.task → p.id = q.id

/-- `task_version`. -/
def UniqueVersions (prompts : List Prompt) : Prop := (prompts.map fun p => (p.task, p.version)).Nodup

/-- `task_name_version`. -/
def UniqueSets (sets : List AiEvaluationSet) : Prop := (sets.map fun s => (s.task, s.name, s.version)).Nodup

instance (prompts : List Prompt) : Decidable (OneProduction prompts) := by
  unfold OneProduction
  infer_instance

instance (prompts : List Prompt) : Decidable (UniqueVersions prompts) := by
  unfold UniqueVersions
  infer_instance

instance (sets : List AiEvaluationSet) : Decidable (UniqueSets sets) := by
  unfold UniqueSets
  infer_instance

/-! ## Calls -/

inductive RegistryError where
  | notFound (message : String)
  | conflict (message : String)
  | validation (message : String)
  | forbidden (message : String)
  | keyError
  /-- A unique index of the database refuses the write. -/
  | integrity
  /-- The connection is lost, or a deadlock is resolved against the transaction. -/
  | aborted

structure RegistryPrincipal where
  userId : Option Uuid
  allows : String → Bool
  actorType : String
  isGlobal : Bool

/-- `_require_platform`. -/
def requirePlatform (principal : RegistryPrincipal) (action : String) : Option RegistryError :=
  if !principal.allows action then some (.forbidden ("missing permission prompt:" ++ action))
  else if principal.actorType != "platform" || !principal.isGlobal then
    some (.forbidden "Prompt mutations require a global platform service principal.")
  else none

/-- A file of the Git registry, with the ids that are drawn for what it creates. -/
structure PromptDocument where
  task : String
  version : ℤ
  contentHash : String
  setName : String
  setVersion : ℤ
  cases : List Json
  threshold : ℚ
  promptId : Uuid
  setId : Uuid

structure EvaluateCall where
  task : String
  version : ℤ
  evaluationSet : String
  evaluationVersion : ℤ
  contentHash : String
  results : List Dict
  runId : Uuid

structure PromoteCall where
  task : String
  version : ℤ
  evaluationRunId : Uuid
  by_ : Option Uuid
  now : ℤ

structure RollbackCall where
  task : String
  targetVersion : ℤ
  by_ : Option Uuid
  now : ℤ

/-! ## Statements -/

/-- The first row of a query. -/
def Registry.select (db : Registry) (p : Prompt → Bool) : Option Prompt := db.prompts.rows.find? p

/-- `Prompt.task == task, Prompt.version == version`. -/
def isVersion (task : String) (version : ℤ) (prompt : Prompt) : Bool :=
  prompt.task == task && prompt.version == version

/-- `Prompt.task == task, Prompt.status == "production"`. -/
def isProduction (task : String) (prompt : Prompt) : Bool := prompt.task == task && prompt.status == .production

/-- `with_for_update`, once the row was chosen: `none` while another transaction has it locked. -/
def Registry.lockRow (db : Registry) (locks : RowLocks Uuid ℕ) (t : ℕ) (chosen : Option Uuid) (p : Prompt → Bool) :
    Option (Option Prompt) :=
  match chosen with
  | none => some none
  | some id => if locks.available t id then some ((db.prompts.find? id).filter p) else none

/-! ### `sync_git_prompts` -/

/-- `canonical_json` of two lists of cases. -/
abbrev SameCases := List Json → List Json → Bool

/-- The draft of a document. -/
def PromptDocument.draft (document : PromptDocument) : Prompt where
  id := document.promptId
  task := document.task
  version := document.version
  status := .draft
  contentHash := document.contentHash
  promotedAt := none
  promotedBy := none
  rollbackTargetVersion := none
  evaluationRunId := none

def PromptDocument.evaluationSet (document : PromptDocument) : AiEvaluationSet :=
  ⟨document.setId, document.task, document.setName, document.setVersion, document.cases, document.threshold⟩

/-- The body of the loop of `sync_git_prompts`: what it adds to what it has created. -/
def syncDocument (sameCases : SameCases) (db : Registry) (document : PromptDocument)
    (created : List Prompt × List AiEvaluationSet) : Except RegistryError (List Prompt × List AiEvaluationSet) :=
  let stored := (db.prompts.rows ++ created.1).find? (isVersion document.task document.version)
  let storedSet := (db.sets.rows ++ created.2).find? fun set =>
    set.task == document.task && set.name == document.setName && set.version == document.setVersion
  if stored.any fun prompt => prompt.contentHash != document.contentHash then
    .error (.conflict "A committed prompt version is immutable; author a new version.")
  else if storedSet.any fun set => !sameCases set.cases document.cases then
    .error (.conflict "A committed evaluation set version is immutable.")
  else .ok
    (if stored.isNone then created.1 ++ [document.draft] else created.1,
      if storedSet.isNone then created.2 ++ [document.evaluationSet] else created.2)

/-! ### `record_evaluation` -/

/-- `{str(case.get("id")) for case in gold.cases if isinstance(case, dict) and case.get("id")}`, with repetitions. -/
def expectedIds (cases : List Json) : List String :=
  cases.filterMap fun
    | .obj case => if (Dict.get case "id").truthy then some (Dict.get case "id").text else none
    | _ => none

/-- The run of an evaluation; `reaches` compares the score with the threshold, in binary64. -/
def EvaluateCall.run (reaches : ℕ → ℕ → ℚ → Bool) (db : Registry) (call : EvaluateCall) :
    Except RegistryError AiEvaluationRun :=
  match db.select (isVersion call.task call.version) with
  | none => .error (.notFound "Prompt version not found; sync the Git registry first.")
  | some prompt =>
    if prompt.contentHash ≠ call.contentHash then
      .error (.conflict "Evaluation content hash does not match the immutable prompt.")
    else
      match db.sets.rows.find? fun set =>
          set.task == call.task && set.name == call.evaluationSet && set.version == call.evaluationVersion with
      | none => .error (.notFound "Evaluation set not found; sync the Git registry first.")
      | some gold =>
        let expected := (expectedIds gold.cases).dedup
        let resultIds := (call.results.map fun item => (item.get "case_id").text).dedup
        if expected.isEmpty || !(expected.all (resultIds.contains ·) && resultIds.all (expected.contains ·)) ||
            call.results.length != resultIds.length then
          .error (.validation "Evaluation results must cover every gold case exactly once.")
        else if !call.results.all fun item => (item.lookup "case_id").isSome && (item.lookup "passed").isSome then
          .error .keyError
        else .ok
          { id := call.runId
            evaluationSetId := gold.id
            promptId := some prompt.id
            passed := reaches (call.results.countP fun item => (item.get "passed").truthy) call.results.length
              gold.threshold }

/-! ### `promote_prompt` and `rollback_prompt` -/

/-- `previous.status = "deprecated"`. -/
def Prompt.deprecate (prompt : Prompt) : Prompt := { prompt with status := .deprecated }

/-- What `promote_prompt` sets. -/
def Prompt.promote (call : PromoteCall) (run : AiEvaluationRun) (prompt : Prompt) : Prompt :=
  { prompt with
    status := .production, promotedAt := some call.now, promotedBy := call.by_, evaluationRunId := some run.id }

/-- What `rollback_prompt` sets on the current prompt. -/
def Prompt.withdraw (call : RollbackCall) (prompt : Prompt) : Prompt :=
  { prompt with status := .deprecated, rollbackTargetVersion := some call.targetVersion }

/-- What `rollback_prompt` sets on its target. -/
def Prompt.restore (call : RollbackCall) (prompt : Prompt) : Prompt :=
  { prompt with status := .production, promotedAt := some call.now, promotedBy := call.by_ }

/-- `run is None or run.prompt_id != target.id or not run.passed`, the other way round. -/
def AiEvaluationRun.supports (run : AiEvaluationRun) (target : Prompt) : Bool :=
  run.promptId == some target.id && run.passed

/-- The check of `promote_prompt` before it looks for the prompt in production. -/
def PromoteCall.check (db : Registry) (call : PromoteCall) (target : Option Prompt) :
    Except RegistryError (Prompt × AiEvaluationRun) :=
  match target with
  | none => .error (.notFound "Prompt version not found.")
  | some target =>
    match (db.runs.find? call.evaluationRunId).filter (·.supports target) with
    | none => .error (.conflict "Promotion requires a passing evaluation for this exact prompt version.")
    | some run => .ok (target, run)

/-- The checks of `rollback_prompt`. -/
def RollbackCall.check (db : Registry) (current target : Option Prompt) : Except RegistryError (Prompt × Prompt) :=
  match current, target with
  | some current, some target =>
    if current.id = target.id then
      .error (.conflict "Rollback requires a different existing production predecessor.")
    else
      match (target.evaluationRunId.bind db.runs.find?).filter (·.supports target) with
      | none => .error (.conflict "Rollback target lacks passing evaluation evidence.")
      | some _ => .ok (current, target)
  | _, _ => .error (.conflict "Rollback requires a different existing production predecessor.")

/-- An `UPDATE` of a prompt. -/
def Registry.update (db : Registry) (id : Uuid) (f : Prompt → Prompt) (hf : ∀ prompt, (f prompt).id = prompt.id) :
    Registry :=
  { db with prompts := db.prompts.modify id f fun prompt h => (hf prompt).trans h }

/-- The writes of `promote_prompt`. -/
def Registry.promote (db : Registry) (call : PromoteCall) (target : Prompt) (run : AiEvaluationRun)
    (previous : Option Prompt) : Registry :=
  let db := match previous.filter (·.id != target.id) with
    | some previous => db.update previous.id Prompt.deprecate fun _ => rfl
    | none => db
  db.update target.id (Prompt.promote call run) fun _ => rfl

/-- The writes of `rollback_prompt`. -/
def Registry.rollback (db : Registry) (call : RollbackCall) (current target : Prompt) : Registry :=
  (db.update current.id (Prompt.withdraw call) fun _ => rfl).update target.id (Prompt.restore call) fun _ => rfl

/-- A write that the unique indexes allow. -/
def Registry.checked (db : Registry) : Except RegistryError Registry :=
  if OneProduction db.prompts.rows ∧ UniqueVersions db.prompts.rows ∧ UniqueSets db.sets.rows then .ok db
  else .error .integrity

/-- The writes of `sync_git_prompts`. -/
def Registry.insert? (db : Registry) (created : List Prompt × List AiEvaluationSet) : Except RegistryError Registry :=
  match db.prompts.append? created.1, db.sets.append? created.2 with
  | some prompts, some sets => { db with prompts := prompts, sets := sets }.checked
  | _, _ => .error .integrity

/-- The write of `record_evaluation`. -/
def Registry.record? (db : Registry) (run : AiEvaluationRun) : Except RegistryError Registry :=
  match db.runs.append? [run] with
  | some runs => .ok { db with runs := runs }
  | none => .error .integrity

/-! ## Transactions -/

/-- What a transaction has done, by the statement that comes next. -/
inductive RegistryTx where
  | syncing (remaining : List PromptDocument) (created : List Prompt × List AiEvaluationSet)
  | evaluating (call : EvaluateCall)
  | recording (run : AiEvaluationRun)
  | selectTarget (call : PromoteCall)
  | awaitTarget (call : PromoteCall) (chosen : Option Uuid)
  | checkTarget (call : PromoteCall) (target : Option Prompt)
  | selectPrevious (call : PromoteCall) (target : Prompt) (run : AiEvaluationRun)
  | awaitPrevious (call : PromoteCall) (target : Prompt) (run : AiEvaluationRun) (chosen : Option Uuid)
  | promoting (call : PromoteCall) (target : Prompt) (run : AiEvaluationRun) (previous : Option Prompt)
  | selectCurrent (call : RollbackCall)
  | awaitCurrent (call : RollbackCall) (chosen : Option Uuid)
  | selectPredecessor (call : RollbackCall) (current : Option Prompt)
  | awaitPredecessor (call : RollbackCall) (current : Option Prompt) (chosen : Option Uuid)
  | checkPredecessor (call : RollbackCall) (current target : Option Prompt)
  | rollingBack (call : RollbackCall) (current target : Prompt)

/-- What a statement comes to. -/
inductive Progress where
  | wait
  | goOn (tx : RegistryTx) (locked : Option Uuid)
  | commit (db : Registry)
  | raise (e : RegistryError)

/-- The commit, or what the database has against it. -/
def Progress.ofWrite : Except RegistryError Registry → Progress
  | .ok db => .commit db
  | .error e => .raise e

section Statements

variable (sameCases : SameCases) (reaches : ℕ → ℕ → ℚ → Bool)

/-- The next statement of a transaction. -/
def progress (db : Registry) (locks : RowLocks Uuid ℕ) (t : ℕ) : RegistryTx → Progress
  | .syncing [] created => .ofWrite (db.insert? created)
  | .syncing (document :: remaining) created =>
    match syncDocument sameCases db document created with
    | .ok created => .goOn (.syncing remaining created) none
    | .error e => .raise e
  | .evaluating call =>
    match call.run reaches db with
    | .ok run => .goOn (.recording run) none
    | .error e => .raise e
  | .recording run => .ofWrite (db.record? run)
  | .selectTarget call => .goOn (.awaitTarget call ((db.select (isVersion call.task call.version)).map Prompt.id)) none
  | .awaitTarget call chosen =>
    match db.lockRow locks t chosen (isVersion call.task call.version) with
    | none => .wait
    | some target => .goOn (.checkTarget call target) (target.map Prompt.id)
  | .checkTarget call target =>
    match call.check db target with
    | .ok (target, run) => .goOn (.selectPrevious call target run) none
    | .error e => .raise e
  | .selectPrevious call target run =>
    .goOn (.awaitPrevious call target run ((db.select (isProduction call.task)).map Prompt.id)) none
  | .awaitPrevious call target run chosen =>
    match db.lockRow locks t chosen (isProduction call.task) with
    | none => .wait
    | some previous => .goOn (.promoting call target run previous) (previous.map Prompt.id)
  | .promoting call target run previous => .ofWrite (db.promote call target run previous).checked
  | .selectCurrent call => .goOn (.awaitCurrent call ((db.select (isProduction call.task)).map Prompt.id)) none
  | .awaitCurrent call chosen =>
    match db.lockRow locks t chosen (isProduction call.task) with
    | none => .wait
    | some current => .goOn (.selectPredecessor call current) (current.map Prompt.id)
  | .selectPredecessor call current =>
    .goOn (.awaitPredecessor call current ((db.select (isVersion call.task call.targetVersion)).map Prompt.id)) none
  | .awaitPredecessor call current chosen =>
    match db.lockRow locks t chosen (isVersion call.task call.targetVersion) with
    | none => .wait
    | some target => .goOn (.checkPredecessor call current target) (target.map Prompt.id)
  | .checkPredecessor call current target =>
    match RollbackCall.check db current target with
    | .ok (current, target) => .goOn (.rollingBack call current target) none
    | .error e => .raise e
  | .rollingBack call current target => .ofWrite (db.rollback call current target).checked

/-- The registry with the transactions that are open. -/
structure RegistryWorld where
  db : Registry
  locks : RowLocks Uuid ℕ
  open_ : ℕ → Option RegistryTx

inductive RegistryStep where
  | sync (t : ℕ) (principal : RegistryPrincipal) (documents : List PromptDocument)
  | evaluate (t : ℕ) (principal : RegistryPrincipal) (call : EvaluateCall)
  | promote (t : ℕ) (principal : RegistryPrincipal) (call : PromoteCall)
  | rollback (t : ℕ) (principal : RegistryPrincipal) (call : RollbackCall)
  /-- The next statement, or the commit. -/
  | advance (t : ℕ)
  | abort (t : ℕ)

/-- What the caller sees of a step. -/
inductive CallOutcome where
  | running
  | returned
  | raised (e : RegistryError)

namespace RegistryWorld

/-- A transaction goes on. -/
def goOn (w : RegistryWorld) (t : ℕ) (tx : RegistryTx) (locked : Option Uuid) : RegistryWorld :=
  { w with locks := w.locks.take t locked, open_ := Function.update w.open_ t (some tx) }

/-- A transaction ends, and its locks with it. -/
def finish (w : RegistryWorld) (t : ℕ) (db : Registry) : RegistryWorld :=
  ⟨db, w.locks.release t, Function.update w.open_ t none⟩

/-- A call, unless the transaction is open already. -/
def begin_ (w : RegistryWorld) (t : ℕ) (principal : RegistryPrincipal) (action : String) (tx : RegistryTx) :
    RegistryWorld × CallOutcome :=
  match w.open_ t, requirePlatform principal action with
  | none, none => (w.goOn t tx none, .running)
  | none, some e => (w, .raised e)
  | some _, _ => (w, .running)

def perform (w : RegistryWorld) : RegistryStep → RegistryWorld × CallOutcome
  | .sync t principal documents => w.begin_ t principal "create" (.syncing documents ([], []))
  | .evaluate t principal call => w.begin_ t principal "update" (.evaluating call)
  | .promote t principal call => w.begin_ t principal "update" (.selectTarget call)
  | .rollback t principal call => w.begin_ t principal "update" (.selectCurrent call)
  | .advance t =>
    match w.open_ t with
    | none => (w, .running)
    | some tx =>
      match progress sameCases reaches w.db w.locks t tx with
      | .wait => (w, .running)
      | .goOn tx locked => (w.goOn t tx locked, .running)
      | .commit db => (w.finish t db, .returned)
      | .raise e => (w.finish t w.db, .raised e)
  | .abort t =>
    match w.open_ t with
    | none => (w, .running)
    | some _ => (w.finish t w.db, .raised .aborted)

def step (w : RegistryWorld) (l : RegistryStep) : RegistryWorld := (w.perform sameCases reaches l).1

end RegistryWorld

end Statements

/-- Nothing is stored, and nobody is connected. -/
def emptyRegistry : RegistryWorld := ⟨⟨.empty, .empty, .empty⟩, .empty, fun _ => none⟩

end RevenueOS.Ai
