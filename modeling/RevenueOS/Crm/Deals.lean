import Mathlib.Data.List.Sort
import RevenueOS.Lib.Table
import RevenueOS.Lib.Trace
import RevenueOS.Py.Text
import RevenueOS.Workflows.Triggers

/-!
# RevenueOS.Crm.Deals — the stage and the status of a deal

`domain/deals/pipeline_policy.py` and `DealService.create`, `move_stage` and `reopen` (`application/crm/deals.py`),
over any stages.  The status follows the stage when a deal is moved.  A closed deal is moved on after it was reopened,
which leaves it where it stands; the audit log says which of the three calls came last.

* `validateStageMove_ok`: what a permitted move says of its deal and its target.
* `deals_sound`: what holds of every deal in every run, and of every change of a status.
* `reopened_incoherent`: a reopened deal is open in a won stage.

Left out: the columns that no rule reads, events, and `update`, which cannot name these columns.
-/

namespace RevenueOS.Crm

open RevenueOS.Py RevenueOS.Lib RevenueOS.Workflows

/-! ## `pipeline_policy` -/

inductive DealStatus where
  | open
  | won
  | lost
  | abandoned
deriving DecidableEq

/-- `ALLOWED_STATUS_TRANSITIONS`. -/
def allowedStatusTransitions : DealStatus → List DealStatus
  | .open => [.won, .lost, .abandoned]
  | .won => [.open]
  | .lost => [.open]
  | .abandoned => [.open]

/-- `CLOSED_STATUSES`. -/
def closedStatuses : List DealStatus := [.won, .lost, .abandoned]

inductive DealError where
  | validation (message : String)
  | notFound (message : String)
  | invalidTransition (message : String)
  | policyViolation (message : String)
  | preconditionFailed (message : String)
  /-- A constraint of the database. -/
  | integrity
deriving DecidableEq

/-- `StageSpec`, with the pipeline of the row. -/
structure StageSpec where
  id : Uuid
  pipelineId : Uuid
  name : String
  position : ℤ
  probability : ℕ
  requiredFields : List String
  isWon : Bool
  isLost : Bool
  allowSkipForward : Bool
  allowBackward : Bool
deriving DecidableEq

structure Deal where
  id : Uuid
  title : String
  amountMinor : ℕ
  currency : String
  probability : ℕ
  status : DealStatus
  lossReason : Option String
  pipelineId : Uuid
  stageId : Uuid
  contactId : Option Uuid
  accountId : Option Uuid
  assigneeId : Option Uuid
  expectedCloseDate : Option ℕ
  closedAt : Option ℕ
  version : ℕ
  deleted : Bool
deriving DecidableEq

/-- `serialize_deal(deal).get(field) in (None, "", [], {})`; the names of the linked rows are not passed. -/
def Deal.lacks (d : Deal) (field : String) : Bool :=
  if field ∈ ["id", "amount_minor", "probability", "status", "pipeline_id", "stage_id", "version", "created_at",
      "updated_at"] then false
  else if field = "title" then d.title = ""
  else if field = "currency" then d.currency = ""
  else if field = "loss_reason" then d.lossReason.getD "" = ""
  else if field = "contact_id" then d.contactId.isNone
  else if field = "account_id" then d.accountId.isNone
  else if field = "assignee_id" then d.assigneeId.isNone
  else if field = "expected_close_date" then d.expectedCloseDate.isNone
  else if field = "closed_at" then d.closedAt.isNone
  else true

/-- The status that `validate_stage_move` gives a deal in a stage. -/
def StageSpec.status (stage : StageSpec) : DealStatus :=
  if stage.isWon then .won else if stage.isLost then .lost else .open

/-- `StageMoveResult`. -/
structure StageMoveResult where
  stageId : Uuid
  status : DealStatus
  probability : ℕ

/-- `validate_stage_move`. -/
def validateStageMove (src dst : StageSpec) (d : Deal) (lossReason : Option String) :
    Except DealError StageMoveResult :=
  if d.status ∈ closedStatuses ∧ !(dst.isWon || dst.isLost) then
    .error (.invalidTransition "a closed opportunity must be reopened before moving stage")
  else if dst.position < src.position ∧ !src.allowBackward then
    .error (.invalidTransition ("moving back from " ++ src.name ++ " is not permitted"))
  else if src.position + 1 < dst.position ∧ !src.allowSkipForward then
    .error (.invalidTransition ("stages cannot be skipped after " ++ src.name))
  else
    let missing := dst.requiredFields.filter d.lacks
    if missing ≠ [] then
      .error (.policyViolation ("stage '" ++ dst.name ++ "' requires: " ++ join ", " missing))
    else if dst.isLost ∧ lossReason.getD "" = "" then
      .error (.policyViolation "a loss reason is required to move to a lost stage")
    else .ok ⟨dst.id, dst.status, dst.probability⟩

/-- `DealStatus.value`. -/
def DealStatus.value : DealStatus → String
  | .open => "open"
  | .won => "won"
  | .lost => "lost"
  | .abandoned => "abandoned"

/-- `assert_status_transition`. -/
def assertStatusTransition (current target : DealStatus) : Except DealError DealStatus :=
  if current = target then .ok target
  else if target ∉ allowedStatusTransitions current then
    .error (.invalidTransition ("cannot move an opportunity from " ++ current.value ++ " to " ++ target.value))
  else .ok target

/-! ## `DealService` -/

/-- What the audit log says was done to a deal. -/
inductive DealAction where
  | create
  | stageChange
  | reopen
deriving DecidableEq

structure DealTables where
  deals : Table Deal.id
  audit : List (Uuid × DealAction)

/-- The caller: the deals in scope, and the contacts and accounts that can be read. -/
structure DealCaller where
  userId : Uuid
  sees : Deal → Bool
  seesContact : Uuid → Bool
  seesAccount : Uuid → Bool

structure DealPayload where
  title : String
  amountMinor : Option ℕ
  currency : Option String
  stageId : Option Uuid
  contactId : Option Uuid
  accountId : Option Uuid
  assigneeId : Option Uuid
  expectedCloseDate : Option ℕ

section Service

variable (stages : Table StageSpec.id)

/-- `_stages`. -/
def stagesOf (pipelineId : Uuid) : List StageSpec :=
  (stages.rows.filter fun s => s.pipelineId = pipelineId).insertionSort fun a b => a.position ≤ b.position

/-- The stage of a new deal: the one that is named, or the first. -/
def initialStage (pipelineId : Uuid) (requested : Option Uuid) : Except DealError StageSpec :=
  match (stagesOf stages pipelineId).head? with
  | none => .error (.validation "This pipeline has no stages.")
  | some first =>
    match requested with
    | none => .ok first
    | some id =>
      match (stagesOf stages pipelineId).find? fun s => s.id = id with
      | none => .error (.notFound "Stage not found.")
      | some stage => .ok stage

/-- The row of `create`. -/
def newDeal (caller : DealCaller) (payload : DealPayload) (id pipelineId : Uuid) (stage : StageSpec) : Deal where
  id := id
  title := slice (strip payload.title) 250
  amountMinor := payload.amountMinor.getD 0
  currency := if payload.currency.getD "" = "" then "INR" else payload.currency.getD ""
  probability := stage.probability
  status := .open
  lossReason := none
  pipelineId := pipelineId
  stageId := stage.id
  contactId := payload.contactId
  accountId := payload.accountId
  assigneeId := payload.assigneeId.or (some caller.userId)
  expectedCloseDate := payload.expectedCloseDate
  closedAt := none
  version := 1
  deleted := false

/-- `DealService.create`, in the pipeline of `ensure_pipeline`. -/
def createDeal (caller : DealCaller) (s : DealTables) (pipelineId id : Uuid) (payload : DealPayload) :
    Except DealError DealTables :=
  if strip payload.title = "" then .error (.validation "A title is required.")
  else
    match initialStage stages pipelineId payload.stageId with
    | .error e => .error e
    | .ok stage =>
      if payload.contactId.any fun c => !caller.seesContact c then .error (.notFound "Contact not found.")
      else if payload.accountId.any fun a => !caller.seesAccount a then .error (.notFound "Account not found.")
      else
        match s.deals.append? [newDeal caller payload id pipelineId stage] with
        | none => .error .integrity
        | some deals => .ok ⟨deals, s.audit ++ [(id, .create)]⟩

/-- `get_scoped_or_404`. -/
def visibleDeal (caller : DealCaller) (s : DealTables) (id : Uuid) : Option Deal :=
  (s.deals.find? id).filter fun d => !d.deleted && caller.sees d

/-- `bump_version` and the flush. -/
def saveDeal (s : DealTables) (d : Deal) (expectedVersion : Option ℕ) (action : DealAction) :
    Except DealError DealTables :=
  if expectedVersion.isSome ∧ expectedVersion ≠ some d.version then
    .error (.preconditionFailed "The resource was modified by someone else.")
  else if 200 < (d.lossReason.getD "").length then .error .integrity
  else .ok ⟨s.deals.set { d with version := d.version + 1 }, s.audit ++ [(d.id, action)]⟩

/-- The row of `move_stage`. -/
def Deal.moved (d : Deal) (result : StageMoveResult) (lossReason : Option String) (now : ℕ) : Deal :=
  { d with
    stageId := result.stageId
    probability := result.probability
    status := result.status
    lossReason :=
      if result.status = .lost then lossReason
      else if result.status = .won then d.lossReason
      else none
    closedAt := if result.status = .won ∨ result.status = .lost then some now else none }

/-- `DealService.move_stage`. -/
def moveStage (caller : DealCaller) (s : DealTables) (now : ℕ) (id targetStageId : Uuid) (lossReason : Option String)
    (expectedVersion : Option ℕ) : Except DealError DealTables :=
  match visibleDeal caller s id with
  | none => .error (.notFound "Deal not found.")
  | some d =>
    match (stagesOf stages d.pipelineId).find? fun s => s.id = targetStageId with
    | none => .error (.notFound "Stage not found.")
    | some target =>
      match (stagesOf stages d.pipelineId).find? fun s => s.id = d.stageId with
      | none => .error (.validation "This deal's current stage no longer exists.")
      | some source =>
        match validateStageMove source target d lossReason with
        | .error e => .error e
        | .ok result => saveDeal s (d.moved result lossReason now) expectedVersion .stageChange

/-- The row of `reopen`. -/
def Deal.reopened (d : Deal) (status : DealStatus) : Deal :=
  { d with
    status := status
    closedAt := none
    lossReason := none }

/-- `DealService.reopen`. -/
def reopenDeal (caller : DealCaller) (s : DealTables) (id : Uuid) (expectedVersion : Option ℕ) :
    Except DealError DealTables :=
  match visibleDeal caller s id with
  | none => .error (.notFound "Deal not found.")
  | some d =>
    match assertStatusTransition d.status .open with
    | .error e => .error e
    | .ok status => saveDeal s (d.reopened status) expectedVersion .reopen

inductive DealStep where
  | create (caller : DealCaller) (pipelineId id : Uuid) (payload : DealPayload)
  | moveStage (caller : DealCaller) (now : ℕ) (id targetStageId : Uuid) (lossReason : Option String)
      (expectedVersion : Option ℕ)
  | reopen (caller : DealCaller) (id : Uuid) (expectedVersion : Option ℕ)

/-- A call; one that raises is rolled back. -/
def DealTables.step (s : DealTables) (l : DealStep) : DealTables :=
  match (match l with
    | .create caller pipelineId id payload => createDeal stages caller s pipelineId id payload
    | .moveStage caller now id targetStageId lossReason expectedVersion =>
      moveStage stages caller s now id targetStageId lossReason expectedVersion
    | .reopen caller id expectedVersion => reopenDeal caller s id expectedVersion) with
  | .ok s' => s'
  | .error _ => s

end Service

/-- No deals yet. -/
def DealTables.empty : DealTables := ⟨Table.empty, []⟩

/-! ## What holds of a deal -/

/-- The last thing that was done to a deal. -/
def lastAction (audit : List (Uuid × DealAction)) (id : Uuid) : Option DealAction :=
  ((audit.filter fun e => e.1 = id).getLast?).map Prod.snd

theorem lastAction_concat_self (audit : List (Uuid × DealAction)) (id : Uuid) (action : DealAction) :
    lastAction (audit ++ [(id, action)]) id = some action := by
  unfold lastAction
  rw [List.filter_append, List.filter_cons_of_pos (by simp), List.filter_nil, List.getLast?_concat]
  rfl

theorem lastAction_concat_of_ne {id id' : Uuid} (h : id' ≠ id) (audit : List (Uuid × DealAction))
    (action : DealAction) : lastAction (audit ++ [(id', action)]) id = lastAction audit id := by
  unfold lastAction
  rw [List.filter_append, List.filter_cons_of_neg (by simpa using h), List.filter_nil, List.append_nil]

structure DealSound (audit : List (Uuid × DealAction)) (d : Deal) (stage : StageSpec) : Prop where
  won : d.status = .won → stage.isWon = true
  lost : d.status = .lost → stage.isLost = true ∧ stage.isWon = false
  moved : lastAction audit d.id = some .stageChange →
    (d.status = .won ↔ stage.isWon = true) ∧ (d.status = .lost ↔ stage.isLost = true ∧ stage.isWon = false)
  reopened : lastAction audit d.id = some .reopen → d.status = .open
  reason : d.status = .lost → d.lossReason.getD "" ≠ ""
  noReason : d.status = .open → d.lossReason = none
  closed : d.closedAt.isSome = true ↔ d.status ∈ closedStatuses

/-- Every deal is sound, in a stage that exists. -/
def DealTables.Sound (stages : Table StageSpec.id) (s : DealTables) : Prop :=
  ∀ d ∈ s.deals.rows, ∃ stage, stages.find? d.stageId = some stage ∧ DealSound s.audit d stage

def DealStep.isMove : DealStep → Bool
  | .moveStage _ _ _ _ _ _ => true
  | _ => false

/-- The status of a deal changes as the policy allows, but for a closed deal that is moved to another closing stage,
and a deal that was open has no loss reason unless it is lost. -/
def ChangeSound (stages : Table StageSpec.id) (s : DealTables) (l : DealStep) : Prop :=
  ∀ d ∈ s.deals.rows, ∀ d' ∈ (s.step stages l).deals.rows, d'.id = d.id →
    (d'.status = d.status ∨ d'.status ∈ allowedStatusTransitions d.status ∨
      l.isMove = true ∧ d.status ∈ closedStatuses ∧ d'.status ∈ closedStatuses) ∧
    (d.status = .open → d'.status ≠ .lost → d'.lossReason = none)

/-- Stage, status, reason and instant agree. -/
def DealTables.Coherent (stages : Table StageSpec.id) (s : DealTables) : Prop :=
  ∀ d ∈ s.deals.rows, ∀ stage, stages.find? d.stageId = some stage →
    (d.status = .won ↔ stage.isWon = true) ∧ (d.status = .lost ↔ stage.isLost = true) ∧
    (d.status = .lost → d.lossReason.getD "" ≠ "") ∧ (d.status ≠ .lost → d.lossReason = none) ∧
    (d.closedAt.isSome = true ↔ d.status ∈ closedStatuses)

/-! ## What the calls do -/

theorem validateStageMove_ok {src dst : StageSpec} {d : Deal} {lossReason : Option String} {result : StageMoveResult}
    (h : validateStageMove src dst d lossReason = .ok result) :
    result.stageId = dst.id ∧ result.status = dst.status ∧
      (d.status ∈ closedStatuses → dst.status ∈ closedStatuses) ∧ (dst.isLost = true → lossReason.getD "" ≠ "") := by
  unfold validateStageMove at h
  dsimp only at h
  split_ifs at h with hclosed _ _ _ hreason
  cases h
  refine ⟨rfl, rfl, fun hstatus => ?_, fun hlost hempty => hreason ⟨hlost, hempty⟩⟩
  unfold StageSpec.status
  by_cases hwon : dst.isWon = true
  · rw [if_pos hwon]
    decide
  · by_cases hlost : dst.isLost = true
    · rw [if_neg hwon, if_pos hlost]
      decide
    · exact absurd ⟨hstatus, by simp [hwon, hlost]⟩ hclosed

/-- How a call rewrites a deal. -/
def Rewrites (stages : Table StageSpec.id) (d d' : Deal) : DealAction → Prop
  | .create => False
  | .stageChange => ∃ stage, stages.find? d'.stageId = some stage ∧ d'.status = stage.status ∧
      (d.status ∈ closedStatuses → d'.status ∈ closedStatuses) ∧
      (d'.status = .lost → d'.lossReason.getD "" ≠ "") ∧ (d'.status = .won → d'.lossReason = d.lossReason) ∧
      (d'.status = .open → d'.lossReason = none) ∧ (d'.closedAt.isSome = true ↔ d'.status ∈ closedStatuses)
  | .reopen => d'.stageId = d.stageId ∧ d'.status = .open ∧ d'.lossReason = none ∧ d'.closedAt = none

section

variable {stages : Table StageSpec.id} {s : DealTables}

theorem status_ne_abandoned (stage : StageSpec) : stage.status ≠ .abandoned := by
  unfold StageSpec.status
  split_ifs <;> decide

theorem mem_rows_of_stagesOf {pipelineId : Uuid} {stage : StageSpec} (h : stage ∈ stagesOf stages pipelineId) :
    stage ∈ stages.rows := by
  unfold stagesOf at h
  rw [List.mem_insertionSort] at h
  exact (List.mem_filter.mp h).1

theorem find?_of_stagesOf {pipelineId id : Uuid} {stage : StageSpec}
    (h : (stagesOf stages pipelineId).find? (fun s => s.id = id) = some stage) : stages.find? id = some stage := by
  have hmem : stage ∈ stages.rows := mem_rows_of_stagesOf (List.mem_of_find?_eq_some h)
  have hid : stage.id = id := by simpa using List.find?_some h
  rw [← hid]
  exact Table.find?_of_mem hmem

theorem find?_of_initialStage {pipelineId : Uuid} {requested : Option Uuid} {stage : StageSpec}
    (h : initialStage stages pipelineId requested = .ok stage) : stages.find? stage.id = some stage := by
  unfold initialStage at h
  split at h
  · cases h
  · rename_i first hfirst
    split at h
    · cases h
      exact Table.find?_of_mem (mem_rows_of_stagesOf (List.mem_of_mem_head? hfirst))
    · split at h
      · cases h
      · rename_i named hnamed
        cases h
        exact Table.find?_of_mem (mem_rows_of_stagesOf (List.mem_of_find?_eq_some hnamed))

/-- A row that is saved replaces the one of its id. -/
theorem saveDeal_ok {d : Deal} {expectedVersion : Option ℕ} {action : DealAction} {s' : DealTables}
    (h : saveDeal s d expectedVersion action = .ok s') :
    s' = ⟨s.deals.set { d with version := d.version + 1 }, s.audit ++ [(d.id, action)]⟩ := by
  unfold saveDeal at h
  split_ifs at h
  exact (Except.ok.inj h).symm

theorem find?_of_visibleDeal {caller : DealCaller} {id : Uuid} {d : Deal} (h : visibleDeal caller s id = some d) :
    s.deals.find? d.id = some d := by
  have hfind : s.deals.find? id = some d := (Option.filter_eq_some_iff.mp h).1
  rw [Table.key_of_find? hfind]
  exact hfind

theorem isWon_of_status {stage : StageSpec} (h : stage.status = .won) : stage.isWon = true := by
  unfold StageSpec.status at h
  split_ifs at h with hwon
  exact hwon

theorem isLost_of_status {stage : StageSpec} (h : stage.status = .lost) :
    stage.isLost = true ∧ stage.isWon = false := by
  unfold StageSpec.status at h
  split_ifs at h with hwon hlost
  exact ⟨hlost, Bool.eq_false_iff.mpr hwon⟩

theorem moved_rewrites {src dst : StageSpec} {d : Deal} {lossReason : Option String} {now : ℕ}
    {result : StageMoveResult} (h : validateStageMove src dst d lossReason = .ok result)
    (hdst : stages.find? dst.id = some dst) : Rewrites stages d (d.moved result lossReason now) .stageChange := by
  obtain ⟨hid, hstatus, hclosed, hreason⟩ := validateStageMove_ok h
  have hnot := status_ne_abandoned dst
  dsimp only [Rewrites, Deal.moved]
  rw [hid, hstatus]
  refine ⟨dst, hdst, rfl, hclosed, fun hlost => ?_, fun hwon => ?_, fun hopen => ?_, ?_⟩
  · rw [if_pos hlost]
    exact hreason (isLost_of_status hlost).1
  · rw [hwon]
    rfl
  · rw [hopen]
    rfl
  · revert hnot
    cases dst.status <;> simp [closedStatuses]

theorem createDeal_ok {caller : DealCaller} {pipelineId id : Uuid} {payload : DealPayload} {s' : DealTables}
    (h : createDeal stages caller s pipelineId id payload = .ok s') :
    ∃ stage deals, stages.find? stage.id = some stage ∧
      s.deals.append? [newDeal caller payload id pipelineId stage] = some deals ∧
      s' = ⟨deals, s.audit ++ [(id, .create)]⟩ := by
  unfold createDeal at h
  by_cases htitle : strip payload.title = ""
  · rw [if_pos htitle] at h
    cases h
  · rw [if_neg htitle] at h
    split at h
    · cases h
    · rename_i stage hstage
      split_ifs at h
      split at h
      · cases h
      · rename_i deals happend
        exact ⟨stage, deals, find?_of_initialStage hstage, happend, (Except.ok.inj h).symm⟩

theorem moveStage_ok {caller : DealCaller} {now : ℕ} {id targetStageId : Uuid} {lossReason : Option String}
    {expectedVersion : Option ℕ} {s' : DealTables}
    (h : moveStage stages caller s now id targetStageId lossReason expectedVersion = .ok s') :
    ∃ d d', s.deals.find? d'.id = some d ∧ Rewrites stages d d' .stageChange ∧
      s' = ⟨s.deals.set d', s.audit ++ [(d'.id, .stageChange)]⟩ := by
  unfold moveStage at h
  split at h
  · cases h
  · rename_i d hvisible
    split at h
    · cases h
    · rename_i target htarget
      split at h
      · cases h
      · split at h
        · cases h
        · rename_i result hvalid
          have hfind := find?_of_stagesOf htarget
          rw [← Table.key_of_find? hfind] at hfind
          refine ⟨d, _, ?_, ?_, saveDeal_ok h⟩
          · exact find?_of_visibleDeal hvisible
          · exact moved_rewrites hvalid hfind

theorem reopenDeal_ok {caller : DealCaller} {id : Uuid} {expectedVersion : Option ℕ} {s' : DealTables}
    (h : reopenDeal caller s id expectedVersion = .ok s') :
    ∃ d d', s.deals.find? d'.id = some d ∧ Rewrites stages d d' .reopen ∧
      s' = ⟨s.deals.set d', s.audit ++ [(d'.id, .reopen)]⟩ := by
  unfold reopenDeal at h
  split at h
  · cases h
  · rename_i d hvisible
    split at h
    · cases h
    · rename_i status hstatus
      refine ⟨d, _, ?_, ?_, saveDeal_ok h⟩
      · exact find?_of_visibleDeal hvisible
      · refine ⟨rfl, ?_, rfl, rfl⟩
        unfold assertStatusTransition at hstatus
        split_ifs at hstatus
        · exact (Except.ok.inj hstatus).symm
        · exact (Except.ok.inj hstatus).symm

/-- What a call does: nothing, a new deal, or one deal rewritten. -/
theorem step_cases (stages : Table StageSpec.id) (s : DealTables) (l : DealStep) :
    s.step stages l = s ∨
      (∃ d stage deals, s.deals.append? [d] = some deals ∧ stages.find? d.stageId = some stage ∧ d.status = .open ∧
        d.lossReason = none ∧ d.closedAt = none ∧ s.step stages l = ⟨deals, s.audit ++ [(d.id, .create)]⟩) ∨
      ∃ d d' action, s.deals.find? d'.id = some d ∧ Rewrites stages d d' action ∧
        (action = .stageChange → l.isMove = true) ∧
        s.step stages l = ⟨s.deals.set d', s.audit ++ [(d'.id, action)]⟩ := by
  cases l with
  | create caller pipelineId id payload =>
    dsimp only [DealTables.step]
    cases hcreate : createDeal stages caller s pipelineId id payload with
    | error e => exact Or.inl rfl
    | ok s' =>
      obtain ⟨stage, deals, hstage, happend, rfl⟩ := createDeal_ok hcreate
      exact Or.inr (Or.inl ⟨_, stage, deals, happend, hstage, rfl, rfl, rfl, rfl⟩)
  | moveStage caller now id targetStageId lossReason expectedVersion =>
    dsimp only [DealTables.step]
    cases hmove : moveStage stages caller s now id targetStageId lossReason expectedVersion with
    | error e => exact Or.inl rfl
    | ok s' =>
      obtain ⟨d, d', hfind, hrewrites, rfl⟩ := moveStage_ok hmove
      exact Or.inr (Or.inr ⟨d, d', .stageChange, hfind, hrewrites, fun _ => rfl, rfl⟩)
  | reopen caller id expectedVersion =>
    dsimp only [DealTables.step]
    cases hreopen : reopenDeal caller s id expectedVersion with
    | error e => exact Or.inl rfl
    | ok s' =>
      obtain ⟨d, d', hfind, hrewrites, rfl⟩ := @reopenDeal_ok stages _ _ _ _ _ hreopen
      exact Or.inr (Or.inr ⟨d, d', .reopen, hfind, hrewrites, DealAction.noConfusion, rfl⟩)

/-! ## A step -/

theorem status_eq_won_iff (stage : StageSpec) : stage.status = .won ↔ stage.isWon = true := by
  refine ⟨isWon_of_status, fun h => ?_⟩
  unfold StageSpec.status
  rw [if_pos h]

theorem status_eq_lost_iff (stage : StageSpec) :
    stage.status = .lost ↔ stage.isLost = true ∧ stage.isWon = false := by
  refine ⟨isLost_of_status, fun h => ?_⟩
  unfold StageSpec.status
  rw [h.2, h.1]
  rfl

/-- An entry of another deal. -/
theorem DealSound.other {audit : List (Uuid × DealAction)} {d : Deal} {stage : StageSpec} (h : DealSound audit d stage)
    {id : Uuid} (hid : id ≠ d.id) (action : DealAction) : DealSound (audit ++ [(id, action)]) d stage where
  won := h.won
  lost := h.lost
  moved := by
    rw [lastAction_concat_of_ne hid]
    exact h.moved
  reopened := by
    rw [lastAction_concat_of_ne hid]
    exact h.reopened
  reason := h.reason
  noReason := h.noReason
  closed := h.closed

/-- A deal that is open: new, or open again. -/
theorem dealSound_of_open (audit : List (Uuid × DealAction)) {d : Deal} (stage : StageSpec) {action : DealAction}
    (hopen : d.status = .open) (hreason : d.lossReason = none) (hclosed : d.closedAt = none)
    (hmove : action ≠ .stageChange) : DealSound (audit ++ [(d.id, action)]) d stage where
  won h := by cases hopen.symm.trans h
  lost h := by cases hopen.symm.trans h
  moved h := by
    rw [lastAction_concat_self] at h
    exact absurd (Option.some.inj h) hmove
  reopened _ := hopen
  reason h := by cases hopen.symm.trans h
  noReason _ := hreason
  closed := by
    rw [hclosed, hopen]
    decide

theorem dealSound_of_moved (audit : List (Uuid × DealAction)) {d' : Deal} {stage : StageSpec}
    (hstatus : d'.status = stage.status) (hreason : d'.status = .lost → d'.lossReason.getD "" ≠ "")
    (hopen : d'.status = .open → d'.lossReason = none)
    (hclosed : d'.closedAt.isSome = true ↔ d'.status ∈ closedStatuses) :
    DealSound (audit ++ [(d'.id, .stageChange)]) d' stage where
  won h := (status_eq_won_iff stage).mp (hstatus ▸ h)
  lost h := (status_eq_lost_iff stage).mp (hstatus ▸ h)
  moved _ := by
    rw [hstatus]
    exact ⟨status_eq_won_iff stage, status_eq_lost_iff stage⟩
  reopened h := by
    rw [lastAction_concat_self] at h
    cases h
  reason := hreason
  noReason := hopen
  closed := hclosed

theorem rewrites_sound {d d' : Deal} {action : DealAction} (h : s.Sound stages) (hfind : s.deals.find? d'.id = some d)
    (hrewrites : Rewrites stages d d' action) :
    ∃ stage, stages.find? d'.stageId = some stage ∧ DealSound (s.audit ++ [(d'.id, action)]) d' stage := by
  cases action with
  | create => exact hrewrites.elim
  | stageChange =>
    obtain ⟨stage, hstage, hstatus, -, hreason, -, hopen, hclosed⟩ := hrewrites
    exact ⟨stage, hstage, dealSound_of_moved s.audit hstatus hreason hopen hclosed⟩
  | reopen =>
    obtain ⟨hsame, hopen, hreason, hclosed⟩ := hrewrites
    obtain ⟨stage, hstage, -⟩ := h d (Table.mem_of_find? hfind)
    exact ⟨stage, hsame ▸ hstage, dealSound_of_open s.audit stage hopen hreason hclosed DealAction.noConfusion⟩

theorem DealTables.Sound.step (h : s.Sound stages) (l : DealStep) : (s.step stages l).Sound stages := by
  rcases step_cases stages s l with heq | ⟨d, stage, deals, happend, hstage, hopen, hreason, hclosed, heq⟩ |
    ⟨d, d', action, hfind, hrewrites, -, heq⟩
  · rw [heq]
    exact h
  · rw [heq]
    intro x hx
    dsimp only at hx
    rw [Table.rows_append? happend] at hx
    rcases List.mem_append.mp hx with hold | hnew
    · obtain ⟨stage', hstage', hsound⟩ := h x hold
      refine ⟨stage', hstage', hsound.other (fun hid => ?_) .create⟩
      -- the new id is not taken
      have htaken : d.id ∈ s.deals.rows.map Deal.id := List.mem_map.mpr ⟨x, hold, hid.symm⟩
      rw [Table.append?_eq_none (List.mem_singleton_self d) htaken] at happend
      cases happend
    · rw [List.mem_singleton.mp hnew]
      exact ⟨stage, hstage, dealSound_of_open s.audit stage hopen hreason hclosed DealAction.noConfusion⟩
  · rw [heq]
    intro x hx
    dsimp only at hx
    rcases Table.mem_set hx with rfl | ⟨hold, hid⟩
    · exact rewrites_sound h hfind hrewrites
    · obtain ⟨stage', hstage', hsound⟩ := h x hold
      exact ⟨stage', hstage', hsound.other (Ne.symm hid) action⟩

/-- A deal that stays as it is. -/
theorem changeSound_self (h : s.Sound stages) {d : Deal} (hd : d ∈ s.deals.rows) (isMove : Bool) :
    (d.status = d.status ∨ d.status ∈ allowedStatusTransitions d.status ∨
      isMove = true ∧ d.status ∈ closedStatuses ∧ d.status ∈ closedStatuses) ∧
    (d.status = .open → d.status ≠ .lost → d.lossReason = none) := by
  obtain ⟨stage, -, hsound⟩ := h d hd
  exact ⟨Or.inl rfl, fun hopen _ => hsound.noReason hopen⟩

theorem rewrites_changeSound {d d' : Deal} {action : DealAction} {l : DealStep} (h : s.Sound stages)
    (hd : d ∈ s.deals.rows) (hrewrites : Rewrites stages d d' action)
    (hmove : action = .stageChange → l.isMove = true) :
    (d'.status = d.status ∨ d'.status ∈ allowedStatusTransitions d.status ∨
      l.isMove = true ∧ d.status ∈ closedStatuses ∧ d'.status ∈ closedStatuses) ∧
    (d.status = .open → d'.status ≠ .lost → d'.lossReason = none) := by
  obtain ⟨stage₀, -, hsound⟩ := h d hd
  cases action with
  | create => exact hrewrites.elim
  | stageChange =>
    obtain ⟨stage, -, hstatus, hclosed, -, hwon, hopen, -⟩ := hrewrites
    have hnot := status_ne_abandoned stage
    rw [← hstatus] at hnot
    refine ⟨?_, fun hd hlost => ?_⟩
    · by_cases hdclosed : d.status ∈ closedStatuses
      · exact Or.inr (Or.inr ⟨hmove rfl, hdclosed, hclosed hdclosed⟩)
      · have hdopen : d.status = .open := by
          revert hdclosed
          cases d.status <;> decide
        have hchange : d'.status = .open ∨ d'.status ∈ allowedStatusTransitions .open := by
          revert hnot
          cases d'.status <;> decide
        rw [hdopen]
        exact hchange.imp_right Or.inl
    · cases hstat : d'.status with
      | «open» => exact hopen hstat
      | won => rw [hwon hstat, hsound.noReason hd]
      | lost => exact absurd hstat hlost
      | abandoned => exact absurd hstat hnot
  | reopen =>
    obtain ⟨-, hopen, hreason, -⟩ := hrewrites
    have hchange : DealStatus.open = d.status ∨ DealStatus.open ∈ allowedStatusTransitions d.status := by
      cases d.status <;> decide
    rw [hopen]
    exact ⟨hchange.imp_right Or.inl, fun _ _ => hreason⟩

theorem DealTables.Sound.changeSound (h : s.Sound stages) (l : DealStep) : ChangeSound stages s l := by
  intro x hx x' hx' hid
  rcases step_cases stages s l with heq | ⟨d, stage, deals, happend, -, -, -, -, heq⟩ |
    ⟨d, d', action, hfind, hrewrites, hmove, heq⟩
  · rw [heq] at hx'
    rw [Table.eq_of_key hx' hx hid]
    exact changeSound_self h hx _
  · rw [heq] at hx'
    dsimp only at hx'
    have hmem : x ∈ deals.rows := by
      rw [Table.rows_append? happend]
      exact List.mem_append_left _ hx
    rw [Table.eq_of_key hx' hmem hid]
    exact changeSound_self h hx _
  · rw [heq] at hx'
    dsimp only at hx'
    rcases Table.mem_set hx' with rfl | ⟨hold, -⟩
    · have hxd : d = x := Table.eq_of_key (Table.mem_of_find? hfind) hx ((Table.key_of_find? hfind).trans hid)
      exact rewrites_changeSound h hx (hxd ▸ hrewrites) hmove
    · rw [Table.eq_of_key hold hx hid]
      exact changeSound_self h hx _

end

/-- **In every run a won deal is in a won stage and a lost deal in a lost stage, a deal that was last moved has the
status of its stage, a reopened deal is open, a lost deal has a reason and an open one has none, and `closed_at` is set
exactly if the deal is closed; a status changes as the policy allows, but for closed deals that are moved.** -/
theorem deals_sound (stages : Table StageSpec.id) (steps : List DealStep) :
    Always (DealTables.step stages) (DealTables.Sound stages) .empty steps ∧
      Meets (DealTables.step stages) (ChangeSound stages) .empty steps := by
  have hstart : DealTables.Sound stages .empty := fun d hd => absurd hd List.not_mem_nil
  have hstep : ∀ s l, DealTables.Sound stages s → ChangeSound stages s l ∧ (s.step stages l).Sound stages :=
    fun s l h => ⟨h.changeSound l, h.step l⟩
  refine ⟨?_, meets_of_inv (DealTables.Sound stages) hstep steps _ hstart⟩
  exact always_of_inv (DealTables.Sound stages) (fun _ h => h) (fun s l h _ => (hstep s l h).2) steps _ hstart
    (meets_of_forall (fun _ _ => trivial) steps _)

/-! ## A deal that is reopened -/

def stageNew : StageSpec := ⟨sampleUuid 'n', sampleUuid 'p', "New", 0, 10, [], false, false, true, true⟩

def stageWon : StageSpec := ⟨sampleUuid 'w', sampleUuid 'p', "Won", 4, 100, [], true, false, true, true⟩

def twoStages : Table StageSpec.id := (Table.empty.insert stageNew).insert stageWon

def dealOwner : DealCaller := ⟨sampleUuid 'u', fun _ => true, fun _ => true, fun _ => true⟩

def plainDeal : DealPayload := ⟨"Renewal", none, none, none, none, none, none, none⟩

/-- A deal is won and reopened. -/
def wonAndReopened : List DealStep :=
  [.create dealOwner (sampleUuid 'p') (sampleUuid 'd') plainDeal,
    .moveStage dealOwner 5 (sampleUuid 'd') (sampleUuid 'w') none none, .reopen dealOwner (sampleUuid 'd') none]

/-- The deal after this run. -/
def reopenedDeal : Deal :=
  { newDeal dealOwner plainDeal (sampleUuid 'd') (sampleUuid 'p') stageNew with
    stageId := sampleUuid 'w'
    probability := 100
    version := 3 }

/-- It is open in the won stage. -/
theorem reopened_incoherent :
    ¬ Always (DealTables.step twoStages) (DealTables.Coherent twoStages) .empty wonAndReopened := by
  intro h
  have hcoherent := always_last h reopenedDeal (by decide +kernel) stageWon (by decide +kernel)
  cases hcoherent.1.mpr rfl

end RevenueOS.Crm
