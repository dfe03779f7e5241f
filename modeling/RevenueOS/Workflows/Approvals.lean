import RevenueOS.Workflows.Dsl
import RevenueOS.Shared.Timeutil
import RevenueOS.Lib.Except
import Mathlib.Data.Finset.Card

/-!
# RevenueOS.Workflows.Approvals — assignee-bound approval decisions

`application/workflows/approvals.py` and the creation of an approval row in `_persist_approval`
(`infrastructure/celery/tasks/workflow.py`).

The row lock serialises the calls of `decide_approval` on one approval, so a history is a list of calls
folded over the row; a call that raises leaves the row as it was.

* `decide_cases`: all that one call can do.
* `approval_protocol`: the invariant of every history (distinct actors, matched tokens, the state against
  `_resolved_state`, absorption, what an approval under `all` and `quorum` rests on).
* `no_deadlock_iff`: when every listed user's vote is enough to resolve an accepted approval.

`_serialize`, the audit record and the outbox event are left out.
-/

namespace RevenueOS.Workflows

open RevenueOS.Py RevenueOS.Lib

/-! ## Rows -/

inductive ApprovalState where
  | requested | approved | rejected | escalated | recalled
deriving DecidableEq, Repr

inductive Verdict where
  | approved | rejected
deriving DecidableEq, Repr

/-- `decision not in {"approved", "rejected"}` is refused. -/
def Verdict.ofString? : String → Option Verdict
  | "approved" => some .approved
  | "rejected" => some .rejected
  | _ => none

structure Principal where
  userId : String
  roles : List String
deriving DecidableEq, Repr

/-- One entry of the `decisions` column. -/
structure Decision where
  actorId : String
  decision : Verdict
  comment : String
  assignees : List String
  decidedAt : ℤ
deriving DecidableEq, Repr

/-- The `WorkflowApproval` row. -/
structure Approval where
  id : String
  executionId : String
  nodeId : String
  state : ApprovalState
  strategy : String
  quorum : ℤ
  assignees : List String
  decisions : List Decision
  summary : String
  dueAt : Option ℤ
  timeoutPath : Json
  resolvedAt : Option ℤ

/-! ## Creation -/

/-- `[str(value) for value in node.get("assignees", [])]`. -/
def assigneeTokens (node : Dict) : Except PyError (List String) := do
  return (← (node.getD "assignees" (.arr [])).iter).map Json.text

/-- The row `_persist_approval` inserts for an approval node, at the instant `now` (microseconds). -/
def newApproval (id executionId nodeId : String) (now : ℤ) (node : Dict) : Except PyError Approval := do
  let dueSeconds ← ((node.get "due_seconds").or (.int 0)).toInt
  let quorum ← ((node.get "quorum").or (.int 1)).toInt
  let assignees ← assigneeTokens node
  return {
    id, executionId, nodeId
    state := .requested
    strategy := ((node.get "strategy").or (.str "any")).text
    quorum, assignees
    decisions := []
    summary := slice ((node.get "summary").or (.str "Workflow approval required")).text 1000
    dueAt := if 0 < dueSeconds then some (now + dueSeconds * 1000000) else none
    timeoutPath := node.get "timeout_path"
    resolvedAt := none }

/-- The columns of the row hold its values: texts within their lengths, a 32-bit quorum, and a timeout path that is
null or a text. -/
def Approval.storable (row : Approval) : Bool :=
  row.nodeId.length ≤ 120 && row.strategy.length ≤ 20 && Shared.cInt row.quorum &&
    match row.timeoutPath with
    | .null => true
    | .str path => path.length ≤ 60
    | _ => false

/-- What the validator leaves open of the row that a node asks for at the instant `now`. -/
structure Requestable (now : ℤ) (node : Dict) : Prop where
  due : ∃ n, ((node.get "due_seconds").or (.int 0)).toInt = .ok n ∧
    (0 < n → Shared.inRange (now + n * 1000000) = true)
  quorum : ∃ n, ((node.get "quorum").or (.int 1)).toInt = .ok n ∧ Shared.cInt n = true
  timeoutPath : node.get "timeout_path" = .null ∨ ∃ path, node.get "timeout_path" = .str path ∧ path.length ≤ 60

/-! ## Decisions -/

/-- The tokens a principal holds: its user token and its role tokens. -/
def Principal.tokens (p : Principal) : List String := ("user:" ++ p.userId) :: p.roles.map ("role:" ++ ·)

/-- `_matching_assignees`. -/
def matchingAssignees (assignees : List String) (p : Principal) : List String :=
  (p.tokens.filter (fun t => assignees.contains t)).dedup

/-- `_resolved_state`. -/
def resolvedState (strategy : String) (quorum : ℤ) (assignees : List String) (decisions : List Decision) :
    Option ApprovalState :=
  let approved := decisions.filter (fun d => d.decision == .approved)
  let rejected := decisions.filter (fun d => d.decision == .rejected)
  if strategy = "any" then
    if approved ≠ [] then some .approved else if rejected ≠ [] then some .rejected else none
  else if strategy = "all" then
    if rejected ≠ [] then some .rejected
    else if assignees.all (fun t => (approved.flatMap (·.assignees)).contains t) then some .approved
    else none
  else if quorum ≤ approved.length then some .approved
  else if max 0 ((assignees.length : ℤ) - quorum) < rejected.length then some .rejected
  else none

/-- The exceptions of `decide_approval`, with their messages. -/
inductive ApiError where
  | validationError (message : String)
  | forbidden (message : String)
  | conflict (message : String)
deriving DecidableEq, Repr

/-- A call of `decide_approval`. -/
structure DecideCall where
  principal : Principal
  decision : String
  comment : String
  moment : ℤ
deriving DecidableEq, Repr

/-- What a call returns; `resolved` is what it just resolved to. -/
structure DecideOutcome where
  approval : Approval
  duplicate : Bool
  resolved : Option ApprovalState

/-- `resume` of the returned dictionary. -/
def DecideOutcome.resume (o : DecideOutcome) : Bool := o.resolved == some .approved

/-- The entry a call records. -/
def DecideCall.record (c : DecideCall) (assignees : List String) (verdict : Verdict) : Decision :=
  ⟨c.principal.userId, verdict, slice c.comment 1000,
    (matchingAssignees assignees c.principal).insertionSort (· ≤ ·), c.moment⟩

/-- The row with one more decision, resolved if the decisions now resolve it. -/
def Approval.withDecision (row : Approval) (c : DecideCall) (verdict : Verdict) : Approval :=
  let decisions := row.decisions ++ [c.record row.assignees verdict]
  let resolved := resolvedState row.strategy row.quorum row.assignees decisions
  { row with
    decisions
    state := resolved.getD row.state
    resolvedAt := if resolved.isSome then some c.moment else row.resolvedAt }

/-- `decide_approval` on the locked row. -/
def decideApproval (row : Approval) (c : DecideCall) : Except ApiError DecideOutcome :=
  match Verdict.ofString? c.decision with
  | none => .error (.validationError "Decision must be approved or rejected.")
  | some verdict =>
    if matchingAssignees row.assignees c.principal = [] then
      .error (.forbidden "This approval is not assigned to you or your roles.")
    else if row.state ≠ .requested then
      match row.decisions.find? (fun d => d.actorId == c.principal.userId) with
      | some prior =>
        if prior.decision = verdict then .ok ⟨row, true, none⟩
        else .error (.conflict "This approval has already been resolved.")
      | none => .error (.conflict "This approval has already been resolved.")
    else if row.decisions.any (fun d => d.actorId == c.principal.userId) then
      .error (.conflict "You have already decided this approval.")
    else
      .ok ⟨row.withDecision c verdict, false, resolvedState row.strategy row.quorum row.assignees
        (row.decisions ++ [c.record row.assignees verdict])⟩

/-- The row after a call: an exception rolls the transaction back. -/
def applyCall (row : Approval) (c : DecideCall) : Approval :=
  match decideApproval row c with
  | .ok o => o.approval
  | .error _ => row

/-- The row after a history of calls. -/
def runCalls (row : Approval) (calls : List DecideCall) : Approval := calls.foldl applyCall row

/-! ## What a call can do -/

section Facts

variable {row row' : Approval} {c : DecideCall} {calls : List DecideCall}

theorem mem_matchingAssignees {assignees : List String} {p : Principal} {t : String} :
    t ∈ matchingAssignees assignees p ↔ t ∈ assignees ∧ t ∈ p.tokens := by
  simp [matchingAssignees, and_comm]

/-- A call that records: the row was open, the actor new, and some assignee token matched. -/
structure Records (row : Approval) (c : DecideCall) (verdict : Verdict) : Prop where
  decision : Verdict.ofString? c.decision = some verdict
  matched : matchingAssignees row.assignees c.principal ≠ []
  requested : row.state = .requested
  fresh : ∀ d ∈ row.decisions, d.actorId ≠ c.principal.userId

theorem applyCall_of_records {verdict : Verdict} (h : Records row c verdict) :
    applyCall row c = row.withDecision c verdict := by
  have hany : row.decisions.any (fun d => d.actorId == c.principal.userId) = false := by
    simpa using h.fresh
  unfold applyCall decideApproval
  rw [h.decision]
  simp only [if_neg h.matched, if_neg (not_not.mpr h.requested), hany, Bool.false_eq_true, if_false]

/-- **One call** either leaves the row alone or records a decision. -/
theorem decide_cases (row : Approval) (c : DecideCall) :
    applyCall row c = row ∨ ∃ verdict, Records row c verdict ∧ applyCall row c = row.withDecision c verdict := by
  cases hd : Verdict.ofString? c.decision with
  | none => exact Or.inl (by simp [applyCall, decideApproval, hd])
  | some verdict =>
    by_cases hm : matchingAssignees row.assignees c.principal = []
    · exact Or.inl (by simp [applyCall, decideApproval, hd, hm])
    by_cases hs : row.state = .requested
    · by_cases hf : ∀ d ∈ row.decisions, d.actorId ≠ c.principal.userId
      · have hr : Records row c verdict := ⟨hd, hm, hs, hf⟩
        exact Or.inr ⟨verdict, hr, applyCall_of_records hr⟩
      · have hany : row.decisions.any (fun d => d.actorId == c.principal.userId) = true := by
          simpa using hf
        exact Or.inl (by simp [applyCall, decideApproval, hd, hm, hs, hany])
    · refine Or.inl ?_
      unfold applyCall decideApproval
      rw [hd]
      simp only [if_neg hm, if_pos hs]
      cases row.decisions.find? (fun d => d.actorId == c.principal.userId) with
      | none => rfl
      | some prior =>
        simp only
        split_ifs <;> rfl

@[simp] theorem withDecision_decisions (v : Verdict) :
    (row.withDecision c v).decisions = row.decisions ++ [c.record row.assignees v] := rfl

theorem withDecision_state (v : Verdict) : (row.withDecision c v).state =
    (resolvedState row.strategy row.quorum row.assignees (row.withDecision c v).decisions).getD row.state := rfl

/-- The columns no call writes. -/
theorem applyCall_fixed (row : Approval) (c : DecideCall) : (applyCall row c).strategy = row.strategy ∧
    (applyCall row c).quorum = row.quorum ∧ (applyCall row c).assignees = row.assignees := by
  obtain h | ⟨v, -, h⟩ := decide_cases row c <;> rw [h]
  · exact ⟨rfl, rfl, rfl⟩
  · exact ⟨rfl, rfl, rfl⟩

theorem runCalls_fixed (row : Approval) (calls : List DecideCall) :
    (runCalls row calls).strategy = row.strategy ∧ (runCalls row calls).quorum = row.quorum ∧
      (runCalls row calls).assignees = row.assignees := by
  induction calls generalizing row with
  | nil => exact ⟨rfl, rfl, rfl⟩
  | cons c calls ih =>
    obtain ⟨h1, h2, h3⟩ := applyCall_fixed row c
    obtain ⟨i1, i2, i3⟩ := ih (applyCall row c)
    exact ⟨i1.trans h1, i2.trans h2, i3.trans h3⟩

/-- A resolved row absorbs every call. -/
theorem applyCall_resolved (h : row.state ≠ .requested) (c : DecideCall) : applyCall row c = row := by
  obtain h' | ⟨v, hr, -⟩ := decide_cases row c
  · exact h'
  · exact absurd hr.requested h

theorem runCalls_resolved (h : row.state ≠ .requested) (calls : List DecideCall) : runCalls row calls = row := by
  induction calls with
  | nil => rfl
  | cons c calls ih =>
    rw [runCalls, List.foldl_cons, applyCall_resolved h]
    exact ih

theorem resolvedState_ne_requested {strategy : String} {quorum : ℤ} {assignees : List String}
    {decisions : List Decision} : resolvedState strategy quorum assignees decisions ≠ some .requested := by
  unfold resolvedState
  simp only
  split_ifs <;> simp

/-- Approved under `all`: every token is covered and nobody rejected. -/
theorem resolvedState_all {quorum : ℤ} {assignees : List String} {decisions : List Decision}
    (h : resolvedState "all" quorum assignees decisions = some .approved) :
    (∀ t ∈ assignees, ∃ d ∈ decisions, d.decision = .approved ∧ t ∈ d.assignees) ∧
      ∀ d ∈ decisions, d.decision ≠ .rejected := by
  unfold resolvedState at h
  simp only [show ("all" : String) ≠ "any" by decide, if_false, if_true] at h
  split_ifs at h with h1 h2
  · cases h
  · rw [not_not] at h1
    refine ⟨?_, ?_⟩
    · intro t ht
      have := List.all_eq_true.mp h2 t ht
      obtain ⟨d, hd, htd⟩ := List.mem_flatMap.mp (List.contains_iff_mem.mp this)
      rw [List.mem_filter, beq_iff_eq] at hd
      exact ⟨d, hd.1, hd.2, htd⟩
    · intro d hd hrej
      have : d ∈ decisions.filter (fun d => d.decision == .rejected) :=
        List.mem_filter.mpr ⟨hd, by simp [hrej]⟩
      rw [h1] at this
      cases this

/-- Approved under `quorum`: the approvals reach it. -/
theorem resolvedState_quorum {quorum : ℤ} {assignees : List String} {decisions : List Decision}
    (h : resolvedState "quorum" quorum assignees decisions = some .approved) :
    quorum ≤ (decisions.filter (fun d => d.decision == .approved)).length := by
  unfold resolvedState at h
  simp only [show ("quorum" : String) ≠ "any" by decide, show ("quorum" : String) ≠ "all" by decide,
    if_false] at h
  split_ifs at h with h1
  · exact h1
  · cases h

end Facts

/-! ## The protocol -/

/-- The actors whose decision approved. -/
def Approval.approvers (row : Approval) : List String :=
  (row.decisions.filter (fun d => d.decision == .approved)).map (·.actorId)

/-- The approval protocol, after the history `calls` of an approval created as `row₀`. -/
structure Protocol (row₀ : Approval) (calls : List DecideCall) : Prop where
  distinct : ((runCalls row₀ calls).decisions.map (·.actorId)).Nodup
  matched : ∀ d ∈ (runCalls row₀ calls).decisions, d.assignees ≠ [] ∧ ∃ c ∈ calls,
    c.principal.userId = d.actorId ∧ ∀ t ∈ d.assignees, t ∈ row₀.assignees ∧ t ∈ c.principal.tokens
  requested_iff : (runCalls row₀ calls).state = .requested ↔
    resolvedState row₀.strategy row₀.quorum row₀.assignees (runCalls row₀ calls).decisions = none
  absorbing : (runCalls row₀ calls).state ≠ .requested → ∀ more,
    (runCalls row₀ (calls ++ more)).state = (runCalls row₀ calls).state ∧
      (runCalls row₀ (calls ++ more)).decisions = (runCalls row₀ calls).decisions
  all : row₀.strategy = "all" → (runCalls row₀ calls).state = .approved →
    (∀ t ∈ row₀.assignees, ∃ d ∈ (runCalls row₀ calls).decisions, d.decision = .approved ∧ t ∈ d.assignees) ∧
      ∀ d ∈ (runCalls row₀ calls).decisions, d.decision ≠ .rejected
  quorum : row₀.strategy = "quorum" → (runCalls row₀ calls).state = .approved →
    row₀.quorum ≤ (runCalls row₀ calls).approvers.toFinset.card

/-- A freshly requested approval. -/
def Approval.Created (row : Approval) : Prop := row.state = .requested ∧ row.decisions = []

/-- What creation keeps out: nobody to ask under `all`, a quorum of nobody. -/
def Approval.Sensible (row : Approval) : Prop :=
  (row.strategy = "all" → row.assignees ≠ []) ∧
    (row.strategy ≠ "any" → row.strategy ≠ "all" → 1 ≤ row.quorum)

theorem resolvedState_nil {row : Approval} (h : row.Sensible) :
    resolvedState row.strategy row.quorum row.assignees [] = none := by
  unfold resolvedState
  by_cases h1 : row.strategy = "any"
  · simp [h1]
  by_cases h2 : row.strategy = "all"
  · obtain ⟨t, ht⟩ := List.exists_mem_of_ne_nil _ (h.1 h2)
    have hall : row.assignees.all (fun _ => false) = false := by
      rw [List.all_eq_false]
      exact ⟨t, ht, by simp⟩
    simp [h2, hall]
  · have hq := h.2 h1 h2
    have h0 : ¬ row.quorum ≤ 0 := by omega
    simp [h1, h2, h0]

/-- What a history keeps: distinct matched actors, and the state as `_resolved_state` of the decisions. -/
structure HistoryInv (row₀ : Approval) (calls : List DecideCall) (row : Approval) : Prop where
  distinct : (row.decisions.map (·.actorId)).Nodup
  matched : ∀ d ∈ row.decisions, d.assignees ≠ [] ∧ ∃ c ∈ calls,
    c.principal.userId = d.actorId ∧ ∀ t, t ∈ d.assignees ↔ t ∈ row₀.assignees ∧ t ∈ c.principal.tokens
  state : row.state = (resolvedState row₀.strategy row₀.quorum row₀.assignees row.decisions).getD .requested

theorem HistoryInv.step {row₀ row : Approval} {calls : List DecideCall} (h : HistoryInv row₀ calls row)
    (hrow : row.strategy = row₀.strategy ∧ row.quorum = row₀.quorum ∧ row.assignees = row₀.assignees)
    (c : DecideCall) : HistoryInv row₀ (calls ++ [c]) (applyCall row c) := by
  obtain he | ⟨v, hr, he⟩ := decide_cases row c
  · rw [he]
    refine ⟨h.distinct, ?_, h.state⟩
    intro d hd
    obtain ⟨hne, c', hc', hm⟩ := h.matched d hd
    exact ⟨hne, c', List.mem_append_left _ hc', hm⟩
  · rw [he]
    obtain ⟨h1, h2, h3⟩ := hrow
    refine ⟨?_, ?_, ?_⟩
    · rw [withDecision_decisions, List.map_append, List.nodup_append]
      refine ⟨h.distinct, List.nodup_singleton _, ?_⟩
      rintro a ha b hb rfl
      obtain ⟨d, hd, rfl⟩ := List.mem_map.mp ha
      exact hr.fresh d hd (List.mem_singleton.mp hb)
    · intro d hd
      rw [withDecision_decisions] at hd
      rcases List.mem_append.mp hd with hd | hd
      · obtain ⟨hne, c', hc', hm⟩ := h.matched d hd
        exact ⟨hne, c', List.mem_append_left _ hc', hm⟩
      · obtain rfl := List.mem_singleton.mp hd
        have hmem : ∀ t, t ∈ (c.record row.assignees v).assignees ↔
            t ∈ row₀.assignees ∧ t ∈ c.principal.tokens := by
          intro t
          rw [← h3, ← mem_matchingAssignees]
          exact List.mem_insertionSort _
        refine ⟨?_, c, by simp, rfl, hmem⟩
        obtain ⟨t, ht⟩ := List.exists_mem_of_ne_nil _ hr.matched
        exact List.ne_nil_of_mem ((List.mem_insertionSort _).mpr ht)
    · rw [withDecision_state, hr.requested, h1, h2, h3]

theorem runCalls_concat (row : Approval) (calls : List DecideCall) (c : DecideCall) :
    runCalls row (calls ++ [c]) = applyCall (runCalls row calls) c := by
  simp [runCalls, List.foldl_append]

theorem historyInv {row₀ : Approval} (hc : row₀.Created) (hs : row₀.Sensible) (calls : List DecideCall) :
    HistoryInv row₀ calls (runCalls row₀ calls) := by
  induction calls using List.reverseRecOn with
  | nil =>
    refine ⟨?_, ?_, ?_⟩
    · simp [runCalls, hc.2]
    · simp [runCalls, hc.2]
    · simp [runCalls, hc.1, hc.2, resolvedState_nil hs]
  | append_singleton calls c ih =>
    rw [runCalls_concat]
    exact ih.step (runCalls_fixed row₀ calls) c

/-- **The protocol.**  Every history of a sensible approval keeps it. -/
theorem approval_protocol (row₀ : Approval) (hc : row₀.Created) (hs : row₀.Sensible) (calls : List DecideCall) :
    Protocol row₀ calls := by
  have h := historyInv hc hs calls
  have hresolved : (runCalls row₀ calls).state = .approved →
      resolvedState row₀.strategy row₀.quorum row₀.assignees (runCalls row₀ calls).decisions =
        some .approved := by
    intro ha
    have hst := h.state
    rw [ha] at hst
    cases hr : resolvedState row₀.strategy row₀.quorum row₀.assignees (runCalls row₀ calls).decisions with
    | none => rw [hr] at hst; cases hst
    | some s => rw [hr] at hst; rw [Option.getD_some] at hst; rw [← hst]
  refine ⟨h.distinct, ?_, ?_, ?_, ?_, ?_⟩
  · intro d hd
    obtain ⟨hne, c, hcm, hu, ht⟩ := h.matched d hd
    exact ⟨hne, c, hcm, hu, fun t => (ht t).mp⟩
  · rw [h.state]
    cases hr : resolvedState row₀.strategy row₀.quorum row₀.assignees (runCalls row₀ calls).decisions with
    | none => simp
    | some s =>
      have : s ≠ .requested := by
        rintro rfl
        exact resolvedState_ne_requested hr
      simp [this]
  · intro hst more
    have : runCalls row₀ (calls ++ more) = runCalls row₀ calls := by
      rw [runCalls, List.foldl_append]
      exact runCalls_resolved hst more
    rw [this]
    exact ⟨rfl, rfl⟩
  · intro hall ha
    have hr := hresolved ha
    rw [hall] at hr
    exact resolvedState_all hr
  · intro hq ha
    have hr := hresolved ha
    rw [hq] at hr
    have hnd : (runCalls row₀ calls).approvers.Nodup := h.distinct.sublist (List.filter_sublist.map _)
    rw [List.toFinset_card_of_nodup hnd, Approval.approvers, List.length_map]
    exact resolvedState_quorum hr

/-- A request to two colleagues, both of whom must approve. -/
def pairApproval : Approval :=
  ⟨"approval", "execution", "node", .requested, "all", 1, ["user:a", "user:b"], [], "", none, .null, none⟩

theorem pairApproval_protocol : pairApproval.Created ∧ pairApproval.Sensible ∧
    Protocol pairApproval [⟨⟨"a", []⟩, "approved", "", 0⟩, ⟨⟨"b", []⟩, "approved", "", 1⟩] :=
  ⟨⟨rfl, rfl⟩, ⟨fun _ => by decide, fun _ h => absurd rfl h⟩,
    approval_protocol pairApproval ⟨rfl, rfl⟩ ⟨fun _ => by decide, fun _ h => absurd rfl h⟩ _⟩

/-- With nobody to ask, `all` is resolved from the start although the state says requested. -/
theorem emptyApproval_violates : ¬ ∀ (row₀ : Approval) (calls : List DecideCall), row₀.Created →
    Protocol row₀ calls := by
  intro h
  have hp := (h { pairApproval with assignees := [] } [] ⟨rfl, rfl⟩).requested_iff
  exact absurd (hp.mp rfl) (by decide)

/-! ## Deadlock -/

theorem decisions_mono (row : Approval) (c : DecideCall) {d : Decision} (h : d ∈ row.decisions) :
    d ∈ (applyCall row c).decisions := by
  obtain he | ⟨v, -, he⟩ := decide_cases row c <;> rw [he]
  · exact h
  · exact List.mem_append_left _ h

/-- While an approval stays requested, every valid vote of an assignee is on record. -/
theorem recorded_of_requested {row : Approval} {calls : List DecideCall}
    (h : (runCalls row calls).state = .requested) :
    ∀ c ∈ calls, (Verdict.ofString? c.decision).isSome = true →
      matchingAssignees row.assignees c.principal ≠ [] →
      ∃ d ∈ (runCalls row calls).decisions, d.actorId = c.principal.userId := by
  induction calls using List.reverseRecOn with
  | nil => intro c hc; cases hc
  | append_singleton calls c ih =>
    rw [runCalls_concat] at h ⊢
    have hprev : (runCalls row calls).state = .requested := by
      by_contra hne
      rw [applyCall_resolved hne] at h
      exact hne h
    intro c' hc' hv hm
    rcases List.mem_append.mp hc' with hc' | hc'
    · obtain ⟨d, hd, ha⟩ := ih hprev c' hc' hv hm
      exact ⟨d, decisions_mono _ _ hd, ha⟩
    · obtain rfl := List.mem_singleton.mp hc'
      obtain ⟨v, hv⟩ := Option.isSome_iff_exists.mp hv
      by_cases hf : ∀ d ∈ (runCalls row calls).decisions, d.actorId ≠ c'.principal.userId
      · have hr : Records (runCalls row calls) c' v :=
          ⟨hv, by rwa [(runCalls_fixed row calls).2.2], hprev, hf⟩
        rw [applyCall_of_records hr]
        exact ⟨_, List.mem_append_right _ (List.mem_singleton.mpr rfl), rfl⟩
      · push Not at hf
        obtain ⟨d, hd, ha⟩ := hf
        exact ⟨d, decisions_mono _ _ hd, ha⟩

theorem length_approved_add_rejected (decisions : List Decision) :
    (decisions.filter (fun d => d.decision == .approved)).length +
      (decisions.filter (fun d => d.decision == .rejected)).length = decisions.length := by
  induction decisions with
  | nil => rfl
  | cons d ds ih =>
    cases hd : d.decision <;> simp [hd] <;> omega

/-- An open quorum vote, in numbers. -/
theorem resolvedState_quorum_none {quorum : ℤ} {assignees : List String} {decisions : List Decision} :
    resolvedState "quorum" quorum assignees decisions = none ↔
      ((decisions.filter (fun d => d.decision == .approved)).length : ℤ) < quorum ∧
        ((decisions.filter (fun d => d.decision == .rejected)).length : ℤ) ≤
          max 0 ((assignees.length : ℤ) - quorum) := by
  unfold resolvedState
  simp only [show ("quorum" : String) ≠ "any" by decide, show ("quorum" : String) ≠ "all" by decide,
    if_false]
  split_ifs with h1 h2
  · simp only [false_iff]; omega
  · simp only [false_iff]; omega
  · simp only [true_iff]; omega

theorem resolvedState_any_none {quorum : ℤ} {assignees : List String} {decisions : List Decision}
    (h : resolvedState "any" quorum assignees decisions = none) : decisions = [] := by
  have hlen := length_approved_add_rejected decisions
  unfold resolvedState at h
  simp only [if_true] at h
  split_ifs at h with h1 h2
  rw [not_not] at h1 h2
  rw [h1, h2] at hlen
  exact List.length_eq_zero_iff.mp hlen.symm

/-- An open `all` vote has no rejection, and some token uncovered. -/
theorem resolvedState_all_none {quorum : ℤ} {assignees : List String} {decisions : List Decision}
    (h : resolvedState "all" quorum assignees decisions = none) :
    (∀ d ∈ decisions, d.decision = .approved) ∧ ∃ t ∈ assignees, ∀ d ∈ decisions, t ∉ d.assignees := by
  unfold resolvedState at h
  simp only [show ("all" : String) ≠ "any" by decide, if_false, if_true] at h
  split_ifs at h with h1 h2
  rw [not_not] at h1
  have happ : ∀ d ∈ decisions, d.decision = .approved := by
    intro d hd
    cases hdd : d.decision with
    | approved => rfl
    | rejected =>
      have : d ∈ decisions.filter (fun d => d.decision == .rejected) := List.mem_filter.mpr ⟨hd, by simp [hdd]⟩
      rw [h1] at this
      cases this
  refine ⟨happ, ?_⟩
  rw [Bool.not_eq_true, List.all_eq_false] at h2
  obtain ⟨t, ht, hcov⟩ := h2
  refine ⟨t, ht, fun d hd htd => hcov ?_⟩
  rw [List.contains_iff_mem, List.mem_flatMap]
  exact ⟨d, List.mem_filter.mpr ⟨hd, by simp [happ d hd]⟩, htd⟩

/-- The row an insertion makes: an open request with the node's strategy, quorum and assignees. -/
theorem newApproval_ok {id executionId nodeId : String} {now : ℤ} {node : Dict} {row : Approval}
    (h : newApproval id executionId nodeId now node = .ok row) :
    row.Created ∧ row.strategy = ((node.get "strategy").or (.str "any")).text ∧
      ((node.get "quorum").or (.int 1)).toInt = .ok row.quorum ∧ assigneeTokens node = .ok row.assignees := by
  unfold newApproval at h
  obtain ⟨due, -, h⟩ := bind_eq_ok.mp h
  obtain ⟨quorum, hquorum, h⟩ := bind_eq_ok.mp h
  obtain ⟨tokens, htokens, h⟩ := bind_eq_ok.mp h
  obtain rfl := pure_eq_ok.mp h
  exact ⟨⟨rfl, rfl⟩, rfl, hquorum, htokens⟩

theorem newApproval_nodeId {id executionId nodeId : String} {now : ℤ} {node : Dict} {row : Approval}
    (h : newApproval id executionId nodeId now node = .ok row) : row.nodeId = nodeId := by
  unfold newApproval at h
  obtain ⟨due, -, h⟩ := bind_eq_ok.mp h
  obtain ⟨quorum, -, h⟩ := bind_eq_ok.mp h
  obtain ⟨tokens, -, h⟩ := bind_eq_ok.mp h
  rw [← pure_eq_ok.mp h]

/-- The validator's check of the assignees: a non-empty list, stored token by token. -/
theorem assignees_accepted {node : Dict} {tokens : List String}
    (h : (node.get "assignees").list?.any (fun xs => !xs.isEmpty) = true) (ht : assigneeTokens node = .ok tokens) :
    tokens ≠ [] ∧ ∃ xs, (node.get "assignees").list? = some xs ∧ xs.length = tokens.length := by
  unfold Dict.get at h
  cases hl : node.lookup "assignees" with
  | none => simp [hl, Json.list?] at h
  | some v =>
    cases v with
    | arr xs =>
      simp only [assigneeTokens, Dict.getD, hl, Option.getD_some, Json.iter] at ht
      obtain rfl := pure_eq_ok.mp ht
      have hne : xs ≠ [] := by simpa [hl, Json.list?] using h
      exact ⟨by simpa using hne, xs, by simp [Dict.get, hl, Json.list?], by simp⟩
    | _ => simp [hl, Json.list?] at h

/-- A positive quorum is stored as the validator read it. -/
theorem quorum_stored {node : Dict} {q n : ℤ} (hq : (node.getD "quorum" (.int 1)).int? = some q) (hpos : 1 ≤ q)
    (hn : ((node.get "quorum").or (.int 1)).toInt = .ok n) : n = q := by
  unfold Dict.getD at hq
  unfold Dict.get at hn
  cases hl : node.lookup "quorum" with
  | none =>
    simp only [hl, Option.getD_none, Json.int?, Option.some.injEq] at hq
    simp only [hl, Option.getD_none, Json.or, Json.truthy, Bool.false_eq_true, if_false, Json.toInt,
      Except.ok.injEq] at hn
    omega
  | some v =>
    simp only [hl, Option.getD_some] at hq hn
    cases v with
    | int m =>
      simp only [Json.int?, Option.some.injEq] at hq
      have htrue : (Json.int m).truthy = true := by simp only [Json.truthy, bne_iff_ne]; omega
      simp only [Json.or, htrue, if_true, Json.toInt, Except.ok.injEq] at hn
      omega
    | bool b =>
      cases b with
      | false =>
        have h0 : (0 : ℤ) = q := by simpa [Json.int?] using hq
        omega
      | true =>
        simp only [Json.int?, if_true, Option.some.injEq] at hq
        simp only [Json.or, Json.truthy, if_true, Json.toInt, Except.ok.injEq] at hn
        omega
    | _ => simp [Json.int?] at hq

/-- What the validator and the insertion together guarantee about the row of an approval node. -/
theorem newApproval_accepted {path id executionId nodeId : String} {now : ℤ} {node : Dict} {row : Approval}
    (hv : validateApproval path node = []) (hrow : newApproval id executionId nodeId now node = .ok row) :
    row.assignees ≠ [] ∧ (row.strategy = "any" ∨ row.strategy = "all" ∨ row.strategy = "quorum") ∧
      (row.strategy = "quorum" → 1 ≤ row.quorum ∧ row.quorum ≤ row.assignees.length) := by
  obtain ⟨-, hstrategy, hquorum, htokens⟩ := newApproval_ok hrow
  unfold validateApproval at hv
  simp only [List.append_eq_nil_iff, problemIf_eq_nil, Bool.not_eq_false', Bool.and_eq_false_iff,
    beq_eq_false_iff_ne] at hv
  obtain ⟨⟨hass, hkind⟩, hfit⟩ := hv
  rw [← hstrategy] at hkind hfit
  obtain ⟨hne, xs, hxs, hlen⟩ := assignees_accepted hass htokens
  refine ⟨hne, by simpa using hkind, ?_⟩
  intro hq
  have hfit := hfit.resolve_left (not_not.mpr hq)
  rw [hxs] at hfit
  split at hfit
  · rename_i q ys hq' hys
    obtain rfl := Option.some.inj hys
    simp only [Bool.and_eq_true, decide_eq_true_eq] at hfit
    obtain rfl := quorum_stored hq' hfit.1 hquorum
    rwa [hlen] at hfit
  · cases hfit

/-- An accepted node that is requestable makes a row that can be stored. -/
theorem Requestable.storable {path id executionId nodeId : String} {now : ℤ} {node : Dict}
    (h : Requestable now node) (hv : validateApproval path node = []) (hid : nodeId.length ≤ 120) :
    ∃ row, newApproval id executionId nodeId now node = .ok row ∧ row.dueAt.all Shared.inRange = true ∧
      row.storable = true := by
  obtain ⟨due, hdue, hrange⟩ := h.due
  obtain ⟨quorum, hquorum, hfits⟩ := h.quorum
  unfold validateApproval at hv
  simp only [List.append_eq_nil_iff, problemIf_eq_nil, Bool.not_eq_false'] at hv
  obtain ⟨⟨hass, hkind⟩, -⟩ := hv
  obtain ⟨tokens, htokens⟩ : ∃ tokens, assigneeTokens node = .ok tokens := by
    unfold assigneeTokens Dict.getD
    unfold Dict.get at hass
    cases hl : node.lookup "assignees" with
    | none => simp [hl, Json.list?] at hass
    | some v => cases v <;> simp_all [Json.list?, Json.iter, bind, Except.bind, pure, Except.pure]
  have hstrategy : ((node.get "strategy").or (.str "any")).text.length ≤ 20 := by
    simp only [List.contains_iff_mem, List.mem_cons, List.not_mem_nil, or_false] at hkind
    rcases hkind with hk | hk | hk <;> rw [hk] <;> decide
  refine ⟨_, by simp only [newApproval, hdue, hquorum, htokens, bind, Except.bind]; rfl, ?_, ?_⟩
  · simp only
    split_ifs with hpos
    · simpa using hrange hpos
    · rfl
  · simp only [Approval.storable, hid, hstrategy, hfits, decide_true, Bool.true_and]
    rcases h.timeoutPath with hp | ⟨path, hp, hlen⟩
    · rw [hp]
    · rw [hp]
      simpa using hlen

/-- No accepted node makes a row that is resolved before anybody decided. -/
theorem sensible_of_accepted {path id executionId nodeId : String} {now : ℤ} {node : Dict} {row : Approval}
    (hv : validateApproval path node = []) (hrow : newApproval id executionId nodeId now node = .ok row) :
    row.Sensible := by
  obtain ⟨hne, hkind, hq⟩ := newApproval_accepted hv hrow
  refine ⟨fun _ => hne, ?_⟩
  intro h1 h2
  rcases hkind with h | h | h
  · exact absurd h h1
  · exact absurd h h2
  · exact (hq h).1

/-- Once every user has cast a decision, the approval is resolved. -/
def NeverDeadlocks (row : Approval) (users : List String) : Prop :=
  ∀ calls : List DecideCall,
    (∀ u ∈ users, ∃ c ∈ calls, c.principal.userId = u ∧ (Verdict.ofString? c.decision).isSome = true) →
    (runCalls row calls).state ≠ .requested

/-- Enough votes: every strategy resolves when all users have voted, a quorum if they are distinct. -/
theorem neverDeadlocks_of {row : Approval} {users : List String} (hc : row.Created) (hs : row.Sensible)
    (hu : row.assignees = users.map ("user:" ++ ·)) (hne : users ≠ [])
    (hstr : row.strategy = "any" ∨ row.strategy = "all" ∨
      row.strategy = "quorum" ∧ row.quorum ≤ row.assignees.length ∧ users.Nodup) :
    NeverDeadlocks row users := by
  intro calls hcast hreq
  have hinv := historyInv hc hs calls
  have hnone := (approval_protocol row hc hs calls).requested_iff.mp hreq
  set ds := (runCalls row calls).decisions with hds
  -- every user's vote is on record, with the user's own token
  have hrec : ∀ u ∈ users, ∃ d ∈ ds, d.actorId = u := by
    intro u hmem
    obtain ⟨c, hcm, rfl, hv⟩ := hcast u hmem
    refine recorded_of_requested hreq c hcm hv (List.ne_nil_of_mem (a := "user:" ++ c.principal.userId) ?_)
    rw [mem_matchingAssignees, hu]
    exact ⟨List.mem_map.mpr ⟨_, hmem, rfl⟩, List.mem_cons_self⟩
  rcases hstr with hstr | hstr | ⟨hstr, hq, hnd⟩
  · obtain ⟨u, hmem⟩ := List.exists_mem_of_ne_nil _ hne
    obtain ⟨d, hd, -⟩ := hrec u hmem
    rw [hstr] at hnone
    rw [resolvedState_any_none hnone] at hd
    cases hd
  · rw [hstr] at hnone
    obtain ⟨-, t, ht, hopen⟩ := resolvedState_all_none hnone
    rw [hu] at ht
    obtain ⟨u, hmem, rfl⟩ := List.mem_map.mp ht
    obtain ⟨d, hd, rfl⟩ := hrec u hmem
    obtain ⟨-, c, -, hactor, htok⟩ := hinv.matched d hd
    apply hopen d hd
    rw [htok, hu, ← hactor]
    exact ⟨List.mem_map.mpr ⟨_, by rw [hactor]; exact hmem, rfl⟩, List.mem_cons_self⟩
  · rw [hstr, resolvedState_quorum_none] at hnone
    have hlen := length_approved_add_rejected ds
    have hcount : users.length ≤ ds.length := by
      have hsub : users ⊆ ds.map (·.actorId) := by
        intro u hmem
        obtain ⟨d, hd, rfl⟩ := hrec u hmem
        exact List.mem_map.mpr ⟨d, hd, rfl⟩
      have := (List.subperm_of_subset hnd hsub).length_le
      rwa [List.length_map] at this
    have hn : row.assignees.length = users.length := by rw [hu, List.length_map]
    omega

/-- A vote by a user without roles. -/
def voteCall (uv : String × Verdict) : DecideCall :=
  ⟨⟨uv.1, []⟩, match uv.2 with | .approved => "approved" | .rejected => "rejected", "", 0⟩

theorem voteCall_decision (uv : String × Verdict) : Verdict.ofString? (voteCall uv).decision = some uv.2 := by
  obtain ⟨u, v⟩ := uv
  cases v <;> rfl

/-- Votes that stay short of both thresholds leave a quorum open. -/
theorem runCalls_open : ∀ (votes : List (String × Verdict)) (row : Approval), row.strategy = "quorum" →
    row.state = .requested → (votes.map (·.1)).Nodup →
    (∀ uv ∈ votes, "user:" ++ uv.1 ∈ row.assignees ∧ ∀ d ∈ row.decisions, d.actorId ≠ uv.1) →
    ((row.decisions.filter (fun d => d.decision == .approved)).length : ℤ) +
      (votes.filter (fun uv => uv.2 == .approved)).length < row.quorum →
    ((row.decisions.filter (fun d => d.decision == .rejected)).length : ℤ) +
      (votes.filter (fun uv => uv.2 == .rejected)).length ≤ max 0 ((row.assignees.length : ℤ) - row.quorum) →
    (runCalls row (votes.map voteCall)).state = .requested
  | [], row, _, hreq, _, _, _, _ => hreq
  | (u, v) :: votes, row, hstr, hreq, hnd, hall, ha, hr => by
    obtain ⟨htok, hfresh⟩ := hall (u, v) List.mem_cons_self
    rw [List.map_cons, List.nodup_cons] at hnd
    have hmatch : matchingAssignees row.assignees (voteCall (u, v)).principal ≠ [] :=
      List.ne_nil_of_mem (mem_matchingAssignees.mpr ⟨htok, List.mem_cons_self⟩)
    have hrec : Records row (voteCall (u, v)) v := ⟨voteCall_decision (u, v), hmatch, hreq, hfresh⟩
    rw [List.map_cons, runCalls, List.foldl_cons, applyCall_of_records hrec]
    have hcount : ∀ w : Verdict,
        (((row.withDecision (voteCall (u, v)) v).decisions.filter (fun d => d.decision == w)).length : ℤ) +
          (votes.filter (fun uv => uv.2 == w)).length =
        ((row.decisions.filter (fun d => d.decision == w)).length : ℤ) +
          (((u, v) :: votes).filter (fun uv => uv.2 == w)).length := by
      intro w
      rw [withDecision_decisions, List.filter_append, List.length_append, List.filter_cons]
      by_cases hvw : v = w
      · simp [DecideCall.record, hvw]; omega
      · simp [DecideCall.record, hvw]
    refine runCalls_open votes _ hstr ?_ hnd.2 ?_ ?_ ?_
    · rw [withDecision_state, hstr, hreq, resolvedState_quorum_none.mpr, Option.getD_none]
      have h1 := hcount .approved
      have h2 := hcount .rejected
      omega
    · intro uv huv
      refine ⟨(hall uv (List.mem_cons_of_mem _ huv)).1, ?_⟩
      intro d hd
      rw [withDecision_decisions] at hd
      rcases List.mem_append.mp hd with hd | hd
      · exact (hall uv (List.mem_cons_of_mem _ huv)).2 d hd
      · obtain rfl := List.mem_singleton.mp hd
        rintro rfl
        exact hnd.1 (List.mem_map.mpr ⟨uv, huv, rfl⟩)
    · have h1 := hcount .approved
      exact h1 ▸ ha
    · have h2 := hcount .rejected
      exact h2 ▸ hr

theorem length_filter_votes (us : List String) (v w : Verdict) :
    ((us.map (fun u => (u, v))).filter (fun uv => uv.2 == w)).length = if v = w then us.length else 0 := by
  rw [List.filter_map, List.length_map]
  by_cases h : v = w
  · simp [h, Function.comp_def]
  · simp [h, Function.comp_def]

/-- Repeated assignees leave room for a tie: approvals up to one short of the quorum, then rejections. -/
theorem deadlock_of_repeated {row : Approval} {users : List String} (hc : row.Created)
    (hstr : row.strategy = "quorum") (hq : 1 ≤ row.quorum ∧ row.quorum ≤ row.assignees.length)
    (hu : row.assignees = users.map ("user:" ++ ·)) (hnd : ¬ users.Nodup) : ¬ NeverDeadlocks row users := by
  have hlt : users.dedup.length < users.length := by
    refine lt_of_le_of_ne (List.dedup_sublist users).length_le fun he => hnd ?_
    rw [← (List.dedup_sublist users).eq_of_length he]
    exact List.nodup_dedup users
  have hn : row.assignees.length = users.length := by rw [hu, List.length_map]
  set a := (row.quorum - 1).toNat
  let votes := (users.dedup.take a).map (fun u => (u, Verdict.approved)) ++
    (users.dedup.drop a).map (fun u => (u, Verdict.rejected))
  have hfst : votes.map (·.1) = users.dedup := by simp [votes, Function.comp_def]
  intro hnever
  refine hnever (votes.map voteCall) ?_ (runCalls_open votes row hstr hc.1 ?_ ?_ ?_ ?_)
  · intro u hmem
    rw [← List.mem_dedup, ← hfst] at hmem
    obtain ⟨uv, huv, rfl⟩ := List.mem_map.mp hmem
    exact ⟨voteCall uv, List.mem_map.mpr ⟨uv, huv, rfl⟩, rfl, by rw [voteCall_decision]; rfl⟩
  · rw [hfst]
    exact List.nodup_dedup users
  · intro uv huv
    have hmem : uv.1 ∈ users := by
      rw [← List.mem_dedup, ← hfst]
      exact List.mem_map.mpr ⟨uv, huv, rfl⟩
    rw [hu, hc.2]
    exact ⟨List.mem_map.mpr ⟨_, hmem, rfl⟩, fun d hd => absurd hd List.not_mem_nil⟩
  · have : (votes.filter (fun uv => uv.2 == .approved)).length = min a users.dedup.length := by
      simp only [votes, List.filter_append, List.length_append, length_filter_votes]
      simp
    rw [this, hc.2]
    simp only [List.filter_nil, List.length_nil]
    omega
  · have : (votes.filter (fun uv => uv.2 == .rejected)).length = users.dedup.length - a := by
      simp only [votes, List.filter_append, List.length_append, length_filter_votes]
      simp
    rw [this, hc.2]
    simp only [List.filter_nil, List.length_nil]
    omega

/-- **No deadlock**, exactly: an accepted approval of user tokens resolves once all have voted, unless it
counts a quorum over a list that names somebody twice. -/
theorem no_deadlock_iff {path id executionId nodeId : String} {now : ℤ} {node : Dict} {row : Approval}
    {users : List String} (hv : validateApproval path node = [])
    (hrow : newApproval id executionId nodeId now node = .ok row)
    (hu : assigneeTokens node = .ok (users.map ("user:" ++ ·))) :
    NeverDeadlocks row users ↔
      ((((node.get "strategy").or (.str "any")).text = "quorum") → users.Nodup) := by
  obtain ⟨hc, hstr, -, htokens⟩ := newApproval_ok hrow
  obtain ⟨hne, hkind, hq⟩ := newApproval_accepted hv hrow
  have hs := sensible_of_accepted hv hrow
  have hass : row.assignees = users.map ("user:" ++ ·) := Except.ok.inj (htokens.symm.trans hu)
  rw [← hstr]
  constructor
  · intro hnever hquorum
    by_contra hnd
    exact deadlock_of_repeated hc hquorum (hq hquorum) hass hnd hnever
  · intro hnd
    refine neverDeadlocks_of hc hs hass (by rintro rfl; simp [hass] at hne) ?_
    rcases hkind with h | h | h
    · exact Or.inl h
    · exact Or.inr (Or.inl h)
    · exact Or.inr (Or.inr ⟨h, (hq h).2, hnd h⟩)

/-- An approval node that asks for a quorum of two. -/
def quorumNode (assignees : List Json) : Dict :=
  [("id", .str "gate"), ("type", .str "approval"), ("assignees", .arr assignees), ("strategy", .str "quorum"),
    ("quorum", .int 2)]

def quorumRow (assignees : List String) : Approval :=
  ⟨"approval", "execution", "gate", .requested, "quorum", 2, assignees, [], "Workflow approval required", none,
    .null, none⟩

theorem quorum_of_two_resolves : validateApproval "nodes[0]" (quorumNode [.str "user:a", .str "user:b"]) = [] ∧
    NeverDeadlocks (quorumRow ["user:a", "user:b"]) ["a", "b"] :=
  ⟨by decide, (@no_deadlock_iff "nodes[0]" "approval" "execution" "gate" 0
    (quorumNode [.str "user:a", .str "user:b"]) (quorumRow ["user:a", "user:b"]) ["a", "b"]
      (by decide) rfl rfl).mpr (fun _ => by decide)⟩

/-- One assignee listed twice can never fill a quorum of two: her approval leaves the request open. -/
theorem repeated_assignee_deadlocks :
    validateApproval "nodes[0]" (quorumNode [.str "user:a", .str "user:a"]) = [] ∧
      newApproval "approval" "execution" "gate" 0 (quorumNode [.str "user:a", .str "user:a"]) =
        .ok (quorumRow ["user:a", "user:a"]) ∧
      ¬ NeverDeadlocks (quorumRow ["user:a", "user:a"]) ["a", "a"] := by
  refine ⟨by decide, rfl, fun h => h [voteCall ("a", .approved)] ?_ (by decide)⟩
  intro u hu
  have : u = "a" := by simpa using hu
  subst this
  exact ⟨_, List.mem_singleton.mpr rfl, rfl, rfl⟩

end RevenueOS.Workflows
