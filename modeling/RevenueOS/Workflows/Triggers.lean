import RevenueOS.Workflows.Dsl
import RevenueOS.Workflows.Executor
import RevenueOS.Lib.Except
import RevenueOS.Lib.Trace

/-!
# RevenueOS.Workflows.Triggers — executions started by domain events

`handle_domain_event` and `_create_triggered_execution` (`application/workflows/triggers.py`),
`publish_workflow` (`application/workflows/service.py`) and `execution_idempotency_key`, over the tables of
one tenant (every query runs in its tenant session).

A delivery reads the matching definitions with their active versions in one transaction and then inserts
one execution per row, each in a transaction of its own; anything may happen in between, and a delivery may
be lost at any point.  The insert does nothing when its idempotency key is taken.

* `atMostOnce_step_iff`: one step keeps executions unique per workflow and event exactly if it is steady.
* `replay_once_iff`: so does a whole run.  `republished_runs_twice` is a run that is not steady.

Outbox events, audit records and the enqueued task are left out.
-/

namespace RevenueOS.Workflows

open RevenueOS.Py RevenueOS.Lib

/-! ## Keys -/

/-- The text of a UUID: 36 characters. -/
structure Uuid where
  text : String
  length_eq : text.length = 36
deriving DecidableEq

/-- `execution_idempotency_key`. -/
def executionIdempotencyKey (workflowId versionId triggerEventId : Uuid) : String :=
  "wf:" ++ workflowId.text ++ ":" ++ versionId.text ++ ":" ++ triggerEventId.text

theorem Uuid.ext {a b : Uuid} (h : a.text.toList = b.text.toList) : a = b := by
  obtain ⟨a, ha⟩ := a
  obtain ⟨b, hb⟩ := b
  obtain rfl : a = b := String.toList_inj.mp h
  rfl

theorem Uuid.length_toList (a : Uuid) : a.text.toList.length = 36 := a.length_eq

/-- The key determines its three ids. -/
theorem executionIdempotencyKey_inj {w v e w' v' e' : Uuid}
    (h : executionIdempotencyKey w v e = executionIdempotencyKey w' v' e') : w = w' ∧ v = v' ∧ e = e' := by
  have hl := congrArg String.toList h
  simp only [executionIdempotencyKey, String.toList_append, List.append_assoc] at hl
  have h1 := List.append_inj (List.append_cancel_left hl) (by rw [w.length_toList, w'.length_toList])
  have h2 := List.append_inj (List.append_cancel_left h1.2) (by rw [v.length_toList, v'.length_toList])
  exact ⟨Uuid.ext h1.1, Uuid.ext h2.1, Uuid.ext (List.append_cancel_left h2.2)⟩

/-! ## Tables -/

structure Version where
  id : Uuid
  content : Dict
  contentHash : String
  published : Bool

structure Definition where
  id : Uuid
  name : String
  isActive : Bool
  killSwitch : Bool
  paused : Bool
  deleted : Bool
  activeVersionId : Option Uuid

/-- The columns of a triggered `WorkflowExecution` that its creation sets, but for its own id. -/
structure TriggeredExecution where
  workflowId : Uuid
  versionId : Uuid
  contentHash : String
  triggerType : String
  triggerEventId : Uuid
  triggerPayload : Dict
  entity : Dict
  state : ExecutionState
  idempotencyKey : String
  correlationId : Json

/-! ## Matching -/

/-- `dict(x or {})` of a value that is an object if anything. -/
def dictOr (x : Json) : Except PyError Dict :=
  match x.or (.obj []) with
  | .obj d => .ok d
  | _ => .error .typeError

/-- `explicit` event types, when the trigger names any. -/
def explicitMatches (explicit : Json) (eventType : String) : Bool :=
  match explicit with
  | .str s => s == eventType
  | .arr xs => (xs.map Json.text).contains eventType
  | _ => true

/-- The fields an update event names as changed. -/
def changedFields : Json → List String
  | .str s => [s]
  | .arr xs => xs.map Json.text
  | _ => []

/-- `_matches_trigger`. -/
def matchesTrigger (trigger payload : Dict) : Except PyError Bool := do
  let eventType := ((payload.get "event_type").or (.str "")).text
  let triggerType := ((trigger.get "type").or (.str "")).text
  if !explicitMatches ((trigger.get "event_types").or (trigger.get "event_type")) eventType then return false
  let resource ← dictOr (payload.get "resource")
  let entityType := ((resource.get "type").or (.str "")).text
  let configured := ((trigger.get "entity").or (.str "")).text
  if configured != "" && configured != entityType then return false
  match triggerType with
  | "entity.created" =>
    return endsWith eventType ".created" || ["lead.created", "contact.created"].contains eventType
  | "entity.updated" => return endsWith eventType ".updated"
  | "entity.field_changed" => do
    let changed := changedFields ((← dictOr (payload.get "data")).getD "changed" (.arr []))
    return endsWith eventType ".updated" &&
      (!(trigger.get "field").truthy || changed.contains (trigger.get "field").text)
  | "deal.stage_changed" => return eventType == "opportunity.stage_changed"
  | "message.inbound" => return eventType == "conversation.message_received"
  | "payment.event" => return startsWith eventType "payment."
  | "appointment.event" => return startsWith eventType "appointment."
  | "document.event" => return startsWith eventType "document."
  | "approval.event" => return startsWith eventType "approval."
  | _ => return false

/-! ## Deliveries -/

/-- A delivery in progress: the event and the rows its loop has still to visit. -/
structure Delivery where
  eventId : Uuid
  payload : Dict
  rows : List (Definition × Version)

structure TriggerState where
  definitions : List Definition
  versions : List Version
  executions : List TriggeredExecution
  deliveries : List Delivery

/-- The joined rows a delivery reads. -/
def TriggerState.liveRows (s : TriggerState) : List (Definition × Version) :=
  (s.definitions.filter (fun d => d.isActive && !d.killSwitch && !d.paused && !d.deleted)).filterMap (fun d =>
    (s.versions.find? (fun v => d.activeVersionId == some v.id && v.published)).map (fun v => (d, v)))

/-- `handle_domain_event` up to its loop.  `admitted`: the event type is known, the tenant exists and its plan
and flag allow workflows. -/
def handleDomainEvent (s : TriggerState) (eventId : Uuid) (payload : Dict) (admitted : Bool) : TriggerState :=
  if admitted then { s with deliveries := s.deliveries ++ [⟨eventId, payload, s.liveRows⟩] } else s

/-- The row `_create_triggered_execution` inserts. -/
def triggeredExecution (eventId : Uuid) (payload : Dict) (d : Definition) (v : Version) :
    Except PyError TriggeredExecution := do
  let resource ← dictOr (payload.get "resource")
  let data ← dictOr (payload.get "data")
  let trigger ← (v.content.getD "trigger" (.obj [])).asDict
  return {
    workflowId := d.id
    versionId := v.id
    contentHash := v.contentHash
    triggerType := (Dict.get trigger "type").text
    triggerEventId := eventId
    triggerPayload := payload
    entity := data.merge [("id", resource.get "id"), ("type", resource.get "type")]
    state := .pending
    idempotencyKey := executionIdempotencyKey d.id v.id eventId
    correlationId := payload.get "correlation_id" }

/-- `insert .. on conflict do nothing`. -/
def insertExecution (executions : List TriggeredExecution) (x : TriggeredExecution) : List TriggeredExecution :=
  if executions.any (fun y => y.idempotencyKey == x.idempotencyKey) then executions else executions ++ [x]

/-- What the loop does with one row: nothing, an insert, or an exception. -/
def visitRow (eventId : Uuid) (payload : Dict) (d : Definition) (v : Version) :
    Except PyError (Option TriggeredExecution) := do
  let trigger ← dictOr (v.content.get "trigger")
  if ← matchesTrigger trigger payload then return some (← triggeredExecution eventId payload d v)
  return none

/-- One turn of the loop of delivery `k`; an exception ends the delivery. -/
def visitNext (s : TriggerState) (k : ℕ) : TriggerState :=
  match s.deliveries[k]? with
  | some ⟨eventId, payload, (d, v) :: rest⟩ =>
    match visitRow eventId payload d v with
    | .ok (some x) =>
      { s with
        executions := insertExecution s.executions x
        deliveries := s.deliveries.set k ⟨eventId, payload, rest⟩ }
    | .ok none => { s with deliveries := s.deliveries.set k ⟨eventId, payload, rest⟩ }
    | .error _ => { s with deliveries := s.deliveries.set k ⟨eventId, payload, []⟩ }
  | _ => s

/-! ## Publication -/

section System

variable (py : Interpreter)

/-- `publish_workflow`; the two ids are what `uuid7` draws. -/
def publishWorkflow (s : TriggerState) (document : Dict) (newWorkflow newVersion : Uuid) : TriggerState :=
  match compileWorkflow py document with
  | .error _ => s
  | .ok plan =>
    let name := slice (strip (document.get "name").text) 200
    let version : Version := ⟨newVersion, document, plan.contentHash, true⟩
    match s.definitions.find? (fun d => d.name == name && !d.deleted) with
    | none =>
      { s with
        definitions := s.definitions ++ [⟨newWorkflow, name, true, false, false, false, some newVersion⟩]
        versions := s.versions ++ [version] }
    | some definition =>
      let active := s.versions.find? (fun v => definition.activeVersionId == some v.id)
      if active.any (fun v => v.contentHash == plan.contentHash) then s
      else
        { s with
          definitions := s.definitions.map (fun d =>
            if d.id = definition.id then { d with isActive := true, activeVersionId := some newVersion } else d)
          versions := s.versions ++ [version] }

/-- The steps of the system. -/
inductive TriggerStep where
  | deliver (eventId : Uuid) (payload : Dict) (admitted : Bool)
  | visit (k : ℕ)
  | lose (k : ℕ)
  | publish (document : Dict) (newWorkflow newVersion : Uuid)

def TriggerState.step (s : TriggerState) : TriggerStep → TriggerState
  | .deliver eventId payload admitted => handleDomainEvent s eventId payload admitted
  | .visit k => visitNext s k
  | .lose k => { s with deliveries := s.deliveries.eraseIdx k }
  | .publish document newWorkflow newVersion => publishWorkflow py s document newWorkflow newVersion

/-! ## Uniqueness -/

/-- At most one execution for each workflow and event. -/
def AtMostOnce (s : TriggerState) : Prop :=
  (s.executions.map (fun x => (x.workflowId, x.triggerEventId))).Nodup

/-- The execution delivery `k` is about to insert. -/
def pendingInsert (s : TriggerState) (k : ℕ) : Option TriggeredExecution :=
  match s.deliveries[k]? with
  | some ⟨eventId, payload, (d, v) :: _⟩ => (visitRow eventId payload d v).toOption.join
  | _ => none

/-- A turn of a delivery is steady when every execution its workflow already has for the event pins the
version the delivery read as active; every other step is. -/
def Steady (s : TriggerState) : TriggerStep → Prop
  | .visit k => ∀ x, pendingInsert s k = some x → ∀ y ∈ s.executions,
      y.workflowId = x.workflowId → y.triggerEventId = x.triggerEventId → y.versionId = x.versionId
  | _ => True

/-- Every execution carries the key of its ids. -/
def Keyed (x : TriggeredExecution) : Prop :=
  x.idempotencyKey = executionIdempotencyKey x.workflowId x.versionId x.triggerEventId

/-- The row a turn of the loop inserts is for the definition, the version and the event of that turn. -/
theorem visitRow_ids {eventId : Uuid} {payload : Dict} {d : Definition} {v : Version} {x : TriggeredExecution}
    (h : visitRow eventId payload d v = .ok (some x)) :
    x.workflowId = d.id ∧ x.versionId = v.id ∧ x.triggerEventId = eventId ∧ Keyed x := by
  unfold visitRow at h
  obtain ⟨trigger, -, h⟩ := bind_eq_ok.mp h
  obtain ⟨b, -, h⟩ := bind_eq_ok.mp h
  split_ifs at h
  · obtain ⟨y, hy, h⟩ := bind_eq_ok.mp h
    obtain rfl := Option.some.inj (pure_eq_ok.mp h)
    unfold triggeredExecution at hy
    obtain ⟨_, -, hy⟩ := bind_eq_ok.mp hy
    obtain ⟨_, -, hy⟩ := bind_eq_ok.mp hy
    obtain ⟨_, -, hy⟩ := bind_eq_ok.mp hy
    obtain rfl := pure_eq_ok.mp hy
    exact ⟨rfl, rfl, rfl, rfl⟩
  · exact absurd (pure_eq_ok.mp h) (by simp)

theorem keyed_pendingInsert {s : TriggerState} {k : ℕ} {x : TriggeredExecution}
    (h : pendingInsert s k = some x) : Keyed x := by
  unfold pendingInsert at h
  split at h
  · rename_i eventId payload d v _ _
    cases hv : visitRow eventId payload d v with
    | error e => rw [hv] at h; cases h
    | ok r =>
      rw [hv] at h
      obtain rfl : r = some x := h
      exact (visitRow_ids hv).2.2.2
  · cases h

theorem keyed_insertExecution {executions : List TriggeredExecution} {x : TriggeredExecution}
    (hkeyed : ∀ y ∈ executions, Keyed y) (hx : Keyed x) : ∀ y ∈ insertExecution executions x, Keyed y := by
  intro y hy
  simp only [insertExecution] at hy
  split_ifs at hy
  · exact hkeyed y hy
  · rcases List.mem_append.mp hy with hy | hy
    · exact hkeyed y hy
    · rw [List.mem_singleton.mp hy]
      exact hx

/-- A turn of a delivery inserts what is pending, if anything. -/
theorem executions_visitNext (s : TriggerState) (k : ℕ) : (visitNext s k).executions =
    match pendingInsert s k with
    | some x => insertExecution s.executions x
    | none => s.executions := by
  unfold visitNext pendingInsert
  split
  · rename_i eventId payload d v rest _
    cases visitRow eventId payload d v with
    | error e => rfl
    | ok r => cases r <;> rfl
  · rfl

theorem executions_publishWorkflow (s : TriggerState) (document : Dict) (w v : Uuid) :
    (publishWorkflow py s document w v).executions = s.executions := by
  unfold publishWorkflow
  split
  · rfl
  · simp only
    split
    · rfl
    · split_ifs <;> rfl

/-- Only a turn of a delivery touches the executions. -/
theorem executions_step (s : TriggerState) (l : TriggerStep) : (s.step py l).executions =
    match l with
    | .visit k => (visitNext s k).executions
    | _ => s.executions := by
  cases l with
  | deliver e p admitted =>
    simp only [TriggerState.step, handleDomainEvent]
    split_ifs <;> rfl
  | visit k => rfl
  | lose k => rfl
  | publish document w v => exact executions_publishWorkflow py s document w v

/-- An insert keeps the executions unique exactly if those of its workflow and event pin its version. -/
theorem insert_iff {executions : List TriggeredExecution} {x : TriggeredExecution}
    (hkeyed : ∀ y ∈ executions, Keyed y) (hx : Keyed x)
    (honce : (executions.map (fun y => (y.workflowId, y.triggerEventId))).Nodup) :
    ((insertExecution executions x).map (fun y => (y.workflowId, y.triggerEventId))).Nodup ↔
      ∀ y ∈ executions, y.workflowId = x.workflowId → y.triggerEventId = x.triggerEventId →
        y.versionId = x.versionId := by
  unfold insertExecution
  split_ifs with htaken
  · -- the key is taken: by the unique execution for this workflow and event
    refine ⟨?_, fun _ => honce⟩
    intro _ y hy hw he
    obtain ⟨z, hz, hzx⟩ := List.any_eq_true.mp htaken
    rw [beq_iff_eq, hkeyed z hz, hx] at hzx
    obtain ⟨hzw, hzv, hze⟩ := executionIdempotencyKey_inj hzx
    have : y = z := List.inj_on_of_nodup_map honce hy hz (by rw [hw, he, hzw, hze])
    rw [this, hzv]
  · rw [List.map_append, List.nodup_append]
    constructor
    · rintro ⟨-, -, hdis⟩ y hy hw he
      exact absurd (by rw [hw, he]) (hdis _ (List.mem_map.mpr ⟨y, hy, rfl⟩) _ (List.mem_singleton.mpr rfl))
    · intro hsteady
      refine ⟨honce, List.nodup_singleton _, ?_⟩
      rintro a ha b hb rfl
      obtain ⟨y, hy, hya⟩ := List.mem_map.mp ha
      rw [List.mem_singleton.mp hb] at hya
      obtain ⟨hw, he⟩ := Prod.mk.inj hya
      apply htaken
      rw [List.any_eq_true]
      refine ⟨y, hy, ?_⟩
      rw [beq_iff_eq, hkeyed y hy, hx, hw, he, hsteady y hy hw he]

/-- The tables of a tenant before any execution. -/
def TriggerState.start (definitions : List Definition) (versions : List Version) : TriggerState :=
  ⟨definitions, versions, [], []⟩

/-- Every step leaves the executions keyed. -/
theorem keyed_step (s : TriggerState) (l : TriggerStep) (hkeyed : ∀ x ∈ s.executions, Keyed x) :
    ∀ x ∈ (s.step py l).executions, Keyed x := by
  rw [executions_step]
  cases l with
  | visit k =>
    simp only [executions_visitNext]
    cases hp : pendingInsert s k with
    | none => exact hkeyed
    | some x => exact keyed_insertExecution hkeyed (keyed_pendingInsert hp)
  | _ => exact hkeyed

/-- **One step** keeps the executions unique exactly if it is steady. -/
theorem atMostOnce_step_iff (s : TriggerState) (l : TriggerStep) (hkeyed : ∀ x ∈ s.executions, Keyed x)
    (honce : AtMostOnce s) : AtMostOnce (s.step py l) ↔ Steady s l := by
  unfold AtMostOnce
  rw [executions_step]
  cases l with
  | visit k =>
    simp only [executions_visitNext, Steady]
    cases hp : pendingInsert s k with
    | none => exact iff_of_true honce (by simp)
    | some x =>
      simp only [Option.some.injEq, forall_eq']
      exact insert_iff hkeyed (keyed_pendingInsert hp) honce
  | _ => exact iff_of_true honce trivial

/-- **Replays**, exactly: over a whole run of deliveries, redeliveries and publications there is never more
than one execution for a workflow and event iff every insert finds the version its predecessors pinned. -/
theorem replay_once_iff (definitions : List Definition) (versions : List Version) (steps : List TriggerStep) :
    Always (TriggerState.step py) AtMostOnce (.start definitions versions) steps ↔
      Meets (TriggerState.step py) Steady (.start definitions versions) steps := by
  have hkeyed : ∀ x ∈ (TriggerState.start definitions versions).executions, Keyed x := by
    intro x hx
    cases hx
  have honce : AtMostOnce (.start definitions versions) := List.nodup_nil
  exact always_iff_meets (keyed_step py) (atMostOnce_step_iff py) steps _ hkeyed honce

end System

/-! ## A publication between two deliveries -/

def sampleUuid (c : Char) : Uuid := ⟨String.ofList (List.replicate 36 c), by simp⟩

/-- A workflow that files a task for every created lead. -/
def greetDocument (description : String) : Dict :=
  [("name", .str "Greet"), ("description", .str description),
    ("trigger", .obj [("type", .str "entity.created"), ("entity", .str "lead")]),
    ("nodes", .arr [.obj [("id", .str "call"), ("type", .str "action"), ("action", .str "task.create")]])]

def leadCreated : Dict :=
  [("event_type", .str "lead.created"), ("resource", .obj [("type", .str "lead"), ("id", .str "1")])]

/-- An interpreter whose hash is the description. -/
def describing : Interpreter :=
  { plainInterpreter with contentHash := fun d => .ok (d.get "description").text }

/-- The event is delivered, a new version is published, and the event is delivered again. -/
def republishedRun : List TriggerStep :=
  [.publish (greetDocument "first") (sampleUuid 'a') (sampleUuid 'b'), .deliver (sampleUuid 'e') leadCreated true,
    .visit 0, .publish (greetDocument "second") (sampleUuid 'c') (sampleUuid 'd'),
    .deliver (sampleUuid 'e') leadCreated true, .visit 1]

/-- The redelivery finds another active version and starts the workflow a second time. -/
theorem republished_runs_twice : ¬ Always (TriggerState.step describing) AtMostOnce
    (.start [] []) republishedRun := by
  intro h
  have hlast : ((after (TriggerState.step describing) (.start [] [])
      republishedRun).executions.map (fun x => (x.workflowId, x.triggerEventId))).Nodup := always_last h
  revert hlast
  decide +kernel

end RevenueOS.Workflows
