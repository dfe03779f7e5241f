import RevenueOS.Messaging.Outbox
import RevenueOS.Tenants.Entitlements
import RevenueOS.Workflows.Validity

/-!
# RevenueOS.Messaging.Relay — what the relay does with an outbox row

`relay_outbox` (`infrastructure/celery/tasks/scheduled.py`) with the handlers it registers: `handle_domain_event`
in full and `handle_outbound_webhook` (`application/workflows/triggers.py`), over the tables of all tenants.  The
CRM handlers of `application/crm/handlers.py` are a parameter.

A handler that raises keeps what it committed before; the handlers after it are not called.  The handlers run
undisturbed here; `executions_visitRows` relates the loop to the interleaved turns of `Workflows.Triggers`.

* `visitRow_yields`: no version that was published makes the loop raise on an event.
* `dispatchRow_unlisted`: an event type outside the catalog is dropped.
* `dispatchRow_public`: a public event reaches the workflows and the webhooks of its tenant.
-/

namespace RevenueOS.Messaging

open RevenueOS.Py RevenueOS.Lib RevenueOS.Workflows RevenueOS.Tenants

/-! ## Webhooks -/

/-- A row of `outbound_webhook_configs`. -/
structure WebhookConfig where
  id : Uuid
  eventTypes : List Json
  isActive : Bool
  disabled : Bool

/-- A row of `outbound_webhook_deliveries`, as it is queued. -/
structure WebhookDelivery where
  tenantId : Uuid
  configId : Uuid
  eventId : Uuid
  eventType : String
  idempotencyKey : String
  payload : Dict
  status : String
  attempts : ℕ
  nextAttemptAt : ℤ

def webhookKey (configId eventId : Uuid) : String := configId.text ++ ":" ++ eventId.text

/-- The key of a delivery is made from its ids, or it is the receipt of a workflow action: `action_correlation`
is a SHA-256 digest in hexadecimal under its own mark. -/
def WebhookDelivery.Keyed (x : WebhookDelivery) : Prop :=
  x.idempotencyKey = webhookKey x.configId x.eventId ∨
    ∃ digest : String, digest.length = 64 ∧ x.idempotencyKey = "wfa:" ++ digest

/-- `event_type in subscribed or "*" in subscribed`. -/
def WebhookConfig.subscribed (config : WebhookConfig) (eventType : String) : Bool :=
  let subscribed := config.eventTypes.map Json.text
  subscribed.contains eventType || subscribed.contains "*"

/-- `insert .. on conflict do nothing`. -/
def insertDelivery (deliveries : List WebhookDelivery) (x : WebhookDelivery) : List WebhookDelivery :=
  if deliveries.any (fun y => y.configId == x.configId && y.idempotencyKey == x.idempotencyKey) then deliveries
  else deliveries ++ [x]

def webhookDelivery (tenantId eventId : Uuid) (eventType : String) (payload : Dict) (now : ℤ)
    (config : WebhookConfig) : WebhookDelivery where
  tenantId := tenantId
  configId := config.id
  eventId := eventId
  eventType := eventType
  idempotencyKey := webhookKey config.id eventId
  payload := payload
  status := "pending"
  attempts := 0
  nextAttemptAt := now

theorem keyed_insertDelivery {deliveries : List WebhookDelivery} {x : WebhookDelivery}
    (h : ∀ y ∈ deliveries, y.Keyed) (hx : x.Keyed) : ∀ y ∈ insertDelivery deliveries x, y.Keyed := by
  intro y hy
  simp only [insertDelivery] at hy
  split_ifs at hy
  · exact h y hy
  · rcases List.mem_append.mp hy with hy | hy
    · exact h y hy
    · rw [List.mem_singleton.mp hy]
      exact hx

theorem webhookKey_inj {c e c' e' : Uuid} (h : webhookKey c e = webhookKey c' e') : c = c' ∧ e = e' := by
  have hl := congrArg String.toList h
  simp only [webhookKey, String.toList_append, List.append_assoc] at hl
  have h1 := List.append_inj hl (by rw [c.length_toList, c'.length_toList])
  exact ⟨Uuid.ext h1.1, Uuid.ext (List.append_cancel_left h1.2)⟩

/-- The key of a delivery is longer than a receipt. -/
theorem webhookKey_ne_receipt (c e : Uuid) {digest : String} (h : digest.length = 64) :
    webhookKey c e ≠ "wfa:" ++ digest := by
  intro heq
  have hl := congrArg String.length heq
  rw [webhookKey, String.length_append, String.length_append, String.length_append, c.length_eq, e.length_eq,
    h] at hl
  exact absurd hl (by decide)

/-- After the insert the configuration has a delivery of the event: the new one, or the one in its way. -/
theorem exists_insertDelivery {deliveries : List WebhookDelivery} {x : WebhookDelivery}
    (h : ∀ y ∈ deliveries, y.Keyed) (hx : x.idempotencyKey = webhookKey x.configId x.eventId) :
    ∃ y ∈ insertDelivery deliveries x, y.configId = x.configId ∧ y.eventId = x.eventId := by
  unfold insertDelivery
  split_ifs with htaken
  · obtain ⟨y, hy, hsame⟩ := List.any_eq_true.mp htaken
    rw [Bool.and_eq_true, beq_iff_eq, beq_iff_eq, hx] at hsame
    obtain ⟨hconfig, hkey⟩ := hsame
    refine ⟨y, hy, hconfig, ?_⟩
    rcases h y hy with hown | ⟨digest, hlength, hreceipt⟩
    · exact (webhookKey_inj (hown.symm.trans hkey)).2
    · exact absurd (hkey.symm.trans hreceipt) (webhookKey_ne_receipt _ _ hlength)
  · exact ⟨x, List.mem_append_right _ (List.mem_singleton.mpr rfl), rfl, rfl⟩

theorem mem_insertDelivery {deliveries : List WebhookDelivery} {x y : WebhookDelivery} (h : y ∈ deliveries) :
    y ∈ insertDelivery deliveries x := by
  unfold insertDelivery
  split_ifs
  · exact h
  · exact List.mem_append_left _ h

def queueDeliveries (make : WebhookConfig → WebhookDelivery) :
    List WebhookConfig → List WebhookDelivery → List WebhookDelivery
  | [], deliveries => deliveries
  | c :: configs, deliveries => queueDeliveries make configs (insertDelivery deliveries (make c))

section Queue

variable {make : WebhookConfig → WebhookDelivery}

theorem keyed_queueDeliveries (hmake : ∀ c, (make c).Keyed) : ∀ {configs : List WebhookConfig}
    {deliveries : List WebhookDelivery}, (∀ y ∈ deliveries, y.Keyed) →
      ∀ y ∈ queueDeliveries make configs deliveries, y.Keyed
  | [], _, h => h
  | c :: _, _, h => by
    unfold queueDeliveries
    exact keyed_queueDeliveries hmake (keyed_insertDelivery h (hmake c))

theorem mem_queueDeliveries {y : WebhookDelivery} : ∀ {configs : List WebhookConfig}
    {deliveries : List WebhookDelivery}, y ∈ deliveries → y ∈ queueDeliveries make configs deliveries
  | [], _, h => h
  | _ :: _, _, h => by
    unfold queueDeliveries
    exact mem_queueDeliveries (mem_insertDelivery h)

/-- Every configuration in the queue has its delivery afterwards. -/
theorem exists_queueDeliveries (hmake : ∀ c, (make c).idempotencyKey = webhookKey (make c).configId (make c).eventId)
    {c : WebhookConfig} : ∀ {configs : List WebhookConfig} {deliveries : List WebhookDelivery},
      (∀ y ∈ deliveries, y.Keyed) → c ∈ configs →
      ∃ y ∈ queueDeliveries make configs deliveries, y.configId = (make c).configId ∧ y.eventId = (make c).eventId
  | [], _, _, hc => absurd hc List.not_mem_nil
  | first :: rest, deliveries, h, hc => by
    unfold queueDeliveries
    rcases List.mem_cons.mp hc with rfl | hc
    · obtain ⟨y, hy, hids⟩ := exists_insertDelivery h (hmake c)
      exact ⟨y, mem_queueDeliveries hy, hids⟩
    · exact exists_queueDeliveries hmake (keyed_insertDelivery h (Or.inl (hmake first))) hc

end Queue

/-! ## Tenants -/

/-- What the handlers read and write of a tenant.  Only `publish_workflow` stores a version, of a document that
compiles; the keys of executions and deliveries are made where the rows are. -/
structure Tenant where
  planCode : String
  triggers : TriggerState
  configs : List WebhookConfig
  deliveries : List WebhookDelivery
  compiled : ∀ v ∈ triggers.versions, ∃ py plan, compileWorkflow py v.content = .ok plan
  executions_keyed : ∀ x ∈ triggers.executions, Keyed x
  deliveries_keyed : ∀ x ∈ deliveries, x.Keyed

theorem versions_publishWorkflow {py : Interpreter} {s : TriggerState} {document : Dict} {w i : Uuid}
    {v : Version} (h : v ∈ (publishWorkflow py s document w i).versions) :
    v ∈ s.versions ∨ ∃ plan, compileWorkflow py v.content = .ok plan := by
  unfold publishWorkflow at h
  split at h
  · exact Or.inl h
  · rename_i plan hplan
    have hnew : ∀ u ∈ s.versions ++ [(⟨i, document, plan.contentHash, true⟩ : Version)],
        u ∈ s.versions ∨ ∃ plan, compileWorkflow py u.content = .ok plan := by
      intro u hu
      rcases List.mem_append.mp hu with hu | hu
      · exact Or.inl hu
      · rw [List.mem_singleton.mp hu]
        exact Or.inr ⟨plan, hplan⟩
    simp only at h
    split at h
    · exact hnew v h
    · split_ifs at h
      · exact Or.inl h
      · exact hnew v h

/-- Only a publication adds a version. -/
theorem versions_step {py : Interpreter} {s : TriggerState} {l : TriggerStep} {v : Version}
    (h : v ∈ (s.step py l).versions) :
    v ∈ s.versions ∨ ∃ plan, compileWorkflow py v.content = .ok plan := by
  cases l with
  | deliver eventId payload admitted =>
    left
    simp only [TriggerState.step, handleDomainEvent] at h
    split_ifs at h <;> exact h
  | visit k =>
    left
    simp only [TriggerState.step, visitNext] at h
    split at h
    · split at h <;> exact h
    · exact h
  | lose k => exact Or.inl h
  | publish document w i => exact versions_publishWorkflow h

namespace Tenant

def new (planCode : String) : Tenant where
  planCode := planCode
  triggers := .start [] []
  configs := []
  deliveries := []
  compiled _ h := absurd h List.not_mem_nil
  executions_keyed _ h := absurd h List.not_mem_nil
  deliveries_keyed _ h := absurd h List.not_mem_nil

/-- A step of the trigger system of the tenant. -/
def step (t : Tenant) (py : Interpreter) (l : TriggerStep) : Tenant :=
  { t with
    triggers := t.triggers.step py l
    compiled := fun v h => (versions_step h).elim (t.compiled v) (fun hv => ⟨py, hv⟩)
    executions_keyed := keyed_step py t.triggers l t.executions_keyed }

end Tenant

/-! ## `handle_domain_event` -/

/-- The loop of `handle_domain_event`: the executions it leaves, and the exception that ended it, if any. -/
def visitRows (eventId : Uuid) (payload : Dict) : List (Definition × Version) → List TriggeredExecution →
    List TriggeredExecution × Option PyError
  | [], executions => (executions, none)
  | (d, v) :: rest, executions =>
    match visitRow eventId payload d v with
    | .ok (some x) => visitRows eventId payload rest (insertExecution executions x)
    | .ok none => visitRows eventId payload rest executions
    | .error e => (executions, some e)

/-- The loop, turn by turn. -/
theorem executions_visitRows (eventId : Uuid) (payload : Dict) (k : ℕ) : ∀ (rows : List (Definition × Version))
    (s : TriggerState), s.deliveries[k]? = some ⟨eventId, payload, rows⟩ →
      ((visitNext · k)^[rows.length] s).executions = (visitRows eventId payload rows s.executions).1
  | [], s, _ => rfl
  | (d, v) :: rest, s, h => by
    have hk : k < s.deliveries.length := (List.getElem?_eq_some_iff.mp h).1
    have hset : ∀ x, (s.deliveries.set k x)[k]? = some x := fun x => by simp [hk]
    have hdone : ∀ (n : ℕ) (t : TriggerState), t.deliveries[k]? = some ⟨eventId, payload, []⟩ →
        (visitNext · k)^[n] t = t := by
      intro n t ht
      have hstop : visitNext t k = t := by
        unfold visitNext
        rw [ht]
      exact Function.iterate_fixed hstop n
    rw [List.length_cons, Function.iterate_succ_apply]
    unfold visitRows
    cases hv : visitRow eventId payload d v with
    | error e =>
      have hnext : visitNext s k = { s with deliveries := s.deliveries.set k ⟨eventId, payload, []⟩ } := by
        simp only [visitNext, h, hv]
      rw [hnext, hdone _ _ (hset _)]
    | ok r =>
      cases r with
      | none =>
        have hnext : visitNext s k = { s with deliveries := s.deliveries.set k ⟨eventId, payload, rest⟩ } := by
          simp only [visitNext, h, hv]
        rw [hnext]
        exact executions_visitRows eventId payload k rest _ (hset _)
      | some x =>
        have hnext : visitNext s k = { s with
            executions := insertExecution s.executions x
            deliveries := s.deliveries.set k ⟨eventId, payload, rest⟩ } := by
          simp only [visitNext, h, hv]
        rw [hnext]
        exact executions_visitRows eventId payload k rest _ (hset _)

theorem keyed_visitRows {eventId : Uuid} {payload : Dict} : ∀ {rows : List (Definition × Version)}
    {executions : List TriggeredExecution}, (∀ x ∈ executions, Keyed x) →
      ∀ x ∈ (visitRows eventId payload rows executions).1, Keyed x
  | [], _, h => h
  | (d, v) :: rest, executions, h => by
    unfold visitRows
    split
    · rename_i x hx
      exact keyed_visitRows (keyed_insertExecution h (visitRow_ids hx).2.2.2)
    · exact keyed_visitRows h
    · exact h

theorem mem_insertExecution {executions : List TriggeredExecution} {x y : TriggeredExecution}
    (h : y ∈ executions) : y ∈ insertExecution executions x := by
  unfold insertExecution
  split_ifs
  · exact h
  · exact List.mem_append_left _ h

theorem mem_visitRows {eventId : Uuid} {payload : Dict} {x : TriggeredExecution} :
    ∀ {rows : List (Definition × Version)} {executions : List TriggeredExecution}, x ∈ executions →
      x ∈ (visitRows eventId payload rows executions).1
  | [], _, h => h
  | (d, v) :: rest, executions, h => by
    unfold visitRows
    split
    · exact mem_visitRows (mem_insertExecution h)
    · exact mem_visitRows h
    · exact h

/-- The workflow has an execution of this version for the event. -/
def Started (executions : List TriggeredExecution) (eventId : Uuid) (d : Definition) (v : Version) : Prop :=
  ∃ x ∈ executions, x.workflowId = d.id ∧ x.versionId = v.id ∧ x.triggerEventId = eventId

theorem started_insertExecution {executions : List TriggeredExecution} {eventId : Uuid} {payload : Dict}
    {d : Definition} {v : Version} {x : TriggeredExecution} (hkeyed : ∀ y ∈ executions, Keyed y)
    (hx : visitRow eventId payload d v = .ok (some x)) : Started (insertExecution executions x) eventId d v := by
  obtain ⟨hw, hv, he, hkey⟩ := visitRow_ids hx
  unfold insertExecution
  split_ifs with htaken
  · obtain ⟨y, hy, hyx⟩ := List.any_eq_true.mp htaken
    rw [beq_iff_eq, hkeyed y hy, hkey] at hyx
    obtain ⟨hyw, hyv, hye⟩ := executionIdempotencyKey_inj hyx
    exact ⟨y, hy, hyw.trans hw, hyv.trans hv, hye.trans he⟩
  · exact ⟨x, List.mem_append_right _ (List.mem_singleton.mpr rfl), hw, hv, he⟩

/-- A loop whose turns all return starts every workflow that matches. -/
theorem visitRows_started {eventId : Uuid} {payload : Dict} : ∀ {rows : List (Definition × Version)}
    {executions : List TriggeredExecution}, (∀ x ∈ executions, Keyed x) →
      (∀ d v, (d, v) ∈ rows → Yields (visitRow eventId payload d v) (fun _ => True)) →
      (visitRows eventId payload rows executions).2 = none ∧
        ∀ d v, (d, v) ∈ rows → Yields (visitRow eventId payload d v) (fun r => r.isSome) →
          Started (visitRows eventId payload rows executions).1 eventId d v
  | [], _, _, _ => ⟨rfl, fun _ _ h => absurd h List.not_mem_nil⟩
  | (d, v) :: rest, executions, hkeyed, hreturns => by
    have hrest : ∀ d v, (d, v) ∈ rest → Yields (visitRow eventId payload d v) (fun _ => True) :=
      fun d v h => hreturns d v (List.mem_cons_of_mem _ h)
    obtain ⟨r, hr, -⟩ := hreturns d v List.mem_cons_self
    unfold visitRows
    rw [hr]
    cases r with
    | none =>
      obtain ⟨hnone, hstarted⟩ := visitRows_started hkeyed hrest
      refine ⟨hnone, fun d' v' hmem hsome => ?_⟩
      rcases List.mem_cons.mp hmem with heq | hmem
      · obtain ⟨rfl, rfl⟩ := Prod.mk.inj heq
        rw [yields_of_eq hr] at hsome
        cases hsome
      · exact hstarted d' v' hmem hsome
    | some x =>
      have hkeyed' := keyed_insertExecution hkeyed (visitRow_ids hr).2.2.2
      obtain ⟨hnone, hstarted⟩ := visitRows_started hkeyed' hrest
      refine ⟨hnone, fun d' v' hmem hsome => ?_⟩
      rcases List.mem_cons.mp hmem with heq | hmem
      · obtain ⟨rfl, rfl⟩ := Prod.mk.inj heq
        obtain ⟨y, hy, hids⟩ := started_insertExecution hkeyed hr
        exact ⟨y, mem_visitRows hy, hids⟩
      · exact hstarted d' v' hmem hsome

/-! ## Events never make the loop raise -/

theorem dictOr_obj (d : Dict) : dictOr (.obj d) = .ok d := by
  cases d <;> rfl

theorem toOutboxPayload_resource (e : DomainEvent) : e.toOutboxPayload.get "resource" =
    .obj [("type", .str e.resourceType), ("id", .str e.resourceId.text)] := rfl

theorem toOutboxPayload_data (e : DomainEvent) : e.toOutboxPayload.get "data" = .obj e.payload := rfl

/-- The trigger of a document that compiles is an object. -/
theorem trigger_of_compiled {py : Interpreter} {doc : Dict} {plan : Plan}
    (h : compileWorkflow py doc = .ok plan) : ∃ t, doc.get "trigger" = .obj t := by
  obtain ⟨t, ht, htype⟩ := (compileWorkflow_parts h).1.trigger
  refine ⟨t, ?_⟩
  unfold Json.or at ht
  split_ifs at ht with htruthy
  · exact ht
  · -- the default has no type
    obtain rfl := Json.obj.inj ht
    cases htype

theorem matchesTrigger_yields (trigger : Dict) (e : DomainEvent) :
    Yields (matchesTrigger trigger e.toOutboxPayload) (fun _ => True) := by
  unfold matchesTrigger
  rw [toOutboxPayload_resource, toOutboxPayload_data, dictOr_obj, dictOr_obj]
  dsimp only [bind, Except.bind]
  split_ifs
  · exact yields_pure.mpr trivial
  · exact yields_pure.mpr trivial
  · split <;> exact yields_pure.mpr trivial

theorem triggeredExecution_yields {v : Version} {t : Dict} (ht : v.content.get "trigger" = .obj t)
    (e : DomainEvent) (d : Definition) :
    Yields (triggeredExecution e.eventId e.toOutboxPayload d v) (fun _ => True) := by
  unfold triggeredExecution
  rw [toOutboxPayload_resource, toOutboxPayload_data, dictOr_obj, dictOr_obj, Dict.getD_of_get ht Json.noConfusion]
  exact yields_pure.mpr trivial

/-- A turn of the loop on a published version: it inserts exactly if the trigger matches. -/
theorem visitRow_eq {v : Version} {t : Dict} (ht : v.content.get "trigger" = .obj t) (e : DomainEvent)
    (d : Definition) : Yields (visitRow e.eventId e.toOutboxPayload d v)
      (fun r => r.isSome = true ↔ matchesTrigger t e.toOutboxPayload = .ok true) := by
  obtain ⟨b, hb, -⟩ := matchesTrigger_yields t e
  unfold visitRow
  rw [ht, dictOr_obj]
  dsimp only [bind, Except.bind]
  rw [hb]
  cases b with
  | false => exact yields_pure.mpr (by simp)
  | true =>
    obtain ⟨x, hx, -⟩ := triggeredExecution_yields ht e d
    dsimp only
    rw [if_pos rfl, hx]
    exact yields_pure.mpr (by simp)

/-! ## Handlers -/

structure Platform where
  workflowsEnabled : Bool
  tenants : Uuid → Option Tenant

/-- `UUID(text)` of a text that `str` gave for an id; the other spellings Python reads are not in any event. -/
def uuidOf (text : String) : Option Uuid := if h : text.length = 36 then some ⟨text, h⟩ else none

theorem uuidOf_text (a : Uuid) : uuidOf a.text = some a := dif_pos a.length_eq

/-- The two ids a handler reads from an event.  A missing one is a `KeyError`, where this reads the text of
`None`: both end the handler. -/
def eventIds (payload : Dict) : Option (Uuid × Uuid) := do
  let tenantId ← uuidOf (payload.get "tenant_id").text
  let eventId ← uuidOf (payload.get "event_id").text
  return (tenantId, eventId)

def payloadType (payload : Dict) : String := ((payload.get "event_type").or (.str "")).text

/-- What a handler leaves behind, and the exception it raised, if any. -/
abbrev Effect := Platform → Platform × Option PyError

def Platform.set (p : Platform) (tenantId : Uuid) (tenant : Tenant) : Platform :=
  { p with tenants := Function.update p.tenants tenantId (some tenant) }

/-- The loop of `handle_domain_event`, over the rows that are live. -/
def Tenant.trigger (t : Tenant) (eventId : Uuid) (payload : Dict) : Tenant × Option PyError :=
  let result := visitRows eventId payload t.triggers.liveRows t.triggers.executions
  ({ t with
      triggers := { t.triggers with executions := result.1 }
      executions_keyed := keyed_visitRows t.executions_keyed }, result.2)

/-- `handle_domain_event`. -/
def handleDomainEvent (payload : Dict) : Effect := fun p =>
  if payloadType payload ∉ allEventTypes then (p, none)
  else
    match eventIds payload with
    | none => (p, none)
    | some (tenantId, eventId) =>
      match p.tenants tenantId with
      | none => (p, none)
      | some tenant =>
        match checkFeature tenant.planCode .workflows p.workflowsEnabled none with
        | .error e => (p, some e)
        | .ok false => (p, none)
        | .ok true =>
          let result := tenant.trigger eventId payload
          (p.set tenantId result.1, result.2)

/-- The loop of `handle_outbound_webhook`. -/
def Tenant.queue (t : Tenant) (tenantId eventId : Uuid) (payload : Dict) (now : ℤ) : Tenant :=
  let configs := t.configs.filter (fun c => c.isActive && !c.disabled && c.subscribed (payloadType payload))
  { t with
    deliveries := queueDeliveries (webhookDelivery tenantId eventId (payloadType payload) payload now) configs
      t.deliveries
    deliveries_keyed := keyed_queueDeliveries (fun _ => Or.inl rfl) t.deliveries_keyed }

/-- `handle_outbound_webhook`. -/
def handleOutboundWebhook (now : ℤ) (payload : Dict) : Effect := fun p =>
  if !isPublic (payloadType payload) then (p, none)
  else
    match eventIds payload with
    | none => (p, none)
    | some (tenantId, eventId) =>
      match p.tenants tenantId with
      | none => (p, none)
      | some tenant => (p.set tenantId (tenant.queue tenantId eventId payload now), none)

inductive RelayHandler where
  | domainEvent | outboundWebhook | syncContactCompany | propagateAccountRename | stampLastContactAt
  | queueFileScan
deriving DecidableEq

/-- `register_workflow_handlers`. -/
def registerWorkflowHandlers (d : Dispatcher RelayHandler) : Dispatcher RelayHandler :=
  (d.subscribe "*" .domainEvent).subscribe "*" .outboundWebhook

/-- `register_crm_handlers`. -/
def registerCrmHandlers (d : Dispatcher RelayHandler) : Dispatcher RelayHandler :=
  ((((d.subscribe "contact.created" .syncContactCompany).subscribe "contact.updated" .syncContactCompany).subscribe
    "account.updated" .propagateAccountRename).subscribe "activity.logged" .stampLastContactAt).subscribe
    "file.upload_completed" .queueFileScan

/-- The dispatcher of `relay_outbox`, with the default `BATCH_SIZE`. -/
def relay : Dispatcher RelayHandler := registerCrmHandlers (registerWorkflowHandlers ⟨[], [], 100⟩)

section Dispatching

variable (crm : RelayHandler → Dict → Effect) (now : ℤ)

def callHandler (payload : Dict) : RelayHandler → Effect
  | .domainEvent => handleDomainEvent payload
  | .outboundWebhook => handleOutboundWebhook now payload
  | h => crm h payload

/-- The handlers in turn, up to the first exception. -/
def callHandlers (payload : Dict) : List RelayHandler → Effect
  | [], p => (p, none)
  | h :: hs, p =>
    match callHandler crm now payload h p with
    | (p, none) => callHandlers payload hs p
    | (p, some e) => (p, some e)

/-- The handlers `_dispatch_row` calls for a row. -/
def dispatchRow (row : EventOutbox) : Effect := callHandlers crm now row.payload (relay.handlersFor row.eventType)

/-! ## What a dispatch does -/

/-- An event type no CRM handler subscribed to reaches the two workflow handlers. -/
theorem handlersFor_relay {eventType : String} (h : eventType ∉ relay.handlers.map Prod.fst) :
    relay.handlersFor eventType = [.domainEvent, .outboundWebhook] := by
  have hnone : relay.handlers.lookup eventType = none := by
    rw [List.lookup_eq_none_iff]
    intro entry hentry
    rw [bne_iff_ne]
    rintro rfl
    exact h (List.mem_map.mpr ⟨entry, hentry, rfl⟩)
  unfold Dispatcher.handlersFor
  rw [hnone]
  rfl

theorem handlers_listed : ∀ t ∈ relay.handlers.map Prod.fst, t ∈ allEventTypes := by decide

theorem payloadType_event (e : DomainEvent) : payloadType e.toOutboxPayload = e.eventType := by
  have hget : e.toOutboxPayload.get "event_type" = .str e.eventType := rfl
  unfold payloadType
  rw [hget, Json.or]
  split_ifs with htruthy
  · rfl
  · have hempty : e.eventType = "" := by simpa [Json.truthy] using htruthy
    rw [hempty]
    rfl

theorem eventIds_event (e : DomainEvent) : eventIds e.toOutboxPayload = some (e.tenantId, e.eventId) := by
  have htenant : (e.toOutboxPayload.get "tenant_id").text = e.tenantId.text := rfl
  have hevent : (e.toOutboxPayload.get "event_id").text = e.eventId.text := rfl
  unfold eventIds
  rw [htenant, hevent, uuidOf_text, uuidOf_text]
  rfl

theorem isPublic_iff {eventType : String} : isPublic eventType = true ↔ eventType ∈ publicEventTypes :=
  List.contains_iff_mem

/-- **An event outside the catalog is dropped**: both handlers return, and no table changes. -/
theorem dispatchRow_unlisted {e : DomainEvent} (h : e.eventType ∉ allEventTypes) (id : Uuid) (p : Platform) :
    dispatchRow crm now (outboxRow id e) p = (p, none) := by
  have hprivate : isPublic e.eventType = false := by
    rw [Bool.eq_false_iff, Ne, isPublic_iff]
    exact fun hmem => h (List.mem_append_left _ hmem)
  have hhandlers : relay.handlersFor e.eventType = [.domainEvent, .outboundWebhook] :=
    handlersFor_relay fun hmem => h (handlers_listed _ hmem)
  have hevent : handleDomainEvent e.toOutboxPayload p = (p, none) := by
    unfold handleDomainEvent
    rw [payloadType_event, if_pos h]
  have hwebhook : handleOutboundWebhook now e.toOutboxPayload p = (p, none) := by
    unfold handleOutboundWebhook
    rw [payloadType_event, hprivate]
    rfl
  change callHandlers crm now e.toOutboxPayload (relay.handlersFor e.eventType) p = (p, none)
  rw [hhandlers]
  simp only [callHandlers, callHandler, hevent, hwebhook]

theorem version_of_liveRows {s : TriggerState} {d : Definition} {v : Version} (h : (d, v) ∈ s.liveRows) :
    v ∈ s.versions := by
  unfold TriggerState.liveRows at h
  obtain ⟨d', -, hd'⟩ := List.mem_filterMap.mp h
  obtain ⟨v', hv', heq⟩ := Option.map_eq_some_iff.mp hd'
  obtain ⟨-, rfl⟩ := Prod.mk.inj heq
  exact List.mem_of_find?_eq_some hv'

/-- The workflows of a tenant on an event: none makes the handler raise, and all that match are started. -/
theorem Tenant.trigger_started (t : Tenant) (e : DomainEvent) :
    (t.trigger e.eventId e.toOutboxPayload).2 = none ∧
      ∀ d v trigger, (d, v) ∈ t.triggers.liveRows → v.content.get "trigger" = .obj trigger →
        matchesTrigger trigger e.toOutboxPayload = .ok true →
        Started (t.trigger e.eventId e.toOutboxPayload).1.triggers.executions e.eventId d v := by
  have hreturns : ∀ d v, (d, v) ∈ t.triggers.liveRows →
      Yields (visitRow e.eventId e.toOutboxPayload d v) (fun _ => True) := by
    intro d v hmem
    obtain ⟨py, plan, hplan⟩ := t.compiled v (version_of_liveRows hmem)
    obtain ⟨trigger, htrigger⟩ := trigger_of_compiled hplan
    exact (visitRow_eq htrigger e d).mono (fun _ _ => trivial)
  obtain ⟨hnone, hstarted⟩ := visitRows_started t.executions_keyed hreturns
  refine ⟨hnone, fun d v trigger hmem htrigger hmatch => ?_⟩
  exact hstarted d v hmem ((visitRow_eq htrigger e d).mono (fun _ hr => hr.mpr hmatch))

theorem Tenant.queue_delivered (t : Tenant) (e : DomainEvent) {c : WebhookConfig} (hc : c ∈ t.configs)
    (hactive : c.isActive = true) (hdisabled : c.disabled = false) (hsubscribed : c.subscribed e.eventType = true) :
    ∃ y ∈ (t.queue e.tenantId e.eventId e.toOutboxPayload now).deliveries,
      y.configId = c.id ∧ y.eventId = e.eventId := by
  refine exists_queueDeliveries (fun _ => rfl) t.deliveries_keyed (c := c) (List.mem_filter.mpr ⟨hc, ?_⟩)
  rw [payloadType_event, hactive, hdisabled, hsubscribed]
  rfl

/-- **A public event reaches its tenant**: every live workflow whose trigger matches is started, and every active
webhook that subscribed has a delivery. -/
theorem dispatchRow_public {e : DomainEvent} (hpublic : e.eventType ∈ publicEventTypes)
    (hcrm : e.eventType ∉ relay.handlers.map Prod.fst) (id : Uuid) {p : Platform} {t : Tenant}
    (ht : p.tenants e.tenantId = some t)
    (hallowed : checkFeature t.planCode .workflows p.workflowsEnabled none = .ok true) :
    ∃ t' : Tenant, dispatchRow crm now (outboxRow id e) p = (p.set e.tenantId t', none) ∧
      (∀ d v trigger, (d, v) ∈ t.triggers.liveRows → v.content.get "trigger" = .obj trigger →
        matchesTrigger trigger e.toOutboxPayload = .ok true → Started t'.triggers.executions e.eventId d v) ∧
      ∀ c ∈ t.configs, c.isActive = true → c.disabled = false → c.subscribed e.eventType = true →
        ∃ y ∈ t'.deliveries, y.configId = c.id ∧ y.eventId = e.eventId := by
  obtain ⟨hnone, hstarted⟩ := t.trigger_started e
  let t₁ := (t.trigger e.eventId e.toOutboxPayload).1
  refine ⟨t₁.queue e.tenantId e.eventId e.toOutboxPayload now, ?_, hstarted, fun c hc hactive hdisabled hsub =>
    t₁.queue_delivered now e hc hactive hdisabled hsub⟩
  have hevent : handleDomainEvent e.toOutboxPayload p = (p.set e.tenantId t₁, none) := by
    unfold handleDomainEvent
    rw [payloadType_event, if_neg (fun h => h (List.mem_append_left _ hpublic)), eventIds_event]
    simp only [ht, hallowed, hnone, t₁]
  have hwebhook : handleOutboundWebhook now e.toOutboxPayload (p.set e.tenantId t₁) =
      (p.set e.tenantId (t₁.queue e.tenantId e.eventId e.toOutboxPayload now), none) := by
    have hget : (p.set e.tenantId t₁).tenants e.tenantId = some t₁ := Function.update_self _ _ _
    have hset : ∀ t₂, (p.set e.tenantId t₁).set e.tenantId t₂ = p.set e.tenantId t₂ := by
      intro t₂
      simp only [Platform.set, Function.update_idem]
    unfold handleOutboundWebhook
    rw [payloadType_event, isPublic_iff.mpr hpublic, eventIds_event]
    simp only [Bool.not_true, Bool.false_eq_true, if_false, hget, hset]
  change callHandlers crm now e.toOutboxPayload (relay.handlersFor e.eventType) p = _
  rw [handlersFor_relay hcrm]
  simp only [callHandlers, callHandler, hevent, hwebhook]

end Dispatching

end RevenueOS.Messaging
