import RevenueOS.Payments.History
import RevenueOS.Messaging.Relay

/-!
# RevenueOS.Payments.Publication — which transitions reach a tenant's workflows and webhooks

A committed transition to a status is stored with an outbox row of type `payment.<status>`.  The relay looks the
type up in the event catalog, which lists `payment.failed` and `payment.refunded`, but `payment.succeeded` where
the row says `payment.captured`, and nothing for `payment.attempted`.

* `published_iff`: the row of a transition is published exactly for the two statuses that the catalog lists.
* `transition_published_iff`: so is every transition that any interleaving of calls commits.
-/

namespace RevenueOS.Payments

open RevenueOS.Py RevenueOS.Lib RevenueOS.Workflows RevenueOS.Messaging RevenueOS.Tenants

/-! ## Publication -/

/-- The version is triggered by `payment.event`, without further filters. -/
def PlainPaymentTrigger (v : Version) : Prop :=
  ∃ trigger, v.content.get "trigger" = .obj trigger ∧ Dict.get trigger "type" = .str "payment.event" ∧
    Dict.get trigger "event_types" = .null ∧ Dict.get trigger "event_type" = .null ∧
    Dict.get trigger "entity" = .null

section

variable (crm : RelayHandler → Dict → Effect) (now : ℤ)

/-- Whatever the state of the platform when the row is dispatched: in a tenant with the workflow feature, every
live workflow with a plain payment trigger gets an execution for the event, and every active webhook that
subscribed to `*` gets a delivery. -/
def Published (row : EventOutbox) : Prop :=
  ∀ (p : Platform) (tenant : Tenant), p.tenants row.tenantId = some tenant →
    checkFeature tenant.planCode .workflows p.workflowsEnabled none = .ok true →
    ∃ tenant', (dispatchRow crm now row p).1.tenants row.tenantId = some tenant' ∧
      (∀ d v, (d, v) ∈ tenant.triggers.liveRows → PlainPaymentTrigger v →
        Started tenant'.triggers.executions row.eventId d v) ∧
      ∀ c ∈ tenant.configs, c.isActive = true → c.disabled = false → "*" ∈ c.eventTypes.map Json.text →
        ∃ x ∈ tenant'.deliveries, x.configId = c.id ∧ x.eventId = row.eventId

end

/-- A plain payment trigger matches every payment event. -/
theorem matchesTrigger_plain {trigger : Dict} {e : DomainEvent} (htype : trigger.get "type" = .str "payment.event")
    (htypes : trigger.get "event_types" = .null) (hevent : trigger.get "event_type" = .null)
    (hentity : trigger.get "entity" = .null) (hpayment : startsWith e.eventType "payment." = true) :
    matchesTrigger trigger e.toOutboxPayload = .ok true := by
  have hexplicit : explicitMatches ((trigger.get "event_types").or (trigger.get "event_type"))
      ((e.toOutboxPayload.get "event_type").or (.str "")).text = true := by
    rw [htypes, hevent]
    rfl
  have hconfigured : ((trigger.get "entity").or (.str "")).text = "" := by
    rw [hentity]
    rfl
  have hkind : ((trigger.get "type").or (.str "")).text = "payment.event" := by
    rw [htype]
    rfl
  have hpayload : ((e.toOutboxPayload.get "event_type").or (.str "")).text = e.eventType := payloadType_event e
  unfold matchesTrigger
  rw [toOutboxPayload_resource, dictOr_obj]
  dsimp only [bind, Except.bind]
  rw [hexplicit, hconfigured, hkind, hpayload, hpayment]
  rfl

theorem startsWith_payment (new : PaymentStatus) : startsWith ("payment." ++ new.value) "payment." = true := by
  cases new <;> decide

/-! ## The catalog -/

/-- The catalog lists the event of a transition to `failed` or `refunded`, as a public one. -/
theorem listed_iff (new : PaymentStatus) :
    "payment." ++ new.value ∈ allEventTypes ↔ new = .failed ∨ new = .refunded := by
  cases new <;> decide

theorem public_of_listed {new : PaymentStatus} (h : new = .failed ∨ new = .refunded) :
    "payment." ++ new.value ∈ publicEventTypes := by
  rcases h with rfl | rfl <;> decide

theorem not_crm (new : PaymentStatus) : "payment." ++ new.value ∉ relay.handlers.map Prod.fst := by
  cases new <;> decide

/-! ## A tenant that listens to everything -/

def paymentDocument : Dict :=
  [("name", .str "Receipts"), ("trigger", .obj [("type", .str "payment.event")]),
    ("nodes", .arr [.obj [("id", .str "note"), ("type", .str "action"), ("action", .str "task.create")]])]

/-- One published workflow for payment events, and one webhook for all events. -/
def listeningTenant : Tenant :=
  { (Tenant.new "starter").step plainInterpreter (.publish paymentDocument (sampleUuid 'w') (sampleUuid 'v')) with
    configs := [⟨sampleUuid 'c', [.str "*"], true, false⟩] }

def listeningPlatform : Platform := ⟨true, fun _ => some listeningTenant⟩

example : listeningTenant.triggers.liveRows.length = 1 := by decide +kernel

section

variable {crm : RelayHandler → Dict → Effect} {now : ℤ}

/-- An event outside the catalog is not published. -/
theorem not_published {e : DomainEvent} (h : e.eventType ∉ allEventTypes) (id : Uuid) :
    ¬ Published crm now (outboxRow id e) := by
  intro hpublished
  have hallowed : checkFeature listeningTenant.planCode .workflows true none = .ok true :=
    @checkFeature_workflows _ .starter rfl true
  obtain ⟨tenant', htenant', -, hdelivered⟩ := hpublished listeningPlatform listeningTenant rfl hallowed
  rw [dispatchRow_unlisted crm now h] at htenant'
  obtain rfl : listeningTenant = tenant' := Option.some.inj htenant'
  obtain ⟨x, hx, -⟩ := hdelivered _ (List.mem_singleton.mpr rfl) rfl rfl (List.mem_singleton.mpr rfl)
  exact absurd hx List.not_mem_nil

/-- **One transition**: its row is published exactly if the new status is `failed` or `refunded`. -/
theorem published_iff (c : Call) (p : Payment) (new : PaymentStatus) (id : Uuid) :
    Published crm now (outboxRow id (transitionEvent c p new)) ↔ new = .failed ∨ new = .refunded := by
  constructor
  · intro hpublished
    by_contra hnot
    exact not_published (e := transitionEvent c p new) (fun h => hnot ((listed_iff new).mp h)) id hpublished
  · intro hlisted platform tenant htenant hallowed
    obtain ⟨tenant', hrow, hstarted, hdelivered⟩ := dispatchRow_public crm now (e := transitionEvent c p new)
      (public_of_listed hlisted) (not_crm new) id htenant hallowed
    refine ⟨tenant', ?_, ?_, ?_⟩
    · rw [hrow]
      exact Function.update_self _ _ _
    · rintro d v hlive ⟨trigger, htrigger, htype, htypes, hevent, hentity⟩
      exact hstarted d v trigger hlive htrigger
        (matchesTrigger_plain htype htypes hevent hentity (startsWith_payment new))
    · intro config hconfig hactive hdisabled hall
      refine hdelivered config hconfig hactive hdisabled ?_
      unfold WebhookConfig.subscribed
      rw [Bool.or_eq_true, List.contains_iff_mem, List.contains_iff_mem]
      exact Or.inr hall

end

/-! ## Every transition -/

section Run

variable {ι : Type} [DecidableEq ι]

/-- **Publication**, exactly.  In any state of any number of calls, a step that commits a transition stores its
outbox row with it, and that row is published if and only if the event of the call says `failed` or
`refunded`. -/
theorem transition_published_iff (calls : ι → Call) (crm : RelayHandler → Dict → Effect) (now : ℤ) (s : Ingress ι)
    (l : IngressStep ι) (t : PaymentTransition)
    (h : (s.step calls l).db.transitions = s.db.transitions ++ [t]) :
    ∃ row, (s.step calls l).db.outbox = s.db.outbox ++ [row] ∧
      row.tenantId = t.tenantId ∧ row.resourceId = t.paymentId ∧
      row.eventType = "payment." ++ t.toStatus.value ∧
      (Published crm now row ↔ (calls l.actor).parsed.get "status" = .str "failed" ∨
        (calls l.actor).parsed.get "status" = .str "refunded") := by
  have hsame : (s.step calls l).db.transitions ≠ s.db.transitions := by
    rw [h]
    exact fun heq => absurd (List.append_right_eq_self.mp heq) (List.cons_ne_nil _ _)
  rcases @step_db_cases ι _ calls s l with hdb | ⟨read, new, -, hdb⟩ |
    ⟨existing, p, new, -, -, -, happlies, read, event, -, hdb⟩
  · exact absurd (by rw [hdb]) hsame
  · exact absurd (by rw [hdb, Database.saveEvent_transitions]) hsame
  · have htransitions : (s.step calls l).db.transitions =
        s.db.transitions ++ [newTransition s.db (calls l.actor) p new] := by
      rw [hdb]
      dsimp only [applyTransition]
    obtain rfl : t = newTransition s.db (calls l.actor) p new :=
      List.singleton_inj.mp (List.append_cancel_left (h.symm.trans htransitions))
    refine ⟨outboxRow (calls l.actor).outboxId (transitionEvent (calls l.actor) p new), ?_, rfl, rfl, rfl, ?_⟩
    · rw [hdb]
      dsimp only [applyTransition]
    · rw [published_iff, happlies.status]
      cases new <;> simp [PaymentStatus.value]

end Run

/-! ## A captured and a failed payment -/

/-- An attempted payment, with the call about to commit. -/
def aboutToCommit (call : Call) : Ingress Unit :=
  after (Ingress.step (fun _ => call)) (.start (sampleDatabase { samplePayment with status := .attempted }))
    [.look (), .resolve ()]

/-- CRM handlers that find nothing to do. -/
def quietCrm : RelayHandler → Dict → Effect := fun _ _ p => (p, none)

def failureCall : Call := sampleCall "payment.failed" "evt_2" "failed"

def captureCall : Call := sampleCall "payment.captured" "evt_2" "captured"

/-- The state the call leaves. -/
def committed (call : Call) : Database := ((aboutToCommit call).step (fun _ => call) (.finish ())).db

/-- The transition it commits. -/
def moved (call : Call) (new : PaymentStatus) : PaymentTransition :=
  newTransition (aboutToCommit call).db call { samplePayment with status := .attempted } new

theorem failed_published :
    (committed failureCall).transitions = (aboutToCommit failureCall).db.transitions ++ [moved failureCall .failed] ∧
      ∃ row, (committed failureCall).outbox = (aboutToCommit failureCall).db.outbox ++ [row] ∧
        Published quietCrm 0 row := by
  have hmoved : (committed failureCall).transitions =
      (aboutToCommit failureCall).db.transitions ++ [moved failureCall .failed] := rfl
  obtain ⟨row, hrow, -, -, -, hiff⟩ := transition_published_iff (fun _ => failureCall) quietCrm 0
    (aboutToCommit failureCall) (.finish ()) (moved failureCall .failed) hmoved
  exact ⟨hmoved, row, hrow, hiff.mpr (Or.inl rfl)⟩

/-- The move from `attempted` to `captured` is committed, and its row is dropped by the relay. -/
theorem captured_not_published : ¬ ∀ t,
    (committed captureCall).transitions = (aboutToCommit captureCall).db.transitions ++ [t] →
      ∃ row, (committed captureCall).outbox = (aboutToCommit captureCall).db.outbox ++ [row] ∧
        Published quietCrm 0 row := by
  intro hclaim
  obtain ⟨row, hrow, hpublished⟩ := hclaim (moved captureCall .captured) rfl
  have hcommitted : (committed captureCall).outbox = (aboutToCommit captureCall).db.outbox ++
      [outboxRow captureCall.outboxId
        (transitionEvent captureCall { samplePayment with status := .attempted } .captured)] := rfl
  obtain rfl := List.singleton_inj.mp (List.append_cancel_left (hrow.symm.trans hcommitted))
  rw [published_iff] at hpublished
  rcases hpublished with h | h <;> cases h

end RevenueOS.Payments
