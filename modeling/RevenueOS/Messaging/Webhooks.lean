import RevenueOS.Lib.Slots
import RevenueOS.Lib.Trace
import RevenueOS.Messaging.Relay

/-!
# RevenueOS.Messaging.Webhooks — delivering outbound webhooks

`sweep_pending_deliveries`, `deliver` and `_deliver_once` (`infrastructure/celery/tasks/webhook.py`) over the
delivery rows of all tenants.

A `deliver` task claims its row in one transaction, calls the transport outside any transaction and records the
result in a second one; both lock the row.  The sweep, other tasks of the same row, the clock and the
administrator may come in between, and a worker may die: its task is then run again or lost.

* `claimed_claim`, `recorded_record`: all that the two transactions can do.

`calls` and `settled` record what happened; no step reads them.  Response texts, audit records and the
`system.integration_disconnected` event are left out.
-/

namespace RevenueOS.Messaging

open RevenueOS.Py RevenueOS.Lib RevenueOS.Workflows

/-! ## Rows -/

inductive DeliveryStatus where
  | pending | processing | delivered | failed
deriving DecidableEq

/-- The statuses the sweep selects. -/
def DeliveryStatus.isOpen : DeliveryStatus → Bool
  | .pending | .processing => true
  | .delivered | .failed => false

/-- The columns of `outbound_webhook_deliveries` a delivery changes. -/
structure Delivery where
  configId : Uuid
  status : DeliveryStatus
  attempts : ℕ
  nextAttemptAt : Option ℤ
deriving DecidableEq

/-- The columns of `outbound_webhook_configs` a delivery reads. -/
structure DeliveryConfig where
  isActive : Bool
  disabledAt : Option ℤ
  failureCount : ℕ
deriving DecidableEq

/-- `MAX_DELIVERY_ATTEMPTS`. -/
def maxDeliveryAttempts : ℕ := 5

/-- `RETRY_DELAYS_SECONDS`. -/
def retryDelaysSeconds : List ℤ := [60, 900, 3600, 21600]

/-- The two minutes a claim reserves its row for. -/
def leaseSeconds : ℤ := 120

/-- The selection of `sweep_pending_deliveries`. -/
def Delivery.due (d : Delivery) (now : ℤ) : Bool :=
  d.status.isOpen && d.nextAttemptAt.any (· ≤ now) && d.attempts < maxDeliveryAttempts

/-! ## The two transactions of `_deliver_once` -/

/-- What the claim returns early with, or the row it writes. -/
inductive Claim where
  | duplicate
  | inProgress
  | inactive (d : Delivery)
  | started (d : Delivery)
deriving DecidableEq

def DeliveryConfig.usable : Option DeliveryConfig → Bool
  | none => false
  | some config => config.isActive && config.disabledAt.isNone

/-- The claim transaction. -/
def claimDelivery (now : ℤ) (config : Option DeliveryConfig) (d : Delivery) : Claim :=
  if d.status = .delivered then .duplicate
  else if d.status = .processing ∧ d.nextAttemptAt.any (now < ·) then .inProgress
  else if DeliveryConfig.usable config then
    .started { d with attempts := d.attempts + 1, status := .processing, nextAttemptAt := some (now + leaseSeconds) }
  else .inactive { d with status := .failed, nextAttemptAt := none }

/-- What `_deliver_once` reads of a `WebhookResult`. -/
structure WebhookResult where
  delivered : Bool
  terminal : Bool
deriving DecidableEq

/-- `result.terminal or attempts >= MAX_DELIVERY_ATTEMPTS`. -/
def isTerminal (attempts : ℕ) (result : WebhookResult) : Bool :=
  result.terminal || maxDeliveryAttempts ≤ attempts

/-- The delivery row of the result transaction. -/
def recordDelivery (now : ℤ) (attempts : ℕ) (result : WebhookResult) (d : Delivery) : Delivery :=
  if result.delivered then { d with status := .delivered, nextAttemptAt := none }
  else if isTerminal attempts result then { d with status := .failed, nextAttemptAt := none }
  else { d with
    status := .pending
    nextAttemptAt := (retryDelaysSeconds[attempts - 1]?).map (now + ·) }

/-- The configuration row of the result transaction. -/
def recordConfig (now : ℤ) (result : WebhookResult) (config : DeliveryConfig) : DeliveryConfig :=
  if result.delivered then { config with failureCount := 0 }
  else if 10 ≤ config.failureCount + 1 ∧ config.isActive then
    { isActive := false, disabledAt := some now, failureCount := config.failureCount + 1 }
  else { config with failureCount := config.failureCount + 1 }

/-! ## Tasks -/

/-- How far a `deliver` task has come.  `scheduled` is the `next_attempt_at` its claim found, `lease` the one it
wrote. -/
inductive Phase where
  | queued
  | claimed (attempts : ℕ) (scheduled : Option ℤ) (lease : ℤ)
  | answered (attempts : ℕ) (result : WebhookResult) (lease : ℤ)
  | over
deriving DecidableEq

structure DeliverTask where
  deliveryId : Uuid
  phase : Phase
deriving DecidableEq

/-- A call of the transport: when it was made, the `next_attempt_at` its claim found, and whether the delivery
had been delivered or failed by then. -/
structure Call where
  deliveryId : Uuid
  madeAt : ℤ
  scheduled : Option ℤ
  late : Bool

/-- How an attempt ends: the key is missing or the secret cannot be decrypted, or the transport is called.  A
`ValueError` is terminal, another exception is not. -/
inductive Sending where
  | unsent (terminal : Bool)
  | sent (result : WebhookResult)
deriving DecidableEq

def Sending.result : Sending → WebhookResult
  | .unsent terminal => ⟨false, terminal⟩
  | .sent result => result

structure WebhookState where
  now : ℤ
  deliveries : Uuid → Option Delivery
  configs : Uuid → Option DeliveryConfig
  tasks : List DeliverTask
  calls : List Call
  settled : List Uuid

namespace WebhookState

/-- Commits a delivery row. -/
def put (s : WebhookState) (id : Uuid) (d : Delivery) : WebhookState :=
  { s with
    deliveries := Function.update s.deliveries id (some d)
    settled := if d.status.isOpen then s.settled else id :: s.settled }

def setTask (s : WebhookState) (k : ℕ) (id : Uuid) (phase : Phase) : WebhookState :=
  { s with tasks := s.tasks.set k ⟨id, phase⟩ }

/-- `handle_outbound_webhook` queues a delivery. -/
def insert (s : WebhookState) (id configId : Uuid) : WebhookState :=
  match s.deliveries id with
  | some _ => s
  | none => s.put id ⟨configId, .pending, 0, some s.now⟩

/-- `deliver.apply_async`. -/
def enqueue (s : WebhookState) (ids : List Uuid) : WebhookState :=
  { s with tasks := s.tasks ++ ids.map (⟨·, .queued⟩) }

/-- `sweep_pending_deliveries`, with the rows in the order the query meets them. -/
def sweepPendingDeliveries (s : WebhookState) (found : List Uuid) : WebhookState :=
  s.enqueue ((found.dedup.filter fun id => (s.deliveries id).any (·.due s.now)).take 200)

/-- The claim of task `k`.  A delivery that is not found raises. -/
def claim (s : WebhookState) (k : ℕ) : WebhookState :=
  match s.tasks[k]? with
  | some ⟨id, .queued⟩ =>
    match s.deliveries id with
    | none => s
    | some d =>
      match claimDelivery s.now (s.configs d.configId) d with
      | .duplicate => s.setTask k id .over
      | .inProgress => s.setTask k id .over
      | .inactive d' => (s.setTask k id .over).put id d'
      | .started d' => (s.put id d').setTask k id (.claimed d'.attempts d.nextAttemptAt (s.now + leaseSeconds))
  | _ => s

/-- The attempt of task `k` between its transactions. -/
def send (s : WebhookState) (k : ℕ) (sending : Sending) : WebhookState :=
  match s.tasks[k]? with
  | some ⟨id, .claimed attempts scheduled lease⟩ =>
    let s' := s.setTask k id (.answered attempts sending.result lease)
    match sending with
    | .unsent _ => s'
    | .sent _ => { s' with calls := s.calls ++ [⟨id, s.now, scheduled, decide (id ∈ s.settled)⟩] }
  | _ => s

/-- The result transaction of task `k`.  A delivery or a configuration that is gone raises. -/
def record (s : WebhookState) (k : ℕ) : WebhookState :=
  match s.tasks[k]? with
  | some ⟨id, .answered attempts result _⟩ =>
    match s.deliveries id with
    | none => s
    | some d =>
      if d.status = .delivered ∨ d.attempts ≠ attempts then s.setTask k id .over
      else
        match s.configs d.configId with
        | none => s
        | some config =>
          { (s.setTask k id .over).put id (recordDelivery s.now attempts result d) with
            configs := Function.update s.configs d.configId (some (recordConfig s.now result config)) }
  | _ => s

/-- The message of task `k` is delivered again, or the task is retried. -/
def restart (s : WebhookState) (k : ℕ) : WebhookState :=
  match s.tasks[k]? with
  | some ⟨_, .over⟩ => s
  | some ⟨id, _⟩ => s.setTask k id .queued
  | none => s

/-- Task `k` is gone: its worker died and the message with it, or it was dead-lettered. -/
def lose (s : WebhookState) (k : ℕ) : WebhookState :=
  match s.tasks[k]? with
  | some ⟨id, _⟩ => s.setTask k id .over
  | none => s

end WebhookState

inductive WebhookStep where
  | elapse (seconds : ℕ)
  | insert (id configId : Uuid)
  | configure (id : Uuid) (config : Option DeliveryConfig)
  | sweep (found : List Uuid)
  | enqueue (id : Uuid)
  | claim (k : ℕ)
  | send (k : ℕ) (sending : Sending)
  | record (k : ℕ)
  | restart (k : ℕ)
  | lose (k : ℕ)

def WebhookState.step (s : WebhookState) : WebhookStep → WebhookState
  | .elapse seconds => { s with now := s.now + seconds }
  | .insert id configId => s.insert id configId
  | .configure id config => { s with configs := Function.update s.configs id config }
  | .sweep found => s.sweepPendingDeliveries found
  | .enqueue id => s.enqueue [id]
  | .claim k => s.claim k
  | .send k sending => s.send k sending
  | .record k => s.record k
  | .restart k => s.restart k
  | .lose k => s.lose k

def WebhookState.start (now : ℤ) (configs : Uuid → Option DeliveryConfig) : WebhookState :=
  ⟨now, fun _ => none, configs, [], [], []⟩

def activeConfigs : Uuid → Option DeliveryConfig := fun _ => some ⟨true, none, 0⟩

/-! ## What the two transactions do -/

theorem WebhookState.deliveries_put_self (s : WebhookState) (id : Uuid) (d : Delivery) :
    (s.put id d).deliveries id = some d := Function.update_self _ _ _

theorem WebhookState.deliveries_put_ne (s : WebhookState) {id id' : Uuid} (h : id' ≠ id) (d : Delivery) :
    (s.put id d).deliveries id' = s.deliveries id' := Function.update_of_ne h _ _

/-- The lease of a claim is running. -/
def Delivery.leased (d : Delivery) (now : ℤ) : Prop := d.status = .processing ∧ d.nextAttemptAt.any (now < ·) = true

theorem claimDelivery_inactive {now : ℤ} {config : Option DeliveryConfig} {d d' : Delivery}
    (h : claimDelivery now config d = .inactive d') :
    ¬d.leased now ∧ d' = { d with status := .failed, nextAttemptAt := none } := by
  unfold claimDelivery at h
  split_ifs at h with hdelivered hleased husable
  exact ⟨hleased, (Claim.inactive.inj h).symm⟩

theorem claimDelivery_started {now : ℤ} {config : Option DeliveryConfig} {d d' : Delivery}
    (h : claimDelivery now config d = .started d') :
    ¬d.leased now ∧ d' = { d with
      attempts := d.attempts + 1, status := .processing, nextAttemptAt := some (now + leaseSeconds) } := by
  unfold claimDelivery at h
  split_ifs at h with hdelivered hleased husable
  exact ⟨hleased, (Claim.started.inj h).symm⟩

theorem claimDelivery_duplicate {now : ℤ} {config : Option DeliveryConfig} {d : Delivery}
    (h : claimDelivery now config d = .duplicate) : d.status = .delivered := by
  unfold claimDelivery at h
  split_ifs at h with hdelivered
  exact hdelivered

/-- The outcomes of a claim. -/
inductive Claimed (s : WebhookState) (k : ℕ) : WebhookState → Prop where
  | idle (h : ∀ id d, s.tasks[k]? = some ⟨id, .queued⟩ → s.deliveries id ≠ some d) : Claimed s k s
  | duplicate {id : Uuid} {d : Delivery} (hk : s.tasks[k]? = some ⟨id, .queued⟩) (hd : s.deliveries id = some d)
      (h : claimDelivery s.now (s.configs d.configId) d = .duplicate) : Claimed s k (s.setTask k id .over)
  | inProgress {id : Uuid} {d : Delivery} (hk : s.tasks[k]? = some ⟨id, .queued⟩) (hd : s.deliveries id = some d)
      (h : claimDelivery s.now (s.configs d.configId) d = .inProgress) : Claimed s k (s.setTask k id .over)
  | inactive {id : Uuid} {d d' : Delivery} (hk : s.tasks[k]? = some ⟨id, .queued⟩) (hd : s.deliveries id = some d)
      (h : claimDelivery s.now (s.configs d.configId) d = .inactive d') :
      Claimed s k ((s.setTask k id .over).put id d')
  | started {id : Uuid} {d d' : Delivery} (hk : s.tasks[k]? = some ⟨id, .queued⟩) (hd : s.deliveries id = some d)
      (h : claimDelivery s.now (s.configs d.configId) d = .started d') :
      Claimed s k ((s.put id d').setTask k id (.claimed d'.attempts d.nextAttemptAt (s.now + leaseSeconds)))

theorem claimed_claim (s : WebhookState) (k : ℕ) : Claimed s k (s.claim k) := by
  unfold WebhookState.claim
  split
  · rename_i id hk
    split
    · rename_i hnone
      refine .idle fun id' d hk' hd => ?_
      rw [hk] at hk'
      cases hk'
      rw [hnone] at hd
      cases hd
    · rename_i d hd
      split
      · exact .duplicate hk hd (by assumption)
      · exact .inProgress hk hd (by assumption)
      · exact .inactive hk hd (by assumption)
      · exact .started hk hd (by assumption)
  · rename_i hk
    exact .idle fun id d hk' _ => hk id hk'

/-- The outcomes of a result transaction. -/
inductive Recorded (s : WebhookState) (k : ℕ) : WebhookState → Prop where
  | idle (h : ∀ id attempts result lease d, s.tasks[k]? = some ⟨id, .answered attempts result lease⟩ →
      s.deliveries id = some d → d.status ≠ .delivered ∧ d.attempts = attempts) : Recorded s k s
  | skipped {id : Uuid} {attempts : ℕ} {result : WebhookResult} {lease : ℤ} {d : Delivery}
      (hk : s.tasks[k]? = some ⟨id, .answered attempts result lease⟩) (hd : s.deliveries id = some d)
      (h : d.status = .delivered ∨ d.attempts ≠ attempts) : Recorded s k (s.setTask k id .over)
  | written {id : Uuid} {attempts : ℕ} {result : WebhookResult} {lease : ℤ} {d : Delivery}
      (hk : s.tasks[k]? = some ⟨id, .answered attempts result lease⟩) (hd : s.deliveries id = some d)
      (hopen : d.status ≠ .delivered) (hown : d.attempts = attempts) (configs : Uuid → Option DeliveryConfig) :
      Recorded s k { (s.setTask k id .over).put id (recordDelivery s.now attempts result d) with configs := configs }

theorem recorded_record (s : WebhookState) (k : ℕ) : Recorded s k (s.record k) := by
  unfold WebhookState.record
  split
  · rename_i id attempts result lease hk
    split
    · rename_i hnone
      refine .idle fun id' n r l d hk' hd => ?_
      rw [hk] at hk'
      cases hk'
      rw [hnone] at hd
      cases hd
    · rename_i d hd
      split_ifs with hskip
      · exact .skipped hk hd hskip
      · have hopen : d.status ≠ .delivered := fun h => hskip (Or.inl h)
        have hown : d.attempts = attempts := not_not.mp fun h => hskip (Or.inr h)
        split
        · refine .idle fun id' n r l d' hk' hd' => ?_
          rw [hk] at hk'
          cases hk'
          rw [hd] at hd'
          cases hd'
          exact ⟨hopen, hown⟩
        · exact .written hk hd hopen hown _
  · rename_i hk
    exact .idle fun id n r l d hk' _ => absurd hk' (hk id n r l)

end RevenueOS.Messaging
