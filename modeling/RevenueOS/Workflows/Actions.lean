import RevenueOS.Workflows.Executor
import RevenueOS.Lib.Assoc
import RevenueOS.Lib.Slots
import RevenueOS.Lib.Trace

/-!
# RevenueOS.Workflows.Actions — one effect per execution and node

`application/workflows/actions.py`: a workflow action is applied under an advisory lock on its correlation,
after a look for a receipt, and the receipt is the audit row that the called service writes in the
transaction of its effect.  `applyAction` follows `_apply_action` into the services down to that row.

The attempts of one execution and node (retries, redeliveries, duplicates) share a correlation
(`actionCorrelation_attempt`), hence one lock and one receipt; they are the processes of `ActionState`, and a
worker may die at any point, which releases its lock.  An attempt that `dispatch_action` refuses (permission,
feature, configuration) never takes the lock.

* `receipt_iff`: which service paths write a row that counts as a receipt.
* `effect_once_iff`: the effect commits at most once, whatever the schedule, exactly for those paths.
-/

namespace RevenueOS.Workflows

open RevenueOS.Py RevenueOS.Lib

/-! ## Receipts -/

/-- `AUDIT_ACTIONS`: the audit rows that count as the receipt of an action. -/
def auditActions : List (String × List String) :=
  [("lead.create", ["lead.create"]),
    ("lead.update", ["lead.update"]),
    ("lead.assign", ["lead.update"]),
    ("contact.create", ["contact.create"]),
    ("contact.update", ["contact.update"]),
    ("deal.create", ["deal.create"]),
    ("deal.update", ["deal.update"]),
    ("deal.move_stage", ["deal.stage_change"]),
    ("task.create", ["task.create"]),
    ("tag.add", ["contact.update"]),
    ("tag.remove", ["contact.update"]),
    ("note.create", ["note.create"]),
    ("activity.create", ["activity.log"]),
    ("message.send_whatsapp", ["message.queue"]),
    ("message.send_email", ["message.queue"]),
    ("message.send_sms", ["message.queue"]),
    ("notification.in_app", ["notification.create"]),
    ("appointment.create", ["appointment.book"]),
    ("appointment.cancel", ["appointment.cancel"]),
    ("document.generate", ["document.create"]),
    ("webhook.call", ["webhook.call"]),
    ("ai.task", ["ai.task"]),
    ("analytics.emit", ["analytics.emit"])]

/-- `action_correlation`, over the hash of the logical key. -/
def actionCorrelation (sha256 : String → String) (idempotencyKey : String) : String :=
  "wfa:" ++ sha256 (beforeLast idempotencyKey ':')

theorem beforeLast_append (s t : String) (h : ':' ∉ t.toList) : beforeLast (s ++ ":" ++ t) ':' = s := by
  have hmem : ':' ∈ (s ++ ":" ++ t).toList := by simp
  unfold beforeLast
  rw [if_pos hmem]
  have hrev : (s ++ ":" ++ t).toList.reverse = t.toList.reverse ++ ':' :: s.toList.reverse := by simp
  have hdrop : ∀ (l : List Char) (m : List Char), ':' ∉ l →
      (l ++ ':' :: m).dropWhile (· != ':') = ':' :: m := by
    intro l m hl
    induction l with
    | nil => simp
    | cons c l ih =>
      rw [List.mem_cons, not_or] at hl
      have hc : (c != ':') = true := by simpa [bne_iff_ne] using Ne.symm hl.1
      rw [List.cons_append, List.dropWhile_cons, if_pos hc]
      exact ih hl.2
  rw [hrev, hdrop _ _ (by simpa using h)]
  simp

/-- The attempt number is no part of the correlation. -/
theorem actionCorrelation_attempt (sha256 : String → String) (executionId nodeId : String) (attempt : ℕ) :
    actionCorrelation sha256 (actionIdempotencyKey executionId nodeId attempt) =
      "wfa:" ++ sha256 (executionId ++ ":" ++ nodeId) := by
  unfold actionCorrelation actionIdempotencyKey
  rw [beforeLast_append]
  intro hmem
  have htext : toString (attempt : ℤ) = toString attempt := rfl
  rw [htext, Nat.toString_eq_ofList_toDigits, String.toList_ofList] at hmem
  have := Nat.isDigit_of_mem_toDigits (by decide) (by decide) hmem
  simp [Char.isDigit] at this

/-! ## The services -/

/-- What an audit row says that a receipt is looked up by. -/
structure AuditRow where
  action : String
  outcome : String
deriving DecidableEq, Repr

/-- A row with the recorder's default outcome. -/
def AuditRow.success (action : String) : AuditRow := ⟨action, "success"⟩

/-- What the conversation and the provider contribute to a message action: the lead the conversation belongs
to, whether the channel has a configured provider, and whether the provider accepts the message. -/
structure Target where
  leadId : Option String
  channelReady : Bool
  delivered : Bool
deriving DecidableEq, Repr

/-- The row of `WhatsAppReplyService.reply`. -/
def whatsappReply (t : Target) : AuditRow := ⟨"whatsapp.reply", if t.delivered then "success" else "failure"⟩

/-- The row of `InboxService.send`: a ready WhatsApp conversation of a lead is answered at once. -/
def inboxSend (channel : String) (t : Target) : AuditRow :=
  if channel = "whatsapp" ∧ t.channelReady = true ∧ t.leadId.isSome = true then whatsappReply t
  else .success "message.queue"

/-- The row the service behind `_apply_action` commits together with its effect; `none` where no service is
called. -/
def applyAction (action : String) (t : Target) : Option AuditRow :=
  if startsWith action "lead." then
    some (.success (if action = "lead.create" then "lead.create" else "lead.update"))
  else if startsWith action "contact." then
    some (.success (if action = "contact.create" then "contact.create" else "contact.update"))
  else if startsWith action "deal." then
    some (.success (if action = "deal.create" then "deal.create"
      else if action = "deal.move_stage" then "deal.stage_change" else "deal.update"))
  else if action = "task.create" then some (.success "task.create")
  else if action = "tag.add" ∨ action = "tag.remove" then some (.success "contact.update")
  else if action = "note.create" then some (.success "note.create")
  else if action = "activity.create" then some (.success "activity.log")
  else if startsWith action "message.send_" then
    some (inboxSend (String.ofList (action.toList.drop "message.send_".length)) t)
  else if action = "appointment.create" then some (.success "appointment.book")
  else if action = "appointment.cancel" then some (.success "appointment.cancel")
  else if action = "document.generate" then some (.success "document.create")
  else if action = "notification.in_app" then some (.success "notification.create")
  else if action = "webhook.call" then some (.success "webhook.call")
  else if action = "ai.task" then some (.success "ai.task")
  else if action = "analytics.emit" then some (.success "analytics.emit")
  else none

/-- The row is found by the receipt query. -/
def isReceipt (expected : List String) (row : AuditRow) : Bool :=
  expected.contains row.action && row.outcome == "success"

/-- The action answers a lead's WhatsApp conversation through the configured provider. -/
def RepliesToLead (action : String) (t : Target) : Prop :=
  action = "message.send_whatsapp" ∧ t.channelReady = true ∧ t.leadId.isSome = true

instance (action : String) (t : Target) : Decidable (RepliesToLead action t) :=
  inferInstanceAs (Decidable (_ ∧ _ ∧ _))

/-- Every listed action calls a service, whose row is the receipt unless it replies to a lead. -/
theorem receipt_iff {action : String} {expected : List String} (h : auditActions.lookup action = some expected)
    (t : Target) : ∃ row, applyAction action t = some row ∧
      (isReceipt expected row = true ↔ ¬ RepliesToLead action t) := by
  by_cases hw : action = "message.send_whatsapp"
  · subst hw
    obtain rfl : ["message.queue"] = expected := Option.some.inj h
    refine ⟨inboxSend "whatsapp" t, rfl, ?_⟩
    by_cases hr : RepliesToLead "message.send_whatsapp" t
    · rw [inboxSend, if_pos ⟨rfl, hr.2⟩]
      exact iff_of_false (by simp [isReceipt, whatsappReply]) (not_not.mpr hr)
    · rw [inboxSend, if_neg (fun hc => hr ⟨rfl, hc.2⟩)]
      exact iff_of_true (by decide) hr
  · have hmem := mem_of_lookup h
    have hno : ¬ RepliesToLead action t := fun hc => hw hc.1
    simp only [auditActions, List.mem_cons, Prod.mk.injEq, List.not_mem_nil, or_false] at hmem
    rcases hmem with ⟨rfl, rfl⟩ | ⟨rfl, rfl⟩ | ⟨rfl, rfl⟩ | ⟨rfl, rfl⟩ | ⟨rfl, rfl⟩ | ⟨rfl, rfl⟩ | ⟨rfl, rfl⟩ |
      ⟨rfl, rfl⟩ | ⟨rfl, rfl⟩ | ⟨rfl, rfl⟩ | ⟨rfl, rfl⟩ | ⟨rfl, rfl⟩ | ⟨rfl, rfl⟩ | ⟨rfl, rfl⟩ | ⟨rfl, rfl⟩ |
      ⟨rfl, rfl⟩ | ⟨rfl, rfl⟩ | ⟨rfl, rfl⟩ | ⟨rfl, rfl⟩ | ⟨rfl, rfl⟩ | ⟨rfl, rfl⟩ | ⟨rfl, rfl⟩ | ⟨rfl, rfl⟩
    all_goals first
      | exact absurd rfl hw
      | exact ⟨_, rfl, iff_of_true rfl hno⟩

/-! ## Attempts -/

/-- How an attempt ends. -/
inductive AttemptOutcome where
  | applied | duplicate | raised | crashed
deriving DecidableEq, Repr

/-- Where an attempt stands in `_execute_once`. -/
inductive AttemptPc where
  | waiting | applying | verifying
  | ended (outcome : AttemptOutcome)
deriving DecidableEq, Repr

/-- The attempt is inside the transaction that took the lock. -/
def AttemptPc.Holds (pc : AttemptPc) : Prop := pc = .applying ∨ pc = .verifying

/-- The attempts of one execution and node: the audit rows under their correlation, how often the service
committed, and the attempt that holds the advisory lock. -/
structure ActionState where
  audits : List AuditRow
  effects : ℕ
  lock : Option ℕ
  attempts : List AttemptPc
deriving DecidableEq, Repr

inductive ActionStep where
  | attempt
  | lock (k : ℕ)
  | commit (k : ℕ) (target : Target)
  | fail (k : ℕ)
  | verify (k : ℕ)
  | crash (k : ℕ)
deriving DecidableEq, Repr

namespace ActionState

/-- Before the first attempt. -/
def start : ActionState := ⟨[], 0, none, []⟩

/-- The attempt leaves; its transaction ends and with it the lock. -/
def finish (s : ActionState) (k : ℕ) (outcome : AttemptOutcome) : ActionState :=
  { s with
    lock := if s.lock = some k then none else s.lock
    attempts := s.attempts.set k (.ended outcome) }

/-- One step of `_execute_once(action, .., expected_audits)` by one of the attempts. -/
def step (action : String) (expected : List String) (s : ActionState) : ActionStep → ActionState
  | .attempt => { s with attempts := s.attempts ++ [.waiting] }
  | .lock k =>
    if s.attempts[k]? = some .waiting ∧ s.lock = none then
      if s.audits.any (isReceipt expected) then s.finish k .duplicate
      else { s with lock := some k, attempts := s.attempts.set k .applying }
    else s
  | .commit k target =>
    if s.attempts[k]? = some .applying then
      match applyAction action target with
      | some row =>
        { s with
          audits := s.audits ++ [row]
          effects := s.effects + 1
          attempts := s.attempts.set k .verifying }
      | none => s.finish k .raised
    else s
  -- the service raises, before its transaction or after it
  | .fail k =>
    if s.attempts[k]? = some .applying ∨ s.attempts[k]? = some .verifying then s.finish k .raised else s
  | .verify k =>
    if s.attempts[k]? = some .verifying then
      s.finish k (if s.audits.any (isReceipt expected) then .applied else .raised)
    else s
  | .crash k => s.finish k .crashed

/-- Only the holder of the lock is past the receipt query, nothing committed before it applies, and what
committed left a receipt. -/
structure Inv (expected : List String) (s : ActionState) : Prop where
  holder : ∀ (k : ℕ) (pc : AttemptPc), s.attempts[k]? = some pc → pc.Holds → s.lock = some k
  fresh : ∀ k : ℕ, s.attempts[k]? = some .applying → s.effects = 0
  receipt : s.effects = 0 ∨ s.effects = 1 ∧ s.audits.any (isReceipt expected) = true

variable {expected : List String} {s : ActionState}

theorem inv_finish (hi : Inv expected s) (k : ℕ) (outcome : AttemptOutcome) :
    Inv expected (s.finish k outcome) := by
  refine ⟨?_, ?_, hi.receipt⟩
  · intro j pc hj hpc
    rcases getElem?_set_cases hj with ⟨-, rfl⟩ | ⟨hne, hj⟩
    · rcases hpc with h | h <;> cases h
    · have hlock := hi.holder j pc hj hpc
      simp [finish, hlock, hne]
  · intro j hj
    rcases getElem?_set_cases hj with ⟨-, h⟩ | ⟨-, hj⟩
    · cases h
    · exact hi.fresh j hj

theorem inv_attempt (hi : Inv expected s) : Inv expected { s with attempts := s.attempts ++ [.waiting] } := by
  refine ⟨?_, ?_, hi.receipt⟩
  · intro j pc hj hpc
    rcases getElem?_concat_cases hj with rfl | hj
    · rcases hpc with h | h <;> cases h
    · exact hi.holder j pc hj hpc
  · intro j hj
    rcases getElem?_concat_cases hj with h | hj
    · cases h
    · exact hi.fresh j hj

/-- The lock was free: nobody else holds it, and without a receipt nothing has committed. -/
theorem inv_lock (hi : Inv expected s) {k : ℕ} (hfree : s.lock = none)
    (hr : ¬ s.audits.any (isReceipt expected) = true) :
    Inv expected { s with lock := some k, attempts := s.attempts.set k .applying } := by
  have hnone : s.effects = 0 := hi.receipt.resolve_right (fun hc => hr hc.2)
  refine ⟨?_, fun _ _ => hnone, Or.inl hnone⟩
  intro j pc hj hpc
  rcases getElem?_set_cases hj with ⟨rfl, -⟩ | ⟨-, hj⟩
  · rfl
  · exact absurd ((hi.holder j pc hj hpc).symm.trans hfree) (by simp)

/-- The holder commits for the first time, and leaves a receipt. -/
theorem inv_commit (hi : Inv expected s) {k : ℕ} {row : AuditRow} (ha : s.attempts[k]? = some .applying)
    (hrow : isReceipt expected row = true) :
    Inv expected { s with
      audits := s.audits ++ [row]
      effects := s.effects + 1
      attempts := s.attempts.set k .verifying } := by
  have hlock := hi.holder k _ ha (Or.inl rfl)
  refine ⟨?_, ?_, Or.inr ⟨?_, ?_⟩⟩
  · intro j pc hj hpc
    rcases getElem?_set_cases hj with ⟨rfl, -⟩ | ⟨-, hj⟩
    · exact hlock
    · exact hi.holder j pc hj hpc
  · intro j hj
    rcases getElem?_set_cases hj with ⟨-, hc⟩ | ⟨hne, hj⟩
    · cases hc
    · have hsame := (hi.holder j _ hj (Or.inl rfl)).symm.trans hlock
      exact absurd (Option.some.inj hsame) hne
  · simp only [hi.fresh k ha]
  · simp [hrow]

/-- **One step** keeps the invariant when what it commits leaves a receipt. -/
theorem inv_step {action : String} (h : auditActions.lookup action = some expected) (hi : Inv expected s)
    (l : ActionStep) (hl : ∀ k t, l = .commit k t → ¬ RepliesToLead action t) :
    Inv expected (s.step action expected l) := by
  cases l with
  | attempt => exact inv_attempt hi
  | lock k =>
    simp only [step]
    split_ifs with hw hr
    · exact inv_finish hi k _
    · exact inv_lock hi hw.2 hr
    · exact hi
  | commit k t =>
    simp only [step]
    split_ifs with ha
    · obtain ⟨row, hrow, hreceipt⟩ := receipt_iff h t
      rw [hrow]
      exact inv_commit hi ha (hreceipt.mpr (hl k t rfl))
    · exact hi
  | fail k =>
    simp only [step]
    split_ifs
    · exact inv_finish hi k _
    · exact hi
  | verify k =>
    simp only [step]
    by_cases hv : s.attempts[k]? = some .verifying
    · rw [if_pos hv]
      exact inv_finish hi k _
    · rw [if_neg hv]
      exact hi
  | crash k => exact inv_finish hi k _

theorem inv_start (expected : List String) : Inv expected start :=
  ⟨fun _ _ h => by simp [start] at h, fun _ h => by simp [start] at h, Or.inl rfl⟩

end ActionState

/-! ## At most one effect -/

/-- What the step commits, if anything, has a target in `T`. -/
def CommitsIn (T : Target → Prop) (_ : ActionState) (l : ActionStep) : Prop := ∀ k t, l = .commit k t → T t

/-- However the attempts are scheduled and wherever workers die, the service commits at most once. -/
def EffectOnce (action : String) (expected : List String) (T : Target → Prop) : Prop :=
  ∀ steps, Meets (ActionState.step action expected) (CommitsIn T) .start steps →
    Always (ActionState.step action expected) (fun s => s.effects ≤ 1) .start steps

/-- Two attempts in a row: the first raises for want of a receipt, the second applies again. -/
def retried (t : Target) : List ActionStep :=
  [.attempt, .lock 0, .commit 0 t, .verify 0, .attempt, .lock 1, .commit 1 t, .verify 1]

theorem retried_effects {t : Target} (h : RepliesToLead "message.send_whatsapp" t) :
    (after (ActionState.step "message.send_whatsapp" ["message.queue"]) .start (retried t)).effects = 2 := by
  obtain ⟨leadId, channelReady, delivered⟩ := t
  obtain ⟨-, hready, hlead⟩ := h
  obtain ⟨id, rfl⟩ := Option.isSome_iff_exists.mp hlead
  obtain rfl : channelReady = true := hready
  cases delivered <;> rfl

theorem ActionState.Inv.effects_le {expected : List String} {s : ActionState} (hi : s.Inv expected) :
    s.effects ≤ 1 := by
  rcases hi.receipt with h0 | h1
  · rw [h0]; exact Nat.zero_le 1
  · exact h1.1.le

/-- **At most one effect**, exactly: whatever targets an action is given, its service commits at most once
per execution and node iff none of them is a lead's conversation answered over WhatsApp. -/
theorem effect_once_iff {action : String} {expected : List String}
    (h : auditActions.lookup action = some expected) (T : Target → Prop) :
    EffectOnce action expected T ↔ ∀ t, T t → ¬ RepliesToLead action t := by
  constructor
  · intro honce t ht hr
    obtain rfl := hr.1
    obtain rfl : ["message.queue"] = expected := Option.some.inj h
    have hin : Meets (ActionState.step "message.send_whatsapp" ["message.queue"]) (CommitsIn T) .start
        (retried t) := by
      simp [retried, Meets, CommitsIn, ht]
    have hle := always_last (honce (retried t) hin)
    rw [retried_effects hr] at hle
    omega
  · intro hT steps hsteps
    exact always_of_inv (ActionState.Inv expected) (fun s hi => hi.effects_le)
      (fun s l hi hl => ActionState.inv_step h hi l (fun k t hk => hT t (hl k t hk))) steps _
      (ActionState.inv_start expected) hsteps

/-- A message by e-mail is queued once, whatever the conversation. -/
theorem email_once : EffectOnce "message.send_email" ["message.queue"] (fun _ => True) :=
  (effect_once_iff rfl _).mpr (fun _ _ hr => absurd hr.1 (by decide))

/-- Over WhatsApp a retry sends the message to the lead a second time. -/
theorem whatsapp_sends_twice : ¬ EffectOnce "message.send_whatsapp" ["message.queue"] (fun _ => True) := by
  intro h
  have hin : Meets (ActionState.step "message.send_whatsapp" ["message.queue"]) (CommitsIn (fun _ => True))
      .start (retried ⟨some "lead", true, true⟩) := by
    simp [retried, Meets, CommitsIn]
  have hle := always_last (h _ hin)
  revert hle
  decide

end RevenueOS.Workflows
