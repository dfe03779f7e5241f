import RevenueOS.Communications.Messages
import RevenueOS.Lib.Except
import RevenueOS.Lib.Trace

/-!
# RevenueOS.Communications.Receipts — delivery receipts

`ingest_status_update` (`application/communications/whatsapp_ingest.py`).  A callback is applied to the one message of
its workspace with its provider id.  `rank` orders pending, sent, delivered and read; a failure is written whatever the
status was, and ranks lowest afterwards.

* `foldl_next_of_forward`, `foldl_next_of_failed`: the two kinds of callbacks that agree in every order.
* `receipts_forward_iff`: when the callbacks of a message only move it forward, and to the same status in every order.
-/

namespace RevenueOS.Communications

open RevenueOS.Py RevenueOS.Lib RevenueOS.Workflows

/-! ## A callback -/

/-- The first of the `errors` of a callback. -/
structure ProviderError where
  title : Option String
  message : Option String

/-- An event of kind `status_update`. -/
structure StatusEvent where
  externalId : Option String
  status : Option String
  businessPhoneNumberId : Option String
  error : Option ProviderError

/-- The statuses a callback may report. -/
inductive Receipt where
  | sent
  | delivered
  | read
  | failed
deriving DecidableEq

namespace Receipt

def name : Receipt → String
  | sent => "sent"
  | delivered => "delivered"
  | read => "read"
  | failed => "failed"

def ofName? (text : String) : Option Receipt :=
  [sent, delivered, read, failed].find? fun receipt => receipt.name = text

def status : Receipt → MessageStatus
  | sent => .sent
  | delivered => .delivered
  | read => .read
  | failed => .failed

end Receipt

/-- `rank.get(status, 0)`. -/
def rank : MessageStatus → ℕ
  | .pending => 0
  | .sent => 1
  | .delivered => 2
  | .read => 3
  | .queued | .failed | .bounced => 0

/-- `str(error.get("title") or error.get("message") or "")`. -/
def ProviderError.text (error : Option ProviderError) : String :=
  match error with
  | none => ""
  | some error =>
    if error.title.getD "" ≠ "" then error.title.getD "" else error.message.getD ""

/-- The row after a callback. -/
def Message.applyReceipt (m : Message) (receipt : Receipt) (error : Option ProviderError) (now : ℕ) : Message :=
  if receipt = .failed then { m with status := .failed, failureReason := some (slice (ProviderError.text error) 300) }
  else if rank receipt.status > rank m.status then
    { m with
      status := receipt.status
      deliveredAt :=
        if receipt = .delivered then some now
        else if receipt = .read then m.deliveredAt.or (some now)
        else m.deliveredAt
      readAt := if receipt = .read then some now else m.readAt }
  else m

def Message.IsProviderMessage (tenantId : Uuid) (externalId : String) (m : Message) : Prop :=
  m.tenantId = tenantId ∧ m.channel = .whatsapp ∧ m.externalId = some externalId

instance (tenantId : Uuid) (externalId : String) (m : Message) : Decidable (m.IsProviderMessage tenantId externalId) :=
  inferInstanceAs (Decidable (m.tenantId = tenantId ∧ m.channel = .whatsapp ∧ m.externalId = some externalId))

structure MessageTables where
  channels : List ChannelRow
  messages : Table Message.key

/-- The messages of a workspace with a provider id. -/
def MessageTables.named (s : MessageTables) (tenantId : Uuid) (externalId : String) : List Message :=
  s.messages.rows.filter fun m => m.IsProviderMessage tenantId externalId

/-- `ingest_status_update`. -/
def ingestStatusUpdate (s : MessageTables) (event : StatusEvent) (now : ℕ) :
    Except CommsError (Ingested × MessageTables) :=
  let externalId := event.externalId.getD ""
  if externalId = "" then .ok ({ accepted := false, reason := "unusable_status" }, s)
  else
    match Receipt.ofName? (event.status.getD "") with
    | none => .ok ({ accepted := false, reason := "unusable_status" }, s)
    | some receipt => do
      let tenantId ← resolveTenant s.channels event.businessPhoneNumberId
      match tenantId with
      | none => pure ({ accepted := false, reason := "no_tenant_for_business_number" }, s)
      | some tenantId =>
        let found ← scalarOneOrNone (s.named tenantId externalId)
        match found with
        | none => pure ({ accepted := false, reason := "unknown_message", tenantId := some tenantId }, s)
        | some m =>
          pure ({ accepted := true, reason := receipt.name, tenantId := some tenantId },
            { s with messages := s.messages.set (m.applyReceipt receipt event.error now) })

/-- A callback and the instant it is applied; one that raises is rolled back. -/
def deliver (s : MessageTables) (e : StatusEvent × ℕ) : MessageTables :=
  match ingestStatusUpdate s e.1 e.2 with
  | .ok (_, s') => s'
  | .error _ => s

/-- The receipt of a callback that reaches the message of this key. -/
def receiptFor (s : MessageTables) (k : Uuid × ℕ) (event : StatusEvent) : Option Receipt :=
  let externalId := event.externalId.getD ""
  if externalId = "" then none
  else
    match Receipt.ofName? (event.status.getD ""), resolveTenant s.channels event.businessPhoneNumberId with
    | some receipt, .ok (some tenantId) =>
      if (s.named tenantId externalId).map Message.key = [k] then some receipt else none
    | _, _ => none

/-! ## The status -/

/-- The status after a receipt. -/
def MessageStatus.next (status : MessageStatus) (receipt : Receipt) : MessageStatus :=
  if receipt = .failed then .failed
  else if rank receipt.status > rank status then receipt.status
  else status

theorem status_applyReceipt (m : Message) (receipt : Receipt) (error : Option ProviderError) (now : ℕ) :
    (m.applyReceipt receipt error now).status = m.status.next receipt := by
  unfold Message.applyReceipt MessageStatus.next
  split_ifs <;> rfl

theorem key_applyReceipt (m : Message) (receipt : Receipt) (error : Option ProviderError) (now : ℕ) :
    (m.applyReceipt receipt error now).key = m.key := by
  unfold Message.applyReceipt
  split_ifs <;> rfl

theorem isProviderMessage_applyReceipt {m : Message} {receipt : Receipt} {error : Option ProviderError} {now : ℕ}
    {tenantId : Uuid} {externalId : String} :
    (m.applyReceipt receipt error now).IsProviderMessage tenantId externalId ↔
      m.IsProviderMessage tenantId externalId := by
  unfold Message.applyReceipt
  split_ifs <;> rfl

def statusOf (s : MessageTables) (k : Uuid × ℕ) : Option MessageStatus := (s.messages.find? k).map (·.status)

/-- What a callback does: nothing, or a receipt on one row. -/
theorem deliver_cases (s : MessageTables) (e : StatusEvent × ℕ) :
    (deliver s e = s ∧ ∀ k, receiptFor s k e.1 = none) ∨
      ∃ m receipt, m ∈ s.messages.rows ∧ (∀ k, receiptFor s k e.1 = if m.key = k then some receipt else none) ∧
        deliver s e = { s with messages := s.messages.set (m.applyReceipt receipt e.1.error e.2) } := by
  unfold deliver ingestStatusUpdate receiptFor
  dsimp only
  by_cases hid : e.1.externalId.getD "" = ""
  · left
    simp only [if_pos hid, implies_true, and_self]
  · rw [if_neg hid]
    cases hreceipt : Receipt.ofName? (e.1.status.getD "") with
    | none =>
      left
      simp only [ite_self, implies_true, and_self]
    | some receipt =>
      cases htenant : resolveTenant s.channels e.1.businessPhoneNumberId with
      | error err =>
        left
        simp only [bind, Except.bind, ite_self, implies_true, and_self]
      | ok tenant =>
        cases tenant with
        | none =>
          left
          simp only [bind, Except.bind, pure, Except.pure, ite_self, implies_true, and_self]
        | some tenantId =>
          simp only [if_neg hid]
          cases hnamed : s.named tenantId (e.1.externalId.getD "") with
          | nil =>
            left
            simp [bind, Except.bind, scalarOneOrNone, pure, Except.pure, hnamed]
          | cons m rest =>
            cases rest with
            | nil =>
              right
              have hmem : m ∈ s.named tenantId (e.1.externalId.getD "") := hnamed ▸ List.mem_singleton_self m
              refine ⟨m, receipt, (List.mem_filter.mp hmem).1, fun k => ?_, ?_⟩
              · simp only [List.map_cons, List.map_nil, List.cons.injEq, and_true]
              · simp [bind, Except.bind, scalarOneOrNone, pure, Except.pure, hnamed]
            | cons m' rest =>
              left
              simp [bind, Except.bind, scalarOneOrNone, hnamed]

theorem receiptFor_deliver (s : MessageTables) (e : StatusEvent × ℕ) (k : Uuid × ℕ) (event : StatusEvent) :
    receiptFor (deliver s e) k event = receiptFor s k event := by
  rcases deliver_cases s e with ⟨hsame, -⟩ | ⟨m, receipt, hmem, -, hset⟩
  · rw [hsame]
  · have hnamed : ∀ (tenantId : Uuid) (externalId : String),
        ((deliver s e).named tenantId externalId).map Message.key = (s.named tenantId externalId).map Message.key := by
      intro tenantId externalId
      rw [hset]
      unfold MessageTables.named
      dsimp only
      rw [Table.rows_set, List.filter_map, List.map_map]
      -- the row that is replaced keeps its key and its provider id
      have hrow : ∀ a ∈ s.messages.rows, a.key = (m.applyReceipt receipt e.1.error e.2).key → a = m := by
        intro a ha hkey
        rw [key_applyReceipt] at hkey
        exact Table.eq_of_key ha hmem hkey
      rw [List.filter_congr (q := fun m => decide (m.IsProviderMessage tenantId externalId))]
      · refine List.map_congr_left fun a ha => ?_
        dsimp only [Function.comp]
        split_ifs with hkey
        · exact hkey.symm
        · rfl
      · intro a ha
        dsimp only [Function.comp]
        split_ifs with hkey
        · rw [hrow a ha hkey, decide_eq_decide]
          exact isProviderMessage_applyReceipt
        · rfl
    have hchannels : (deliver s e).channels = s.channels := by rw [hset]
    unfold receiptFor
    dsimp only
    rw [hchannels]
    simp only [hnamed]

theorem statusOf_deliver (s : MessageTables) (e : StatusEvent × ℕ) (k : Uuid × ℕ) :
    statusOf (deliver s e) k =
      (statusOf s k).map fun status => (receiptFor s k e.1).toList.foldl MessageStatus.next status := by
  rcases deliver_cases s e with ⟨hsame, hnone⟩ | ⟨m, receipt, hmem, hreceipt, hset⟩
  · rw [hsame, hnone]
    exact Option.map_id'.symm
  · rw [hset, hreceipt]
    unfold statusOf
    dsimp only
    split_ifs with hkey
    · subst hkey
      have hfind := Table.find?_of_mem hmem
      rw [← key_applyReceipt m receipt e.1.error e.2] at hfind ⊢
      rw [Table.find?_set_self hfind, hfind]
      exact congrArg some (status_applyReceipt m receipt e.1.error e.2)
    · rw [Table.find?_set_of_ne]
      · exact Option.map_id'.symm
      · rw [key_applyReceipt]
        exact Ne.symm hkey

/-- The receipts of a run of callbacks that reach a message. -/
def receiptsFor (s : MessageTables) (k : Uuid × ℕ) (events : List StatusEvent) : List Receipt :=
  events.filterMap (receiptFor s k)

/-- The status after a run is that of the receipts that reach the message. -/
theorem statusOf_after (k : Uuid × ℕ) : ∀ (ds : List (StatusEvent × ℕ)) (s : MessageTables),
    statusOf (after deliver s ds) k =
      (statusOf s k).map fun status => (receiptsFor s k (ds.map Prod.fst)).foldl MessageStatus.next status
  | [], s => Option.map_id'.symm
  | e :: ds, s => by
    have hreceipts : receiptsFor (deliver s e) k (ds.map Prod.fst) = receiptsFor s k (ds.map Prod.fst) :=
      List.filterMap_congr fun event _ => receiptFor_deliver s e k event
    show statusOf (after deliver (deliver s e) ds) k = _
    rw [statusOf_after k ds (deliver s e), hreceipts, statusOf_deliver, Option.map_map]
    refine congrArg (fun f => Option.map f (statusOf s k)) (funext fun status => ?_)
    dsimp only [Function.comp]
    rw [← List.foldl_append]
    refine congrArg (List.foldl MessageStatus.next status) ?_
    unfold receiptsFor
    rw [List.map_cons, List.filterMap_cons]
    cases receiptFor s k e.1 <;> rfl

/-! ## Receipts in any order -/

theorem next_ne_failed {receipt : Receipt} (h : receipt ≠ .failed) (status : MessageStatus) :
    status.next receipt ≠ .failed := by
  cases receipt <;> cases status <;> first | decide | exact absurd rfl h

theorem rank_le_next {receipt : Receipt} (h : receipt ≠ .failed) (status : MessageStatus) :
    rank status ≤ rank (status.next receipt) := by
  unfold MessageStatus.next
  rw [if_neg h]
  split_ifs with hrank
  · omega
  · exact Nat.le_refl _

theorem next_eq_sent {receipt : Receipt} {status : MessageStatus} (h : status.next receipt = .sent) :
    receipt = .sent ∨ status = .sent := by
  unfold MessageStatus.next at h
  split_ifs at h
  · left
    cases receipt <;> first | rfl | cases h
  · exact Or.inr h

/-- Two receipts that are both failures, or both not, may change places. -/
theorem next_comm {x y : Receipt} (h : x = .failed ↔ y = .failed) (status : MessageStatus) :
    (status.next x).next y = (status.next y).next x := by
  cases x <;> cases y <;> first | rfl | (cases status <;> decide) | exact absurd h (by decide)

/-- Without a failure the receipts only raise the rank. -/
theorem foldl_next_of_forward : ∀ {rs : List Receipt} (status : MessageStatus), Receipt.failed ∉ rs →
    rank status ≤ rank (rs.foldl MessageStatus.next status) ∧
      (rs.foldl MessageStatus.next status = .failed → rs = [] ∧ status = .failed) ∧
      (rs.foldl MessageStatus.next status = .sent → Receipt.sent ∈ rs ∨ status = .sent)
  | [], status, _ => ⟨Nat.le_refl _, fun h => ⟨rfl, h⟩, Or.inr⟩
  | r :: rs, status, h => by
    obtain ⟨hr, hrs⟩ := not_or.mp (fun hmem => h (List.mem_cons.mpr hmem))
    obtain ⟨hrank, hfailed, hsent⟩ := foldl_next_of_forward (status.next r) hrs
    refine ⟨Nat.le_trans (rank_le_next (Ne.symm hr) status) hrank, fun heq => ?_, fun heq => ?_⟩
    · exact absurd (hfailed heq).2 (next_ne_failed (Ne.symm hr) status)
    · rcases hsent heq with hmem | hnext
      · exact Or.inl (List.mem_cons_of_mem _ hmem)
      · rcases next_eq_sent hnext with rfl | hstatus
        · exact Or.inl List.mem_cons_self
        · exact Or.inr hstatus

/-- With failures alone the status is the first one or failed. -/
theorem foldl_next_of_failed : ∀ {rs : List Receipt} (status : MessageStatus), (∀ r ∈ rs, r = Receipt.failed) →
    rs.foldl MessageStatus.next status = if rs = [] then status else .failed
  | [], _, _ => rfl
  | r :: rs, status, h => by
    obtain rfl := h r List.mem_cons_self
    have hrs : ∀ x ∈ rs, x = Receipt.failed := fun x hx => h x (List.mem_cons_of_mem _ hx)
    rw [List.foldl_cons, foldl_next_of_failed _ hrs, if_neg (List.cons_ne_nil _ _)]
    split_ifs <;> rfl

/-! ## Forward only -/

/-- The stage of a message that has not failed. -/
def MessageStatus.stage? : MessageStatus → Option ℕ
  | .pending => some 0
  | .sent => some 1
  | .delivered => some 2
  | .read => some 3
  | .queued | .failed | .bounced => none

theorem rank_of_stage {status : MessageStatus} {stage : ℕ} (h : status.stage? = some stage) : rank status = stage := by
  cases status <;> cases h <;> rfl

/-- What may be shown later of a message. -/
structure MayBecome (earlier later : MessageStatus) : Prop where
  stage : ∀ i j, earlier.stage? = some i → later.stage? = some j → i ≤ j
  reached : earlier = .delivered ∨ earlier = .read → later ≠ .failed
  failed : earlier = .failed → later ≠ .sent

/-- The callbacks move a message forward, and to one status, whatever the order and the instants they come at. -/
structure ForwardOnly (s : MessageTables) (k : Uuid × ℕ) (events : List StatusEvent) : Prop where
  confluent : ∀ ds ds' : List (StatusEvent × ℕ), (ds.map Prod.fst).Perm events → (ds'.map Prod.fst).Perm events →
    statusOf (after deliver s ds) k = statusOf (after deliver s ds') k
  forward : ∀ ds₁ ds₂ ds₃ : List (StatusEvent × ℕ), ((ds₁ ++ ds₂ ++ ds₃).map Prod.fst).Perm events →
    ∀ earlier later, statusOf (after deliver s ds₁) k = some earlier →
      statusOf (after deliver s (ds₁ ++ ds₂)) k = some later → MayBecome earlier later

/-- No failure, and nothing sent of a message that failed; or failures alone, of a message that was not delivered. -/
def OneKind (status : MessageStatus) (receipts : List Receipt) : Prop :=
  Receipt.failed ∉ receipts ∧ (status = .failed → Receipt.sent ∉ receipts) ∨
    (∀ r ∈ receipts, r = Receipt.failed) ∧ status ≠ .delivered ∧ status ≠ .read

instance (status : MessageStatus) (receipts : List Receipt) : Decidable (OneKind status receipts) :=
  inferInstanceAs (Decidable (_ ∨ _))

theorem OneKind.confluent {status : MessageStatus} {rs rs' : List Receipt} (h : OneKind status rs)
    (hperm : rs.Perm rs') : rs.foldl MessageStatus.next status = rs'.foldl MessageStatus.next status := by
  refine hperm.foldl_eq' (fun x hx y hy z => next_comm ?_ z) status
  rcases h with ⟨hnone, -⟩ | ⟨hall, -⟩
  · exact iff_of_false (fun heq => hnone (heq ▸ hx)) (fun heq => hnone (heq ▸ hy))
  · exact iff_of_true (hall x hx) (hall y hy)

theorem OneKind.mayBecome {status : MessageStatus} {rs₁ rs₂ : List Receipt} (h : OneKind status (rs₁ ++ rs₂)) :
    MayBecome (rs₁.foldl MessageStatus.next status) ((rs₁ ++ rs₂).foldl MessageStatus.next status) := by
  rcases h with ⟨hnone, hsent⟩ | ⟨hall, hdelivered, hread⟩
  · have hnone₁ : Receipt.failed ∉ rs₁ := fun h => hnone (List.mem_append_left _ h)
    have hnone₂ : Receipt.failed ∉ rs₂ := fun h => hnone (List.mem_append_right _ h)
    rw [List.foldl_append]
    obtain ⟨hrank, hfailed, hwas⟩ := foldl_next_of_forward (rs₁.foldl MessageStatus.next status) hnone₂
    refine ⟨fun i j hi hj => ?_, fun hreached hlater => ?_, fun hearlier hlater => ?_⟩
    · rw [rank_of_stage hi, rank_of_stage hj] at hrank
      exact hrank
    · rw [(hfailed hlater).2] at hreached
      rcases hreached with h | h <;> cases h
    · -- it had failed before any of these receipts
      obtain ⟨rfl, hstatus⟩ := (foldl_next_of_forward status hnone₁).2.1 hearlier
      rcases hwas hlater with hmem | heq
      · exact hsent hstatus hmem
      · rw [hearlier] at heq
        cases heq
  · have hall₁ : ∀ r ∈ rs₁, r = Receipt.failed := fun r hr => hall r (List.mem_append_left _ hr)
    rw [foldl_next_of_failed status hall₁, foldl_next_of_failed status hall]
    by_cases hnil : rs₁ ++ rs₂ = []
    · rw [if_pos (List.append_eq_nil_iff.mp hnil).1, if_pos hnil]
      refine ⟨fun i j hi hj => ?_, fun hreached => ?_, fun heq => ?_⟩
      · rw [hi] at hj
        exact Nat.le_of_eq (Option.some.inj hj)
      · rcases hreached with h | h
        · exact absurd h hdelivered
        · exact absurd h hread
      · rw [heq]
        decide
    · rw [if_neg hnil]
      refine ⟨fun _ _ _ hj => (nomatch hj), fun hreached => ?_, fun _ => MessageStatus.noConfusion⟩
      split_ifs at hreached
      · rcases hreached with h | h
        · exact absurd h hdelivered
        · exact absurd h hread
      · rcases hreached with h | h <;> cases h

theorem OneKind.subset {status : MessageStatus} {rs rs' : List Receipt} (h : OneKind status rs) (hsub : rs' ⊆ rs) :
    OneKind status rs' := by
  rcases h with ⟨hnone, hsent⟩ | ⟨hall, hstatus⟩
  · exact Or.inl ⟨fun hmem => hnone (hsub hmem), fun heq hmem => hsent heq (hsub hmem)⟩
  · exact Or.inr ⟨fun r hr => hall r (hsub hr), hstatus⟩

/-- A callback that reaches the message may come first, or last. -/
theorem exists_perm_of_receipt {s : MessageTables} {k : Uuid × ℕ} {events : List StatusEvent} {receipt : Receipt}
    (h : receipt ∈ receiptsFor s k events) :
    ∃ first others, receiptsFor s k [first] = [receipt] ∧ (first :: others).Perm events ∧
      (others ++ [first]).Perm events := by
  obtain ⟨event, hmem, hreceipt⟩ := List.mem_filterMap.mp h
  obtain ⟨before, later, rfl⟩ := List.append_of_mem hmem
  refine ⟨event, before ++ later, ?_, List.perm_middle.symm, ?_⟩
  · unfold receiptsFor
    rw [List.filterMap_cons, hreceipt]
    rfl
  · exact (List.perm_append_singleton event _).trans List.perm_middle.symm

/-- Callbacks that are applied at one instant. -/
def atOnce (events : List StatusEvent) : List (StatusEvent × ℕ) := events.map fun event => (event, 0)

theorem map_fst_atOnce (events : List StatusEvent) : (atOnce events).map Prod.fst = events := by
  unfold atOnce
  rw [List.map_map]
  exact List.map_id _

theorem receiptsFor_append (s : MessageTables) (k : Uuid × ℕ) (es es' : List StatusEvent) :
    receiptsFor s k (es ++ es') = receiptsFor s k es ++ receiptsFor s k es' :=
  List.filterMap_append

section Orders

variable {s : MessageTables} {m : Message} {events : List StatusEvent} {receipt : Receipt}

theorem statusOf_of_mem (hm : m ∈ s.messages.rows) : statusOf s m.key = some m.status := by
  unfold statusOf
  rw [Table.find?_of_mem hm]
  rfl

/-- The status after the callbacks, in the order they come. -/
theorem statusOf_after_of_mem (hm : m ∈ s.messages.rows) (ds : List (StatusEvent × ℕ)) :
    statusOf (after deliver s ds) m.key =
      some ((receiptsFor s m.key (ds.map Prod.fst)).foldl MessageStatus.next m.status) := by
  rw [statusOf_after, statusOf_of_mem hm]
  rfl

/-- A receipt may come last. -/
theorem exists_last_receipt (hm : m ∈ s.messages.rows) (h : receipt ∈ receiptsFor s m.key events) :
    ∃ (ds : List (StatusEvent × ℕ)) (status : MessageStatus), (ds.map Prod.fst).Perm events ∧
      statusOf (after deliver s ds) m.key = some (status.next receipt) := by
  obtain ⟨event, others, hreceipt, -, hperm⟩ := exists_perm_of_receipt h
  refine ⟨atOnce (others ++ [event]), (receiptsFor s m.key others).foldl MessageStatus.next m.status, ?_, ?_⟩
  · rw [map_fst_atOnce]
    exact hperm
  · rw [statusOf_after_of_mem hm, map_fst_atOnce, receiptsFor_append, hreceipt, List.foldl_append]
    rfl

/-- A receipt may come first. -/
theorem ForwardOnly.mayBecome (h : ForwardOnly s m.key events) (hm : m ∈ s.messages.rows)
    (hmem : receipt ∈ receiptsFor s m.key events) : MayBecome m.status (m.status.next receipt) := by
  obtain ⟨event, others, hreceipt, hperm, -⟩ := exists_perm_of_receipt hmem
  refine h.forward [] (atOnce [event]) (atOnce others) ?_ m.status _ (statusOf_of_mem hm) ?_
  · rw [List.nil_append, List.map_append, map_fst_atOnce, map_fst_atOnce]
    exact hperm
  · rw [List.nil_append, statusOf_after_of_mem hm, map_fst_atOnce, hreceipt]
    rfl

theorem ForwardOnly.oneKind (h : ForwardOnly s m.key events) (hm : m ∈ s.messages.rows) :
    OneKind m.status (receiptsFor s m.key events) := by
  by_cases hfailed : Receipt.failed ∈ receiptsFor s m.key events
  · right
    have hreached := (h.mayBecome hm hfailed).reached
    refine ⟨fun r hr => ?_, fun heq => hreached (Or.inl heq) rfl, fun heq => hreached (Or.inr heq) rfl⟩
    -- a failure that comes last, and another receipt that comes last
    by_contra hne
    obtain ⟨ds, status, hds, hstatus⟩ := exists_last_receipt hm hfailed
    obtain ⟨ds', status', hds', hstatus'⟩ := exists_last_receipt hm hr
    have hconfluent := h.confluent ds ds' hds hds'
    rw [hstatus, hstatus'] at hconfluent
    exact next_ne_failed hne status' (Option.some.inj hconfluent).symm
  · left
    refine ⟨hfailed, fun heq hsent => ?_⟩
    have hbecome := (h.mayBecome hm hsent).failed heq
    rw [heq] at hbecome
    exact hbecome (by decide)

theorem OneKind.forwardOnly (h : OneKind m.status (receiptsFor s m.key events)) (hm : m ∈ s.messages.rows) :
    ForwardOnly s m.key events := by
  have hperm : ∀ {es es' : List StatusEvent}, es.Perm es' →
      (receiptsFor s m.key es).Perm (receiptsFor s m.key es') := fun h => h.filterMap _
  refine ⟨fun ds ds' hds hds' => ?_, fun ds₁ ds₂ ds₃ hds earlier later hearlier hlater => ?_⟩
  · rw [statusOf_after_of_mem hm, statusOf_after_of_mem hm, ← h.confluent (hperm hds.symm),
      ← h.confluent (hperm hds'.symm)]
  · rw [statusOf_after_of_mem hm] at hearlier hlater
    obtain rfl := Option.some.inj hearlier
    obtain rfl := Option.some.inj hlater
    rw [List.map_append, List.map_append] at hds
    rw [List.map_append, receiptsFor_append]
    refine OneKind.mayBecome (h.subset fun r hr => ?_)
    rw [← (hperm hds).mem_iff, receiptsFor_append, receiptsFor_append]
    exact List.mem_append_left _ hr

end Orders

/-- **The callbacks of a message only move it forward, in every order to the same status, exactly if none that reaches
it is a failure, and none says that a failed message was sent, or all are failures and the message was neither
delivered nor read.** -/
theorem receipts_forward_iff {s : MessageTables} {m : Message} (hm : m ∈ s.messages.rows) (events : List StatusEvent) :
    ForwardOnly s m.key events ↔ OneKind m.status (receiptsFor s m.key events) := by
  constructor
  · intro h
    exact h.oneKind hm
  · intro h
    exact h.forwardOnly hm

/-! ## A failure between late receipts -/

/-- A business number of one workspace. -/
def numberOfA : ChannelRow := ⟨sampleUuid 'a', .whatsapp, "1001", none⟩

/-- A reply that the provider accepted. -/
def acceptedReply : Message where
  id := sampleUuid 'm'
  createdAt := 0
  tenantId := sampleUuid 'a'
  conversationId := sampleUuid 'c'
  channel := .whatsapp
  direction := .outbound
  content := some "Hello"
  status := .sent
  failureReason := none
  externalId := some "wamid.1"
  deliveredAt := none
  readAt := none

def oneReply : MessageTables := ⟨[numberOfA], Table.empty.insert acceptedReply⟩

/-- A callback of that reply. -/
def callback (status : String) : StatusEvent := ⟨some "wamid.1", some status, some "1001", none⟩

/-- Receipts without a failure. -/
theorem receipts_forward_iff_readTwice : acceptedReply ∈ oneReply.messages.rows ∧
    ForwardOnly oneReply acceptedReply.key [callback "read", callback "delivered", callback "sent", callback "read"] :=
  ⟨by decide, (receipts_forward_iff (by decide) _).mpr (by decide +kernel)⟩

/-- A reply is read and then shown as failed, or shown as failed and then read. -/
theorem readThenFailed_differ :
    ¬ ForwardOnly oneReply acceptedReply.key [callback "read", callback "failed"] := by
  intro h
  have hconfluent := h.confluent [(callback "read", 0), (callback "failed", 1)]
    [(callback "failed", 0), (callback "read", 1)] (List.Perm.refl _) (List.Perm.swap _ _ _)
  exact absurd hconfluent (by decide +kernel)

end RevenueOS.Communications
