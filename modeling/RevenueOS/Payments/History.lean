import RevenueOS.Payments.Inbound
import RevenueOS.Lib.Journal
import RevenueOS.Lib.Trace

/-!
# RevenueOS.Payments.History — when the transitions of a payment are a path of its state machine

Any number of calls of `accept_verified_razorpay_event` interleave, each with any event.  A call reads the event
row without a lock, resolves its payment, and finishes under the row locks in one step; it may also fail at any
point before its commit.  The locked part goes by the rows as the call read them before it had the locks.

* `Applies` says when that part moves the payment, and `settleEvent_of_applies`, `settleEvent_of_not_applies` what it
  does to the tables then, and otherwise.
* `payment_history_iff`: along a run the history of a payment is a path to its status exactly if no call moves the
  payment by a row that another one has moved or an event that another one has applied since it was read.
  `overlap_breaks_history` is a run of two calls in which one does.
-/

namespace RevenueOS.Payments

open RevenueOS.Py RevenueOS.Workflows RevenueOS.Lib

/-! ## Table lemmas -/

theorem Database.payment?_setEvent (db : Database) (eventId : String) (event : WebhookEvent) (id : Uuid) :
    (db.setEvent eventId event).payment? id = db.payment? id := by
  dsimp only [Database.setEvent, Database.payment?]

theorem Database.setEvent_of_ne (db : Database) {eventId other : String} (event : WebhookEvent)
    (h : other ≠ eventId) : (db.setEvent eventId event).events other = db.events other :=
  Function.update_of_ne h _ _

theorem Database.setEvent_self (db : Database) (eventId : String) (event : WebhookEvent) :
    (db.setEvent eventId event).events eventId = some event :=
  Function.update_self _ _ _

theorem Database.payment?_saveEvent (db : Database) (eventId : String) (read new : WebhookEvent) (id : Uuid) :
    (db.saveEvent eventId read new).payment? id = db.payment? id :=
  db.payment?_setEvent _ _ id

theorem Database.saveEvent_transitions (db : Database) (eventId : String) (read new : WebhookEvent) :
    (db.saveEvent eventId read new).transitions = db.transitions := rfl

/-- The event has been processed. -/
def IsProcessed (db : Database) (eventId : String) : Prop :=
  ∃ event, db.events eventId = some event ∧ event.processed = true

/-- A row that was read unprocessed is processed after the flush if the session or another one did it. -/
theorem WebhookEvent.processed_flush {read new current : WebhookEvent} (h : read.processed = false) :
    (read.flush new current).processed = (new.processed || current.processed) := by
  have hread : read.processedAt = none := Option.isNone_iff_eq_none.mp (by simpa [processed] using h)
  unfold processed flush flushed
  rw [hread]
  cases new.processedAt <;> simp

theorem Database.saveEvent_self (db : Database) (eventId : String) (read new : WebhookEvent) :
    (db.saveEvent eventId read new).events eventId =
      some (read.flush new ((db.events eventId).getD read)) :=
  Function.update_self _ _ _

theorem Database.saveEvent_of_ne (db : Database) {eventId other : String} (read new : WebhookEvent)
    (h : other ≠ eventId) : (db.saveEvent eventId read new).events other = db.events other :=
  db.setEvent_of_ne _ h

/-- A flush takes no event back. -/
theorem IsProcessed.saveEvent {db : Database} {other : String} (h : IsProcessed db other) {eventId : String}
    {read : WebhookEvent} (hread : read.processed = false) (new : WebhookEvent) :
    IsProcessed (db.saveEvent eventId read new) other := by
  obtain ⟨event, hevent, hprocessed⟩ := h
  by_cases hother : other = eventId
  · subst hother
    refine ⟨_, db.saveEvent_self other read new, ?_⟩
    rw [WebhookEvent.processed_flush hread, hevent, Option.getD_some, hprocessed, Bool.or_true]
  · exact ⟨event, (db.saveEvent_of_ne read new hother).trans hevent, hprocessed⟩

theorem IsProcessed.of_saveEvent {db : Database} {eventId : String} {read new : WebhookEvent}
    (hread : read.processed = false) (hnew : new.processed = true) :
    IsProcessed (db.saveEvent eventId read new) eventId := by
  refine ⟨_, db.saveEvent_self eventId read new, ?_⟩
  rw [WebhookEvent.processed_flush hread, hnew, Bool.true_or]

theorem events_applyTransition (db : Database) (c : Call) (read event : WebhookEvent) (p : Payment)
    (new : PaymentStatus) : (applyTransition db c read event p new).2.events =
      (db.saveEvent c.eventId read { event with processedAt := some c.now }).events := by
  dsimp only [applyTransition]

theorem isProcessed_applyTransition_iff {db : Database} {c : Call} {read event : WebhookEvent} {p : Payment}
    {new : PaymentStatus} {eventId : String} : IsProcessed (applyTransition db c read event p new).2 eventId ↔
      IsProcessed (db.saveEvent c.eventId read { event with processedAt := some c.now }) eventId := by
  unfold IsProcessed
  rw [events_applyTransition]

/-! ## What the locked part can do -/

/-- The event names a payment id, amount or currency that is not the payment's. -/
def Mismatches (p : Payment) (parsed : Dict) : Prop :=
  (∃ x, p.externalPaymentId = some x ∧ x ≠ "" ∧ Call.field parsed "external_payment_id" ≠ "" ∧
      x ≠ Call.field parsed "external_payment_id") ∨
    (parsed.get "amount_minor" ≠ .null ∧ (parsed.get "amount_minor").int? ≠ some p.amountMinor) ∨
    (parsed.get "currency" ≠ .null ∧ (parsed.get "currency").text ≠ p.currency)

theorem given_iff {x : Json} : given x = true ↔ x ≠ .null := by cases x <;> simp [given]

theorem validateProviderIdentity_eq_none {p : Payment} {parsed : Dict} :
    validateProviderIdentity p parsed = none ↔ ¬ Mismatches p parsed := by
  have hid : p.externalPaymentId.any (fun x => x != "" && Call.field parsed "external_payment_id" != "" &&
      x != Call.field parsed "external_payment_id") = true ↔
      ∃ x, p.externalPaymentId = some x ∧ x ≠ "" ∧ Call.field parsed "external_payment_id" ≠ "" ∧
        x ≠ Call.field parsed "external_payment_id" := by
    cases p.externalPaymentId <;> simp [and_assoc]
  have hamount : (given (parsed.get "amount_minor") && (parsed.get "amount_minor").int? != some p.amountMinor) =
      true ↔ parsed.get "amount_minor" ≠ .null ∧ (parsed.get "amount_minor").int? ≠ some p.amountMinor := by
    rw [Bool.and_eq_true, given_iff, bne_iff_ne]
  have hcurrency : (given (parsed.get "currency") && (parsed.get "currency").text != p.currency) = true ↔
      parsed.get "currency" ≠ .null ∧ (parsed.get "currency").text ≠ p.currency := by
    rw [Bool.and_eq_true, given_iff, bne_iff_ne]
  unfold validateProviderIdentity Mismatches
  rw [← hid, ← hamount, ← hcurrency]
  simp only
  split_ifs with h1 h2 h3
  · exact iff_of_false (by simp) (fun h => h (Or.inl h1))
  · exact iff_of_false (by simp) (fun h => h (Or.inr (Or.inl h2)))
  · exact iff_of_false (by simp) (fun h => h (Or.inr (Or.inr h3)))
  · exact iff_of_true rfl (fun h => h.elim h1 (fun h => h.elim h2 h3))

/-- `parkEvent` writes nothing but the event row. -/
theorem parkEvent_cases (db : Database) (c : Call) (existing : Option WebhookEvent) (error : String) :
    (parkEvent db c existing error).2 = db ∨
      ∃ read new, read.processed = false ∧ (parkEvent db c existing error).2 = db.saveEvent c.eventId read new := by
  unfold parkEvent
  simp only
  split_ifs with hprocessed
  · exact Or.inl rfl
  · exact Or.inr ⟨_, _, Bool.eq_false_iff.mpr hprocessed, rfl⟩

/-- The event of the call, held against the payment as the session has it, moves it to `new`. -/
structure Applies (db : Database) (c : Call) (existing : Option WebhookEvent) (p : Payment) (new : PaymentStatus) :
    Prop where
  own : (existing.isSome && (lockedEvent db c existing (some p.tenantId)).tenantId.any (· != p.tenantId)) = false
  unprocessed : (lockedEvent db c existing (some p.tenantId)).processed = false
  same : ¬ Mismatches p c.parsed
  status : c.parsed.get "status" = .str new.value
  move : new ∈ allowed p.status

/-- What the state machine does with an event that matches the payment: nothing, or one of its moves. -/
theorem processEvent_cases (db : Database) (c : Call) (duplicate : Bool) (read event : WebhookEvent) (p : Payment) :
    (∃ e, (processEvent db c duplicate read event p).2 = db.saveEvent c.eventId read e) ∨
      ∃ new ∈ allowed p.status, c.parsed.get "status" = .str new.value ∧ ¬ Mismatches p c.parsed ∧
        (processEvent db c duplicate read event p).2 = (applyTransition db c read event p new).2 := by
  unfold processEvent
  split
  · exact Or.inl ⟨_, rfl⟩
  · rename_i hidentity
    split
    · exact Or.inl ⟨_, rfl⟩
    · rename_i target htarget
      split
      · exact Or.inl ⟨_, rfl⟩
      · rename_i new hnew
        have hstatus : c.parsed.get "status" = .str target := by
          cases hget : c.parsed.get "status" <;> simp_all [Json.str?]
        rw [target_of_assertTransition hnew] at hstatus
        split_ifs with hsame
        · exact Or.inl ⟨_, rfl⟩
        · exact Or.inr ⟨new, allowed_of_assertTransition hnew hsame, hstatus,
            validateProviderIdentity_eq_none.mp hidentity, rfl⟩

/-- **The locked part**, when the event moves the payment as the session has it. -/
theorem settleEvent_of_applies {db : Database} {c : Call} {existing : Option WebhookEvent} {p : Payment}
    {new : PaymentStatus} (h : Applies db c existing p new) : (settleEvent db c existing p).2 =
      (applyTransition db c (lockedEvent db c existing (some p.tenantId))
        (claimedEvent c p (lockedEvent db c existing (some p.tenantId))) p new).2 := by
  have hmove : assertTransition p.status new.value true = .ok new := assertTransition_of_allowed h.move
  have hne : new ≠ p.status := by
    rintro rfl
    exact not_mem_allowed_self p.status h.move
  unfold settleEvent
  simp only [h.own, h.unprocessed, if_neg Bool.false_ne_true]
  unfold processEvent
  rw [validateProviderIdentity_eq_none.mpr h.same]
  simp only [h.status, Json.str?, hmove, if_neg hne]

/-- **The locked part**, otherwise: nothing, or a write of the event row. -/
theorem settleEvent_of_not_applies {db : Database} {c : Call} {existing : Option WebhookEvent} {p : Payment}
    (h : ∀ new, ¬ Applies db c existing p new) : (settleEvent db c existing p).2 = db ∨
      ∃ read new, read.processed = false ∧ (settleEvent db c existing p).2 = db.saveEvent c.eventId read new := by
  unfold settleEvent
  simp only
  split_ifs with hconflict hprocessed
  · exact Or.inl rfl
  · exact Or.inl rfl
  · have hunprocessed := Bool.eq_false_iff.mpr hprocessed
    rcases processEvent_cases db c existing.isSome _ _ p with ⟨e, hsave⟩ | ⟨new, hnew, hstatus, hsame, -⟩
    · exact Or.inr ⟨_, e, hunprocessed, hsave⟩
    · exact absurd ⟨Bool.eq_false_iff.mpr hconflict, hunprocessed, hsame, hstatus, hnew⟩ (h new)

/-! ## Interleavings -/

/-- Where a call stands between its reads. -/
inductive CallPhase where
  | idle
  | looked (existing : Option WebhookEvent)
  | unmapped (existing : Option WebhookEvent) (mappingError : String)
  | mapped (existing : Option WebhookEvent) (payment : Payment)
  | answered (receipt : RazorpayReceipt)
  | raised

structure Ingress (ι : Type) where
  db : Database
  phase : ι → CallPhase

inductive IngressStep (ι : Type) where
  | look (i : ι)
  | resolve (i : ι)
  | finish (i : ι)
  | crash (i : ι)
deriving DecidableEq

/-- The call a step belongs to. -/
def IngressStep.actor {ι : Type} : IngressStep ι → ι
  | look i => i
  | resolve i => i
  | finish i => i
  | crash i => i

section Run

variable {ι : Type} [DecidableEq ι] (calls : ι → Call)

namespace Ingress

def start (db : Database) : Ingress ι := ⟨db, fun _ => .idle⟩

def goto (s : Ingress ι) (i : ι) (phase : CallPhase) (db : Database) : Ingress ι :=
  ⟨db, Function.update s.phase i phase⟩

def step (s : Ingress ι) : IngressStep ι → Ingress ι
  | .look i =>
    match s.phase i with
    | .idle =>
      match lookUp s.db (calls i) with
      | .inl receipt => s.goto i (.answered receipt) s.db
      | .inr existing => s.goto i (.looked existing) s.db
    | _ => s
  | .resolve i =>
    match s.phase i with
    | .looked existing =>
      match resolvePayment s.db (calls i).parsed with
      | .error mappingError => s.goto i (.unmapped existing mappingError) s.db
      | .ok payment => s.goto i (.mapped existing payment) s.db
    | _ => s
  | .finish i =>
    match s.phase i with
    | .unmapped existing mappingError =>
      let result := parkEvent s.db (calls i) existing mappingError
      s.goto i (.answered result.1) result.2
    | .mapped existing payment =>
      -- the row is selected again `FOR UPDATE`, and is not refreshed
      match s.db.payment? payment.id with
      | some _ =>
        let result := settleEvent s.db (calls i) existing payment
        s.goto i (.answered result.1) result.2
      | none => s.goto i .raised s.db
    | _ => s
  | .crash i =>
    match s.phase i with
    | .answered _ => s
    | _ => s.goto i .raised s.db

end Ingress

variable {calls}

/-- **What one step can do** to the tables: nothing, a write of its event row, or a move of the payment by the rows
that the call has read. -/
theorem step_db_cases (s : Ingress ι) (l : IngressStep ι) :
    (s.step calls l).db = s.db ∨
      (∃ read new, read.processed = false ∧
        (s.step calls l).db = s.db.saveEvent (calls l.actor).eventId read new) ∨
      ∃ existing p new, l = .finish l.actor ∧ s.phase l.actor = .mapped existing p ∧
        (s.db.payment? p.id).isSome = true ∧ Applies s.db (calls l.actor) existing p new ∧
        ∃ read event, read.processed = false ∧
          (s.step calls l).db = (applyTransition s.db (calls l.actor) read event p new).2 := by
  cases l with
  | look i =>
    left
    simp only [Ingress.step]
    split
    · split <;> rfl
    · rfl
  | resolve i =>
    left
    simp only [Ingress.step]
    split
    · split <;> rfl
    · rfl
  | finish i =>
    simp only [Ingress.step, IngressStep.actor]
    split
    · rename_i existing error _
      exact (parkEvent_cases s.db (calls i) existing error).imp_right Or.inl
    · rename_i existing p hphase
      split
      · rename_i current hcurrent
        by_cases happlies : ∃ new, Applies s.db (calls i) existing p new
        · obtain ⟨new, hnew⟩ := happlies
          exact Or.inr (Or.inr ⟨existing, p, new, trivial, hphase, Option.isSome_of_eq_some hcurrent, hnew, _, _,
            hnew.unprocessed, settleEvent_of_applies hnew⟩)
        · exact (settleEvent_of_not_applies (not_exists.mp happlies)).imp_right Or.inl
      · exact Or.inl rfl
    · exact Or.inl rfl
  | crash i =>
    left
    simp only [Ingress.step]
    split <;> rfl

/-! ## Histories -/

/-- The stored transitions of a payment are numbered `1..n`, are moves of the machine that join up from
`created` to the payment's status, and name no event twice. -/
structure HistoryOk (db : Database) (id : Uuid) : Prop where
  numbered : Numbered ((db.history id).map PaymentTransition.sequence)
  path : ∃ p, db.payment? id = some p ∧
    IsPath (fun a b => b ∈ allowed a) .created ((db.history id).map (fun t => (t.fromStatus, t.toStatus))) p.status
  once : ((db.history id).map PaymentTransition.providerEventId).Nodup

/-- The invariant: the events of the history are all processed. -/
structure HistoryInv (db : Database) (id : Uuid) : Prop extends HistoryOk db id where
  processed : ∀ t ∈ db.history id, IsProcessed db t.providerEventId

theorem HistoryInv.saveEvent {db : Database} {id : Uuid} (h : HistoryInv db id) {eventId : String}
    {read : WebhookEvent} (hread : read.processed = false) (new : WebhookEvent) :
    HistoryInv (db.saveEvent eventId read new) id :=
  ⟨⟨h.numbered, h.path, h.once⟩, fun t ht => (h.processed t ht).saveEvent hread new⟩

theorem history_applyTransition (db : Database) (c : Call) (read event : WebhookEvent) (p : Payment)
    (new : PaymentStatus) (id : Uuid) : (applyTransition db c read event p new).2.history id =
      db.history id ++ (if p.id = id then [newTransition db c p new] else []) := by
  unfold Database.history applyTransition
  rw [List.filter_append]
  by_cases h : p.id = id
  · simp [newTransition, h]
  · simp [newTransition, h]

theorem payment?_applyTransition {db : Database} {c : Call} {read event : WebhookEvent} {p current : Payment}
    {new : PaymentStatus} (hcurrent : db.payment? p.id = some current) (id : Uuid) :
    (applyTransition db c read event p new).2.payment? id =
      if id = p.id then some (p.flush (movedPayment c p new) current) else db.payment? id := by
  have hkey : current.id = p.id := Table.key_of_find? hcurrent
  have hid : (p.flush (movedPayment c p new) current).id = p.id := hkey
  have hset : (applyTransition db c read event p new).2.payment? id =
      (db.payments.set (p.flush (movedPayment c p new) current)).find? id := by
    dsimp only [applyTransition, Database.payment?, Database.savePayment]
    rw [show db.payments.find? p.id = some current from hcurrent]
  rw [hset]
  split_ifs with h
  · subst h
    rw [← hid]
    refine @Table.find?_set_self _ _ _ Payment.id _ _ current ?_
    rw [hid]
    exact hcurrent
  · exact Table.find?_set_of_ne (hid ▸ h)

/-- The flush of a move writes the status. -/
theorem status_flush_moved {c : Call} {p current : Payment} {new : PaymentStatus} (h : new ∈ allowed p.status) :
    (p.flush (movedPayment c p new) current).status = new := by
  refine flushed_eq fun hsame => ?_
  have hne : p.status = new := hsame
  exact absurd (hne ▸ h) (not_mem_allowed_self new)

section Move

variable {db : Database} {c : Call} {read event : WebhookEvent} {p : Payment} {new : PaymentStatus}

/-- The history of the payment that is moved grows by one. -/
theorem history_applyTransition_self :
    (applyTransition db c read event p new).2.history p.id = db.history p.id ++ [newTransition db c p new] := by
  rw [history_applyTransition, if_pos rfl]

/-- A move from the stored status, by an event that the history does not name, keeps the history. -/
theorem HistoryInv.applyTransition_self {current : Payment} (h : HistoryInv db p.id)
    (hread : read.processed = false) (hcurrent : db.payment? p.id = some current) (hnew : new ∈ allowed p.status)
    (hstatus : current.status = p.status) (hfresh : ∀ t ∈ db.history p.id, t.providerEventId ≠ c.eventId) :
    HistoryInv (applyTransition db c read event p new).2 p.id := by
  obtain ⟨q, hq, hpath⟩ := h.path
  obtain rfl : current = q := Option.some.inj (hcurrent.symm.trans hq)
  refine ⟨⟨?_, ⟨p.flush (movedPayment c p new) current, ?_, ?_⟩, ?_⟩, fun t ht => ?_⟩
  · rw [history_applyTransition_self, List.map_append]
    exact h.numbered.concat
  · rw [payment?_applyTransition hcurrent, if_pos rfl]
  · rw [history_applyTransition_self, List.map_append, status_flush_moved hnew]
    rw [hstatus] at hpath
    exact isPath_concat_iff.mpr ⟨hpath, hnew, rfl⟩
  · rw [history_applyTransition_self, List.map_append, List.nodup_append]
    refine ⟨h.once, List.nodup_singleton _, ?_⟩
    rintro a ha b hb rfl
    obtain ⟨t, ht, hta⟩ := List.mem_map.mp ha
    exact hfresh t ht (hta.trans (List.mem_singleton.mp hb))
  · rw [history_applyTransition_self, List.mem_append, List.mem_singleton] at ht
    rw [isProcessed_applyTransition_iff]
    rcases ht with ht | rfl
    · exact (h.processed t ht).saveEvent hread _
    · exact .of_saveEvent hread rfl

/-- A move of another payment keeps the history. -/
theorem HistoryInv.applyTransition_of_ne {id : Uuid} (h : HistoryInv db id) (hread : read.processed = false)
    (hcurrent : (db.payment? p.id).isSome = true) (hne : p.id ≠ id) :
    HistoryInv (applyTransition db c read event p new).2 id := by
  obtain ⟨current, hcurrent⟩ := Option.isSome_iff_exists.mp hcurrent
  have hhistory : (applyTransition db c read event p new).2.history id = db.history id := by
    rw [history_applyTransition, if_neg hne, List.append_nil]
  obtain ⟨q, hq, hpath⟩ := h.path
  refine ⟨⟨?_, ⟨q, ?_, ?_⟩, ?_⟩, fun t ht => ?_⟩
  · rw [hhistory]
    exact h.numbered
  · rw [payment?_applyTransition hcurrent, if_neg (Ne.symm hne), hq]
  · rw [hhistory]
    exact hpath
  · rw [hhistory]
    exact h.once
  · rw [hhistory] at ht
    exact isProcessed_applyTransition_iff.mpr ((h.processed t ht).saveEvent hread _)

end Move

/-! ## Runs -/

/-- An event that does not match the stored payment does not change its status. -/
def MismatchInert (calls : ι → Call) (id : Uuid) (s : Ingress ι) (l : IngressStep ι) : Prop :=
  ∀ p, s.db.payment? id = some p → Mismatches p (calls l.actor).parsed →
    ((s.step calls l).db.payment? id).map Payment.status = some p.status

/-- **The condition**, in the state before a call commits: if the rows as it has read them let it move the payment,
then the stored payment still has the status that was read and matches the event, and no transition of it names
the event. -/
def UpToDate (calls : ι → Call) (id : Uuid) (s : Ingress ι) : IngressStep ι → Prop
  | .finish i => ∀ existing p new, s.phase i = .mapped existing p → p.id = id →
      Applies s.db (calls i) existing p new → ∀ current, s.db.payment? id = some current →
        current.status = p.status ∧ ¬ Mismatches current (calls i).parsed ∧
          ∀ t ∈ s.db.history id, t.providerEventId ≠ (calls i).eventId
  | _ => True

/-- **One step** that meets the condition. -/
theorem HistoryInv.step {s : Ingress ι} {id : Uuid} (h : HistoryInv s.db id) (l : IngressStep ι)
    (hup : UpToDate calls id s l) : HistoryInv (s.step calls l).db id ∧ MismatchInert calls id s l := by
  obtain ⟨current, hcurrent, -⟩ := h.path
  rcases @step_db_cases ι _ calls s l with hdb | ⟨read, new, hread, hdb⟩ |
    ⟨existing, p, new, hfinish, hphase, hsome, happlies, read, event, hread, hdb⟩
  · refine ⟨by rwa [hdb], fun q hq _ => ?_⟩
    rw [hdb, hq, Option.map_some]
  · refine ⟨hdb ▸ h.saveEvent hread new, fun q hq _ => ?_⟩
    rw [hdb, Database.payment?_saveEvent, hq, Option.map_some]
  · by_cases hid : p.id = id
    · subst hid
      rw [hfinish] at hup
      obtain ⟨hstatus, hsame, hfresh⟩ := hup existing p new hphase rfl happlies current hcurrent
      refine ⟨hdb ▸ h.applyTransition_self hread hcurrent happlies.move hstatus hfresh, fun q hq hmismatch => ?_⟩
      obtain rfl : current = q := Option.some.inj (hcurrent.symm.trans hq)
      exact absurd hmismatch hsame
    · refine ⟨hdb ▸ h.applyTransition_of_ne hread hsome hid, fun q hq _ => ?_⟩
      obtain ⟨other, hother⟩ := Option.isSome_iff_exists.mp hsome
      rw [hdb, payment?_applyTransition hother, if_neg (Ne.symm hid), hq, Option.map_some]

/-- A step after which the history is a path, and which no mismatch moved, meets the condition. -/
theorem HistoryInv.upToDate {s : Ingress ι} {id : Uuid} (h : HistoryInv s.db id) (l : IngressStep ι)
    (hnext : HistoryOk (s.step calls l).db id) (hinert : MismatchInert calls id s l) : UpToDate calls id s l := by
  cases l with
  | look i => trivial
  | resolve i => trivial
  | crash i => trivial
  | finish i =>
    rintro existing p new hphase rfl happlies current hcurrent
    have hdb : (s.step calls (.finish i)).db = (applyTransition s.db (calls i)
        (lockedEvent s.db (calls i) existing (some p.tenantId))
        (claimedEvent (calls i) p (lockedEvent s.db (calls i) existing (some p.tenantId))) p new).2 := by
      simp only [Ingress.step, hphase, hcurrent, Ingress.goto]
      exact settleEvent_of_applies happlies
    rw [hdb] at hnext
    obtain ⟨q, hq, hpath⟩ := hnext.path
    obtain ⟨r, hr, hbefore⟩ := h.path
    obtain rfl : current = r := Option.some.inj (hcurrent.symm.trans hr)
    rw [history_applyTransition_self, List.map_append] at hpath
    -- the history led to the stored status, and goes on from the one that was read
    have hstatus : current.status = p.status := hbefore.end_unique (isPath_concat_iff.mp hpath).1
    refine ⟨hstatus, fun hmismatch => ?_, fun t ht heq => ?_⟩
    · have hstay := hinert current hcurrent hmismatch
      rw [hdb, payment?_applyTransition hcurrent, if_pos rfl, Option.map_some, status_flush_moved happlies.move]
        at hstay
      have hnew : new = p.status := (Option.some.inj hstay).trans hstatus
      exact not_mem_allowed_self p.status (hnew ▸ happlies.move)
    · have honce := hnext.once
      rw [history_applyTransition_self, List.map_append, List.nodup_append] at honce
      exact honce.2.2 _ (List.mem_map.mpr ⟨t, ht, rfl⟩) _ (List.mem_singleton.mpr rfl) heq

/-- **Payment histories**, exactly.  Along an interleaving of calls, the transitions of a payment that starts in
`created` are a numbered path of the state machine to its status, no event is applied to it twice, and no event that
does not match it changes its status, if and only if every call that moves it finds it as it was read. -/
theorem payment_history_iff (calls : ι → Call) (db : Database) (id : Uuid)
    (hcreated : (db.payment? id).map Payment.status = some .created) (hempty : db.history id = [])
    (steps : List (IngressStep ι)) :
    (Always (Ingress.step calls) (fun s => HistoryOk s.db id) (.start db) steps ∧
        Meets (Ingress.step calls) (MismatchInert calls id) (.start db) steps) ↔
      Meets (Ingress.step calls) (UpToDate calls id) (.start db) steps := by
  have hstart : HistoryInv (Ingress.start db : Ingress ι).db id := by
    obtain ⟨p, hp, hstatus⟩ := Option.map_eq_some_iff.mp hcreated
    change HistoryInv db id
    refine ⟨⟨?_, ⟨p, hp, ?_⟩, ?_⟩, ?_⟩
    · rw [hempty]
      rfl
    · rw [hempty, hstatus]
      rfl
    · rw [hempty]
      exact List.nodup_nil
    · rw [hempty]
      exact fun t ht => absurd ht List.not_mem_nil
  have hp : ∀ s : Ingress ι, HistoryInv s.db id → HistoryOk s.db id := fun _ hs => hs.toHistoryOk
  exact always_and_meets_iff hp (fun s l hs hup => hs.step l hup)
    (fun s l hs hnext hinert => hs.upToDate l hnext hinert) steps _ hstart

end Run

/-! ## Two deliveries -/

def samplePayment : Payment where
  id := sampleUuid 'p'
  tenantId := sampleUuid 't'
  provider := "razorpay"
  externalOrderId := some "order_1"
  externalPaymentId := none
  amountMinor := 1000
  currency := "INR"
  status := .created
  method := "unknown"
  providerPayload := .obj []
  reconciliationStatus := "pending"
  reconciledAt := none
  capturedAt := none

def sampleDatabase (p : Payment) : Database := ⟨⟨[p], List.nodup_singleton _⟩, fun _ => none, [], []⟩

def sampleCall (event eventId status : String) : Call where
  parsed := [("event", .str event), ("external_event_id", .str eventId), ("status", .str status),
    ("external_payment_id", .str "pay_1"), ("external_order_id", .str "order_1"), ("amount_minor", .int 1000),
    ("currency", .str "INR")]
  correlationId := none
  now := 0
  timestamp := "1970-01-01T00:00:00+00:00"
  outboxId := sampleUuid 'o'
  domainEventId := sampleUuid 'd'

/-- Both calls have made their reads before either has its locks. -/
def overlapping : List (IngressStep Bool) :=
  [.look false, .look true, .resolve true, .resolve false, .finish true, .finish false]

/-- The same event twice: the second call finds the stored row when its insert fails. -/
def deliveredTwice (_ : Bool) : Call := sampleCall "payment.authorized" "evt_1" "attempted"

theorem deliveredTwice_upToDate : Meets (Ingress.step deliveredTwice)
    (UpToDate deliveredTwice (sampleUuid 'p')) (.start (sampleDatabase samplePayment)) overlapping := by
  refine ⟨trivial, trivial, trivial, trivial, ?_, ?_, trivial⟩
  · rintro existing p new hphase - - current hcurrent
    obtain ⟨rfl, rfl⟩ : none = existing ∧ samplePayment = p := CallPhase.mapped.inj hphase
    obtain rfl : samplePayment = current := Option.some.inj hcurrent
    exact ⟨rfl, validateProviderIdentity_eq_none.mp (by decide +kernel), List.forall_mem_nil _⟩
  · rintro existing p new hphase - happlies
    obtain ⟨rfl, rfl⟩ : none = existing ∧ samplePayment = p := CallPhase.mapped.inj hphase
    exact absurd happlies.unprocessed (by decide +kernel)

theorem deliveredTwice_history :
    ((sampleDatabase samplePayment).payment? (sampleUuid 'p')).map Payment.status = some .created ∧
      (sampleDatabase samplePayment).history (sampleUuid 'p') = [] ∧
      Always (Ingress.step deliveredTwice) (fun s => HistoryOk s.db (sampleUuid 'p'))
        (.start (sampleDatabase samplePayment)) overlapping ∧
      (after (Ingress.step deliveredTwice) (.start (sampleDatabase samplePayment)) overlapping).db.transitions.length =
        1 :=
  ⟨by decide +kernel, rfl,
    ((payment_history_iff _ _ _ (by decide +kernel) rfl overlapping).mpr deliveredTwice_upToDate).1, by decide +kernel⟩

/-- An authorization and a failure. -/
def authorizedAndFailed : Bool → Call
  | true => sampleCall "payment.authorized" "evt_1" "attempted"
  | false => sampleCall "payment.failed" "evt_2" "failed"

/-- Two overlapping deliveries both move the payment from `created`. -/
theorem overlap_breaks_history : ¬ ∀ steps : List (IngressStep Bool),
    Always (Ingress.step authorizedAndFailed) (fun s => HistoryOk s.db (sampleUuid 'p'))
      (.start (sampleDatabase samplePayment)) steps := by
  intro hclaim
  obtain ⟨p, -, hpath⟩ := (always_last (hclaim overlapping)).path
  have hmoves : ((after (Ingress.step authorizedAndFailed) (.start (sampleDatabase samplePayment))
      overlapping).db.history (sampleUuid 'p')).map (fun t => (t.fromStatus, t.toStatus)) =
        [(.created, .attempted), (.created, .failed)] := by decide +kernel
  rw [hmoves] at hpath
  exact PaymentStatus.noConfusion hpath.2.2.1

end RevenueOS.Payments
