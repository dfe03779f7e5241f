import RevenueOS.Payments.History

/-!
# RevenueOS.Payments.Accept — what one undisturbed call does

`Accepts db p c` is the condition, on the tables and the event alone, under which a call is processed for the
payment `p`.  An accepted event is marked as processed and moves the payment as `apply_status` says
(`accept_of_accepts`); any other call leaves every payment and the processed events as they are
(`accept_of_not_accepts`).
-/

namespace RevenueOS.Payments

open RevenueOS.Py RevenueOS.Workflows RevenueOS.Lib

/-! ## Resolution -/

/-- A payment is found when it is the only one with an identifier of the event. -/
theorem resolvePayment_eq_ok {db : Database} {parsed : Dict} {p : Payment} :
    resolvePayment db parsed = .ok p ↔
      matchingPayments db (Call.field parsed "external_payment_id") (Call.field parsed "external_order_id") = [p] := by
  unfold resolvePayment
  simp only
  split_ifs with hnone
  · refine iff_of_false (by simp) ?_
    simp [matchingPayments, Payment.carries, hnone.1, hnone.2]
  · split
    · rename_i heq
      simp [heq]
    · rename_i q heq
      simp [heq]
    · rename_i hnil hsingle
      refine iff_of_false (by simp) (fun heq => hsingle p heq)

theorem mem_of_resolvePayment {db : Database} {parsed : Dict} {p : Payment}
    (h : resolvePayment db parsed = .ok p) : p ∈ db.payments.rows := by
  rw [resolvePayment_eq_ok] at h
  have hmem : p ∈ matchingPayments db (Call.field parsed "external_payment_id")
      (Call.field parsed "external_order_id") := by
    rw [h]
    exact List.mem_singleton.mpr rfl
  exact (List.mem_filter.mp hmem).1

/-- The undisturbed call is the three steps of an interleaving in a row. -/
theorem accept_eq_steps {ι : Type} [DecidableEq ι] (calls : ι → Call) (s : Ingress ι) (i : ι)
    (hidle : s.phase i = .idle) :
    (after (Ingress.step calls) s [.look i, .resolve i, .finish i]).db =
      (acceptVerifiedRazorpayEvent s.db (calls i)).2 := by
  unfold acceptVerifiedRazorpayEvent
  simp only [after, List.foldl_cons, List.foldl_nil]
  cases hlook : lookUp s.db (calls i) with
  | inl receipt => simp [Ingress.step, Ingress.goto, hidle, hlook]
  | inr existing =>
    cases hresolve : resolvePayment s.db (calls i).parsed with
    | error error => simp [Ingress.step, Ingress.goto, hidle, hlook, hresolve]
    | ok p =>
      have hfind : s.db.payment? p.id = some p := Table.find?_of_mem (mem_of_resolvePayment hresolve)
      simp [Ingress.step, Ingress.goto, hidle, hlook, hresolve, hfind]

/-! ## Accepted events -/

namespace Call

/-- The status the event is for. -/
def target (c : Call) : Option String := (c.parsed.get "status").str?

end Call

/-- The event row is free for the tenant: not processed, and not bound to another tenant. -/
def Open (db : Database) (tenantId : Uuid) (eventId : String) : Prop :=
  ∀ event, db.events eventId = some event →
    event.processed = false ∧ (event.tenantId = none ∨ event.tenantId = some tenantId)

/-- The event of the call is processed for `p`. -/
structure Accepts (db : Database) (p : Payment) (c : Call) : Prop where
  eventId : c.eventId ≠ ""
  eventType : c.eventType ≠ ""
  resolves : resolvePayment db c.parsed = .ok p
  free : Open db p.tenantId c.eventId
  same : ¬ Mismatches p c.parsed

/-- The event has not been processed. -/
def Unprocessed (db : Database) (eventId : String) : Prop :=
  ∀ event, db.events eventId = some event → event.processed = false

theorem not_isProcessed {db : Database} {eventId : String} : ¬ IsProcessed db eventId ↔ Unprocessed db eventId := by
  constructor
  · intro h event hevent
    exact Bool.eq_false_iff.mpr (fun hp => h ⟨event, hevent, hp⟩)
  · rintro h ⟨event, hevent, hp⟩
    rw [h event hevent] at hp
    cases hp

theorem lookUp_eq_inr {db : Database} {c : Call} {existing : Option WebhookEvent} : lookUp db c = .inr existing ↔
    c.eventId ≠ "" ∧ c.eventType ≠ "" ∧ Unprocessed db c.eventId ∧ existing = db.events c.eventId := by
  unfold lookUp
  split_ifs with hblank
  · refine iff_of_false (by simp) ?_
    rintro ⟨hid, htype, -⟩
    exact hblank.elim hid htype
  · rw [not_or] at hblank
    unfold Unprocessed
    cases hevent : db.events c.eventId with
    | none =>
      constructor
      · intro h
        exact ⟨hblank.1, hblank.2, (fun _ he => by simp at he), (Sum.inr.inj h).symm⟩
      · rintro ⟨-, -, -, rfl⟩
        rfl
    | some event =>
      simp only
      constructor
      · intro h
        split_ifs at h with hp
        refine ⟨hblank.1, hblank.2, fun e he => ?_, (Sum.inr.inj h).symm⟩
        rw [← Option.some.inj he]
        exact Bool.eq_false_iff.mpr hp
      · rintro ⟨-, -, hun, rfl⟩
        rw [if_neg (Bool.eq_false_iff.mp (hun event rfl))]

theorem lookUp_eq_inl {db : Database} {c : Call} {receipt : RazorpayReceipt} (h : lookUp db c = .inl receipt) :
    (receipt.state = .rejected ∧ (c.eventId = "" ∨ c.eventType = "")) ∨
      (receipt.state = .duplicate ∧ c.eventId ≠ "" ∧ c.eventType ≠ "" ∧ IsProcessed db c.eventId) := by
  unfold lookUp at h
  split_ifs at h with hblank
  · left
    rw [← Sum.inl.inj h]
    exact ⟨rfl, hblank⟩
  · right
    rw [not_or] at hblank
    cases hevent : db.events c.eventId with
    | none =>
      rw [hevent] at h
      cases h
    | some event =>
      simp only [hevent] at h
      split_ifs at h with hp
      rw [← Sum.inl.inj h]
      exact ⟨rfl, hblank.1, hblank.2, event, hevent, hp⟩

/-- An undisturbed call has the event row as it is stored. -/
theorem lockedEvent_eq (db : Database) (c : Call) (tenantId : Option Uuid) :
    lockedEvent db c (db.events c.eventId) tenantId = (db.events c.eventId).getD (c.newEvent tenantId) := by
  unfold lockedEvent
  cases db.events c.eventId <;> rfl

theorem lockedEvent_unprocessed {db : Database} {c : Call} (hun : Unprocessed db c.eventId)
    (tenantId : Option Uuid) : (lockedEvent db c (db.events c.eventId) tenantId).processed = false := by
  rw [lockedEvent_eq]
  cases hevent : db.events c.eventId with
  | none => rfl
  | some event => exact hun event hevent

/-- An accepted event reaches the state machine. -/
theorem accept_eq_processEvent {db : Database} {p : Payment} {c : Call} (h : Accepts db p c) :
    ∃ duplicate read event, read.processed = false ∧
      acceptVerifiedRazorpayEvent db c = processEvent db c duplicate read event p := by
  have hun : Unprocessed db c.eventId := fun event hevent => (h.free event hevent).1
  unfold acceptVerifiedRazorpayEvent
  rw [lookUp_eq_inr.mpr ⟨h.eventId, h.eventType, hun, rfl⟩]
  simp only [h.resolves]
  unfold settleEvent
  simp only
  have hfree : ((db.events c.eventId).isSome && (lockedEvent db c (db.events c.eventId)
      (some p.tenantId)).tenantId.any (· != p.tenantId)) = false := by
    rw [lockedEvent_eq]
    cases hevent : db.events c.eventId with
    | none => rfl
    | some event => rcases (h.free event hevent).2 with htenant | htenant <;> simp [htenant]
  have hfresh := lockedEvent_unprocessed hun (some p.tenantId)
  rw [hfree, if_neg Bool.false_ne_true, if_neg (Bool.eq_false_iff.mp hfresh)]
  exact ⟨_, _, _, hfresh, rfl⟩

/-- What the state machine does with an event that matches the payment. -/
theorem processEvent_matching (db : Database) {c : Call} (duplicate : Bool) {read : WebhookEvent}
    (hread : read.processed = false) (event : WebhookEvent) {p : Payment} (h : ¬ Mismatches p c.parsed) :
    ((processEvent db c duplicate read event p).1.state = .ignored ∧ applyStatus p.status c.target = p.status ∧
        ∃ e, e.processed = true ∧ (processEvent db c duplicate read event p).2 = db.setEvent c.eventId e) ∨
      ((processEvent db c duplicate read event p).1.state = .applied ∧ applyStatus p.status c.target ≠ p.status ∧
        (processEvent db c duplicate read event p).2 =
          (applyTransition db c read event p (applyStatus p.status c.target)).2) := by
  have hignored : ∀ detail, ∃ e, e.processed = true ∧
      (markIgnored db c read event p detail).2 = db.setEvent c.eventId e := fun _ =>
    ⟨_, by rw [WebhookEvent.processed_flush hread]; rfl, rfl⟩
  unfold processEvent Call.target
  simp only [validateProviderIdentity_eq_none.mpr h]
  cases htarget : (c.parsed.get "status").str? with
  | none => exact Or.inl ⟨rfl, rfl, hignored _⟩
  | some target =>
    simp only
    cases hmove : assertTransition p.status target true with
    | error exc =>
      have hstay : applyStatus p.status (some target) = p.status := by simp [applyStatus, hmove]
      exact Or.inl ⟨rfl, hstay, hignored _⟩
    | ok new =>
      have hnew : applyStatus p.status (some target) = new := by simp [applyStatus, hmove]
      rw [hnew]
      by_cases hsame : new = p.status
      · simp only [if_pos hsame]
        exact Or.inl ⟨rfl, hsame, hignored _⟩
      · simp only [if_neg hsame]
        exact Or.inr ⟨rfl, hsame, trivial⟩

/-- **Accepted events** are processed and move their payment as `apply_status` says. -/
theorem accept_of_accepts {db : Database} {p : Payment} {c : Call} (h : Accepts db p c) :
    ((acceptVerifiedRazorpayEvent db c).1.state = .ignored ∧ applyStatus p.status c.target = p.status ∧
        ∃ e, e.processed = true ∧ (acceptVerifiedRazorpayEvent db c).2 = db.setEvent c.eventId e) ∨
      ((acceptVerifiedRazorpayEvent db c).1.state = .applied ∧ applyStatus p.status c.target ≠ p.status ∧
        ∃ read event, read.processed = false ∧ (acceptVerifiedRazorpayEvent db c).2 =
          (applyTransition db c read event p (applyStatus p.status c.target)).2) := by
  obtain ⟨duplicate, read, event, hread, heq⟩ := accept_eq_processEvent h
  rw [heq]
  rcases processEvent_matching db duplicate hread event h.same with hi | ⟨hs, hne, ha⟩
  · exact Or.inl hi
  · exact Or.inr ⟨hs, hne, read, event, hread, ha⟩

/-- A write of an unprocessed row over an unprocessed row processes nothing. -/
theorem isProcessed_setEvent {db : Database} {eventId : String} (hun : Unprocessed db eventId) {e : WebhookEvent}
    (he : e.processed = false) (other : String) :
    IsProcessed (db.setEvent eventId e) other ↔ IsProcessed db other := by
  by_cases hother : other = eventId
  · subst hother
    refine iff_of_false ?_ (not_isProcessed.mpr hun)
    rintro ⟨event, hevent, hp⟩
    rw [db.setEvent_self] at hevent
    rw [← Option.some.inj hevent, he] at hp
    cases hp
  · unfold IsProcessed
    rw [db.setEvent_of_ne e hother]

/-- No payment has changed, no event row but that of `eventId`, and no event has become processed. -/
structure Untouched (db db' : Database) (eventId : String) : Prop where
  payments : db'.payments = db.payments
  events : ∀ other, other ≠ eventId → db'.events other = db.events other
  processed : ∀ other, IsProcessed db' other ↔ IsProcessed db other

theorem Untouched.refl (db : Database) (eventId : String) : Untouched db db eventId :=
  ⟨rfl, fun _ _ => rfl, fun _ => Iff.rfl⟩

theorem Untouched.saveEvent {db : Database} {eventId : String} (hun : Unprocessed db eventId)
    {read new : WebhookEvent} (hread : read.processed = false) (hnew : new.processed = false) :
    Untouched db (db.saveEvent eventId read new) eventId := by
  refine ⟨rfl, fun _ hne => db.saveEvent_of_ne read new hne, isProcessed_setEvent hun ?_⟩
  rw [WebhookEvent.processed_flush hread, hnew, Bool.false_or]
  cases hevent : db.events eventId with
  | none => exact hread
  | some event => exact hun event hevent

/-- **Any other call** leaves every payment and the processed events as they are. -/
theorem accept_of_not_accepts {db : Database} {c : Call} (h : ∀ p, ¬ Accepts db p c) :
    Untouched db (acceptVerifiedRazorpayEvent db c).2 c.eventId := by
  unfold acceptVerifiedRazorpayEvent
  cases hlook : lookUp db c with
  | inl receipt => exact .refl db _
  | inr existing =>
    obtain ⟨hid, htype, hun, rfl⟩ := lookUp_eq_inr.mp hlook
    cases hresolve : resolvePayment db c.parsed with
    | error error =>
      have hfresh := lockedEvent_unprocessed hun none
      simp only [parkEvent, if_neg (Bool.eq_false_iff.mp hfresh)]
      exact .saveEvent hun hfresh hfresh
    | ok p =>
      simp only [settleEvent]
      split_ifs with hconflict hprocessed
      · exact .refl db _
      · exact .refl db _
      · -- the event is the call's own: it is accepted unless it does not match the payment
        have hmismatch : Mismatches p c.parsed := by
          by_contra hsame
          refine h p ⟨hid, htype, hresolve, fun event hevent => ⟨hun event hevent, ?_⟩, hsame⟩
          rw [lockedEvent_eq, hevent, Option.getD_some] at hconflict
          cases htenant : event.tenantId with
          | none => exact Or.inl rfl
          | some t => simpa [htenant] using hconflict
        have herror := mt validateProviderIdentity_eq_none.mp (not_not_intro hmismatch)
        obtain ⟨error, herror⟩ := Option.ne_none_iff_exists'.mp herror
        simp only [processEvent, herror]
        have hfresh := Bool.eq_false_iff.mpr hprocessed
        exact .saveEvent hun hfresh hfresh

theorem applyTransition_events_of_ne (db : Database) (c : Call) (read event : WebhookEvent) (p : Payment)
    (new : PaymentStatus) {other : String} (h : other ≠ c.eventId) :
    (applyTransition db c read event p new).2.events other = db.events other := by
  rw [events_applyTransition]
  exact db.saveEvent_of_ne read _ h

theorem isProcessed_applyTransition (db : Database) (c : Call) {read : WebhookEvent} (hread : read.processed = false)
    (event : WebhookEvent) (p : Payment) (new : PaymentStatus) :
    IsProcessed (applyTransition db c read event p new).2 c.eventId :=
  isProcessed_applyTransition_iff.mpr (.of_saveEvent hread rfl)

/-- A call writes no event row but its own. -/
theorem accept_events_of_ne (db : Database) (c : Call) {other : String} (hne : other ≠ c.eventId) :
    (acceptVerifiedRazorpayEvent db c).2.events other = db.events other := by
  by_cases hacc : ∃ p, Accepts db p c
  · obtain ⟨p, h⟩ := hacc
    rcases accept_of_accepts h with ⟨-, -, e, -, hdb⟩ | ⟨-, -, read, event, -, hdb⟩
    · rw [hdb, db.setEvent_of_ne e hne]
    · rw [hdb, applyTransition_events_of_ne db c read event p _ hne]
  · exact (accept_of_not_accepts (not_exists.mp hacc)).events other hne

/-- The only payment is found by an identifier it carries. -/
theorem resolves_sample {p : Payment} {parsed : Dict}
    (h : p.carries (Call.field parsed "external_payment_id") (Call.field parsed "external_order_id") = true) :
    resolvePayment (sampleDatabase p) parsed = .ok p := by
  rw [resolvePayment_eq_ok]
  simp [matchingPayments, sampleDatabase, h]

end RevenueOS.Payments
