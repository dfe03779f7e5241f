import RevenueOS.Payments.Identifier
import RevenueOS.Lib.Assoc

/-!
# RevenueOS.Payments.Refunds — when a payment is refunded

A refund event is compared with the payment like any other: its amount has to be the payment's whole amount, or
missing.  Partial refunds are parked for reconciliation and never added up.  `refunded_iff` says over any
sequence of deliveries when a payment ends as refunded, for bodies whose refund events carry the refund alone.
-/

namespace RevenueOS.Payments

open RevenueOS.Py RevenueOS.Workflows RevenueOS.Lib

/-! ## Refund events -/

/-- The event is one of the two that stand for a refund. -/
def IsRefund (d : Delivery) : Prop :=
  (dictOf d.body).getD "event" (.str "") = .str "refund.created" ∨
    (dictOf d.body).getD "event" (.str "") = .str "refund.processed"

/-- The body carries a refund and no payment. -/
def RefundOnly (d : Delivery) : Prop :=
  (entityOfKind d.body "refund").truthy = true ∧ (entityOfKind d.body "payment").truthy = false

/-- The amount the refund of the body reports. -/
def refundAmount (d : Delivery) : Json := (dictOf (entityOfKind d.body "refund")).get "amount"

/-- The event names the payment id and the currency of the payment, where it names any. -/
def SameIdAndCurrency (p : Payment) (parsed : Dict) : Prop :=
  (∀ x, p.externalPaymentId = some x → x ≠ "" → Call.field parsed "external_payment_id" ≠ "" →
      x = Call.field parsed "external_payment_id") ∧
    (parsed.get "currency" ≠ .null → (parsed.get "currency").text = p.currency)

/-- A refund of the whole payment `p`, under a free identifier: its amount is that of the payment or is not
reported. -/
def FullRefund (db : Database) (p : Payment) (d : Delivery) : Prop :=
  IsRefund d ∧ (refundAmount d = .null ∨ (refundAmount d).int? = some p.amountMinor) ∧
    ∃ parsed, parseWebhook d.body = .ok parsed ∧ identifier d.body ≠ "" ∧ resolvePayment db parsed = .ok p ∧
      Open db p.tenantId (identifier d.body) ∧ SameIdAndCurrency p parsed

theorem presentEntity_of_refundOnly {d : Delivery} (h : RefundOnly d) :
    presentEntity d.body = dictOf (entityOfKind d.body "refund") := by
  unfold presentEntity Json.or
  rw [if_neg (Bool.eq_false_iff.mp h.2), if_pos h.1]

/-- Against a body with a refund alone, the identity check compares the refund's amount. -/
theorem not_mismatches_iff {d : Delivery} {parsed : Dict} (hparse : parseWebhook d.body = .ok parsed)
    (honly : RefundOnly d) (p : Payment) : ¬ Mismatches p parsed ↔
      (refundAmount d = .null ∨ (refundAmount d).int? = some p.amountMinor) ∧ SameIdAndCurrency p parsed := by
  have hamount : parsed.get "amount_minor" = refundAmount d := by
    rw [(parsed_of_parseWebhook hparse).amount, presentEntity_of_refundOnly honly]
    rfl
  unfold Mismatches SameIdAndCurrency
  rw [hamount]
  constructor
  · intro h
    simp only [not_or, not_exists, not_and, not_not, ne_eq] at h
    obtain ⟨hid, hmoney, hcurrency⟩ := h
    exact ⟨or_iff_not_imp_left.mpr hmoney, hid, hcurrency⟩
  · rintro ⟨hmoney, hid, hcurrency⟩ (⟨x, hx, hne, hgiven, hdiff⟩ | ⟨hnull, hint⟩ | ⟨hnull, htext⟩)
    · exact hdiff (hid x hx hne hgiven)
    · exact hmoney.elim hnull hint
    · exact htext (hcurrency hnull)

theorem lookup_eventStatus {s : String} :
    eventStatus.lookup s = some "refunded" ↔ s = "refund.created" ∨ s = "refund.processed" := by
  constructor
  · intro h
    have hmem : (s, "refunded") ∈ eventStatus := mem_of_lookup h
    simpa [eventStatus] using hmem
  · rintro (rfl | rfl) <;> rfl

/-- The call of a delivery is for `refunded` exactly when its event is a refund. -/
theorem kind_eq_refunded {d : Delivery} {parsed : Dict} (h : parseWebhook d.body = .ok parsed) :
    (d.call parsed).target = some "refunded" ↔ IsRefund d := by
  have hstatus := (parsed_of_parseWebhook h).status
  have htarget : (d.call parsed).target = (parsed.get "status").str? := rfl
  rw [htarget]
  unfold IsRefund
  cases hevent : (dictOf d.body).getD "event" (.str "") with
  | str s =>
    rw [hevent, statusOf, Except.ok.injEq] at hstatus
    rw [← hstatus, Json.str.injEq, Json.str.injEq, ← lookup_eventStatus]
    cases eventStatus.lookup s <;> simp [Messaging.optionText, Json.str?]
  | arr xs =>
    rw [hevent] at hstatus
    cases hstatus
  | obj kvs =>
    rw [hevent] at hstatus
    cases hstatus
  | _ =>
    rw [hevent, statusOf, Except.ok.injEq] at hstatus
    · rw [← hstatus]
      simp [Json.str?]
    all_goals simp

/-! ## One delivery -/

theorem advance_eq_refunded (s : PaymentStatus) (k : Option PaymentStatus) :
    advance s k = .refunded ↔ s = .refunded ∨ (s = .captured ∧ k = some .refunded) := by
  rcases k with _ | k
  · simp [advance]
  · cases s <;> cases k <;> decide

theorem applyStatus_eq_refunded (s : PaymentStatus) (target : Option String) :
    applyStatus s target = .refunded ↔ s = .refunded ∨ (s = .captured ∧ target = some "refunded") := by
  have hkind : target.bind PaymentStatus.ofText? = some .refunded ↔ target = some "refunded" := by
    rw [Option.bind_eq_some_iff]
    constructor
    · rintro ⟨text, rfl, htext⟩
      rw [PaymentStatus.ofText?_eq_some.mp htext]
      rfl
    · rintro rfl
      exact ⟨_, rfl, rfl⟩
  rw [applyStatus_eq_advance, advance_eq_refunded, hkind]

/-- The status of a payment. -/
def Database.status (db : Database) (id : Uuid) : Option PaymentStatus := (db.payment? id).map Payment.status

/-- The status of a payment after an accepted call for `q`. -/
theorem status_of_accepts {db : Database} {q : Payment} {c : Call} (h : Accepts db q c) (id : Uuid) :
    (acceptVerifiedRazorpayEvent db c).2.status id =
      if id = q.id then some (applyStatus q.status c.target) else db.status id := by
  have hq : db.payment? q.id = some q := Table.find?_of_mem (mem_of_resolvePayment h.resolves)
  unfold Database.status
  rcases accept_of_accepts h with ⟨-, hstay, e, -, hdb⟩ | ⟨-, -, read, event, -, hdb⟩
  · rw [hdb, Database.payment?_setEvent]
    split_ifs with hid
    · rw [hid, hq, hstay]
      rfl
    · rfl
  · rw [hdb, payment?_applyTransition hq]
    split_ifs
    · exact congrArg some (flushed_self _ _)
    · rfl

/-- A refund alone is for the whole payment exactly when it is accepted for it. -/
theorem fullRefund_iff {db : Database} {p : Payment} {d : Delivery} {parsed : Dict}
    (hparse : parseWebhook d.body = .ok parsed) (honly : IsRefund d → RefundOnly d) :
    FullRefund db p d ↔ IsRefund d ∧ Accepts db p (d.call parsed) := by
  constructor
  · rintro ⟨hrefund, hamount, parsed', hparse', hid, hres, hfree, hsame⟩
    obtain rfl : parsed = parsed' := Except.ok.inj (hparse.symm.trans hparse')
    refine ⟨hrefund, ?_, ?_, hres, ?_, (not_mismatches_iff hparse (honly hrefund) p).mpr ⟨hamount, hsame⟩⟩
    · rwa [eventId_call hparse]
    · rw [eventType_call hparse]
      unfold eventName
      rcases hrefund with h | h <;> rw [h] <;> decide +kernel
    · rwa [eventId_call hparse]
  · rintro ⟨hrefund, h⟩
    obtain ⟨hamount, hsame⟩ := (not_mismatches_iff hparse (honly hrefund) p).mp h.same
    refine ⟨hrefund, hamount, parsed, hparse, ?_, h.resolves, ?_, hsame⟩
    · rw [← eventId_call hparse]
      exact h.eventId
    · rw [← eventId_call hparse]
      exact h.free

/-- An event that is accepted for a payment makes it refunded if it was captured, and touches no other. -/
theorem refunded_of_accepts {db : Database} {q : Payment} {d : Delivery} {parsed : Dict}
    (hparse : parseWebhook d.body = .ok parsed) (hq : Accepts db q (d.call parsed)) (id : Uuid) :
    (acceptVerifiedRazorpayEvent db (d.call parsed)).2.status id = some .refunded ↔
      db.status id = some .refunded ∨
        ∃ p, db.payment? id = some p ∧ p.status = .captured ∧ IsRefund d ∧ Accepts db p (d.call parsed) := by
  have hfind : db.payment? q.id = some q := Table.find?_of_mem (mem_of_resolvePayment hq.resolves)
  have honly : ∀ p, Accepts db p (d.call parsed) → p = q := fun p hp =>
    Except.ok.inj (hp.resolves.symm.trans hq.resolves)
  rw [status_of_accepts hq]
  split_ifs with hid
  · subst hid
    unfold Database.status
    rw [hfind, Option.map_some, Option.some.injEq, Option.some.injEq, applyStatus_eq_refunded,
      kind_eq_refunded hparse]
    refine or_congr_right ⟨fun h => ⟨q, rfl, h.1, h.2, hq⟩, ?_⟩
    rintro ⟨p, -, hcaptured, hrefund, hp⟩
    exact ⟨honly p hp ▸ hcaptured, hrefund⟩
  · refine ⟨Or.inl, fun h => h.resolve_right ?_⟩
    rintro ⟨p, hp, -, -, hpacc⟩
    obtain rfl := honly p hpacc
    exact hid (Table.key_of_find? hp).symm

/-- **One delivery** makes a payment refunded exactly when it is a full refund of the captured payment. -/
theorem refunded_receive {db : Database} {d : Delivery} (honly : IsRefund d → RefundOnly d) (id : Uuid) :
    (receive db d).status id = some .refunded ↔ db.status id = some .refunded ∨
      ∃ p, db.payment? id = some p ∧ p.status = .captured ∧ FullRefund db p d := by
  cases hparse : parseWebhook d.body with
  | error e =>
    have hsame : receive db d = db := by
      unfold receive razorpayWebhook
      rw [hparse]
      rfl
    rw [hsame]
    refine ⟨Or.inl, fun h => h.resolve_right ?_⟩
    rintro ⟨p, -, -, -, -, parsed, hparsed, -⟩
    cases hparse.symm.trans hparsed
  | ok parsed =>
    rw [receive_eq hparse]
    simp only [fullRefund_iff hparse honly]
    by_cases hacc : ∃ q, Accepts db q (d.call parsed)
    · obtain ⟨q, hq⟩ := hacc
      exact refunded_of_accepts hparse hq id
    · have hsame : (acceptVerifiedRazorpayEvent db (d.call parsed)).2.status id = db.status id := by
        unfold Database.status Database.payment?
        rw [(accept_of_not_accepts (not_exists.mp hacc)).payments]
      rw [hsame]
      refine ⟨Or.inl, fun h => h.resolve_right ?_⟩
      rintro ⟨p, -, -, -, hp⟩
      exact hacc ⟨p, hp⟩

/-! ## Sequences -/

/-- The tables after a sequence of deliveries. -/
def receiveAll (db : Database) (ds : List Delivery) : Database := ds.foldl receive db

/-- A refunded payment stays refunded. -/
theorem refunded_receiveAll (id : Uuid) : ∀ (ds : List Delivery) (db : Database),
    (∀ d ∈ ds, IsRefund d → RefundOnly d) → db.status id = some .refunded →
      (receiveAll db ds).status id = some .refunded
  | [], _, _, h => h
  | d :: ds, db, honly, h => by
    have hstep := (refunded_receive (honly d List.mem_cons_self) id).mpr (Or.inl h)
    exact refunded_receiveAll id ds (receive db d) (fun e he => honly e (List.mem_cons_of_mem _ he)) hstep

/-- **Refunds.**  Over any sequence of deliveries whose refund events carry the refund alone, a payment that is
not refunded at the start is refunded at the end iff at some point, while it was captured, one refund of its
whole amount (or of no stated amount) was delivered for it. -/
theorem refunded_iff (id : Uuid) (ds : List Delivery) (db : Database)
    (honly : ∀ d ∈ ds, IsRefund d → RefundOnly d) (hstart : db.status id ≠ some .refunded) :
    (receiveAll db ds).status id = some .refunded ↔
      ∃ before d later, ds = before ++ d :: later ∧ ∃ p, (receiveAll db before).payment? id = some p ∧
        p.status = .captured ∧ FullRefund (receiveAll db before) p d := by
  induction ds generalizing db with
  | nil =>
    refine iff_of_false hstart ?_
    rintro ⟨before, d, later, heq, -⟩
    simp at heq
  | cons d ds ih =>
    have hrest : ∀ e ∈ ds, IsRefund e → RefundOnly e := fun e he => honly e (List.mem_cons_of_mem _ he)
    have hstep := @refunded_receive db d (honly d List.mem_cons_self) id
    by_cases hnow : (receive db d).status id = some .refunded
    · -- this delivery is the full refund
      refine iff_of_true (refunded_receiveAll id ds (receive db d) hrest hnow) ⟨[], d, ds, rfl, ?_⟩
      exact (hstep.mp hnow).resolve_left hstart
    · have hcons : receiveAll db (d :: ds) = receiveAll (receive db d) ds := rfl
      rw [hcons, ih (receive db d) hrest hnow]
      constructor
      · rintro ⟨before, e, later, rfl, h⟩
        exact ⟨d :: before, e, later, rfl, h⟩
      · rintro ⟨before, e, later, heq, h⟩
        rcases before with _ | ⟨b, before⟩
        · rw [List.nil_append, List.cons.injEq] at heq
          obtain ⟨rfl, rfl⟩ := heq
          exact absurd (hstep.mpr (Or.inr h)) hnow
        · rw [List.cons_append, List.cons.injEq] at heq
          obtain ⟨rfl, rfl⟩ := heq
          exact ⟨before, e, later, rfl, h⟩

/-! ## Whole and partial refunds -/

def capturedPayment : Payment := { samplePayment with status := .captured, externalPaymentId := some "pay_1" }

/-- A body with a refund alone. -/
def sampleRefund (refundId : String) (amount : ℤ) : Delivery where
  body := .obj [("event", .str "refund.processed"), ("payload", .obj [("refund", .obj [("entity", .obj
    [("id", .str refundId), ("payment_id", .str "pay_1"), ("amount", .int amount), ("currency", .str "INR")])])])]
  correlationId := none
  now := 0
  timestamp := "1970-01-01T00:00:00+00:00"
  outboxId := sampleUuid 'o'
  domainEventId := sampleUuid 'd'

/-- The amounts of the refunds, added up. -/
def refundTotal (ds : List Delivery) : ℤ := (ds.map (fun d => (refundAmount d).int?.getD 0)).sum

theorem refundOnly_sample (refundId : String) (amount : ℤ) : RefundOnly (sampleRefund refundId amount) :=
  ⟨rfl, rfl⟩

theorem whole_refund :
    (sampleDatabase capturedPayment).status capturedPayment.id ≠ some .refunded ∧
      (receiveAll (sampleDatabase capturedPayment) [sampleRefund "rfnd_1" 1000]).status capturedPayment.id =
        some .refunded := by
  have hstart : (sampleDatabase capturedPayment).status capturedPayment.id ≠ some .refunded := by decide +kernel
  have hparse := eq_ok_get (x := parseWebhook (sampleRefund "rfnd_1" 1000).body) (by decide +kernel)
  have hsame := (not_mismatches_iff hparse (refundOnly_sample "rfnd_1" 1000) capturedPayment).mp
    (validateProviderIdentity_eq_none.mp (by decide +kernel))
  refine ⟨hstart, (refunded_iff _ _ _ ?_ hstart).mpr
    ⟨[], sampleRefund "rfnd_1" 1000, [], rfl, capturedPayment, by rfl, rfl, Or.inr rfl, Or.inr rfl, _, hparse,
      by decide +kernel, resolves_sample (by decide +kernel), ?_, hsame.2⟩⟩
  · intro d hd _
    rw [List.mem_singleton.mp hd]
    exact refundOnly_sample "rfnd_1" 1000
  · intro event hevent
    cases hevent

/-- Two refunds that make up the whole amount leave the payment captured. -/
theorem partial_refunds :
    (∀ d ∈ [sampleRefund "rfnd_1" 400, sampleRefund "rfnd_2" 600], RefundOnly d) ∧
      refundTotal [sampleRefund "rfnd_1" 400, sampleRefund "rfnd_2" 600] = capturedPayment.amountMinor ∧
      (receiveAll (sampleDatabase capturedPayment) [sampleRefund "rfnd_1" 400, sampleRefund "rfnd_2" 600]).status
        capturedPayment.id = some .captured := by
  refine ⟨?_, by decide +kernel, by decide +kernel⟩
  intro d hd
  simp only [List.mem_cons, List.not_mem_nil, or_false] at hd
  rcases hd with rfl | rfl
  · exact refundOnly_sample "rfnd_1" 400
  · exact refundOnly_sample "rfnd_2" 600

end RevenueOS.Payments
