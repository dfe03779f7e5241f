import RevenueOS.Py.Json

/-!
# RevenueOS.Payments.StateMachine — the states of a payment

`domain/payments/state_machine.py`: the statuses, the moves between them, and the cleaning of provider payloads.
-/

namespace RevenueOS.Payments

open RevenueOS.Py

/-! ## Statuses -/

inductive PaymentStatus where
  | created | attempted | captured | failed | refunded
deriving DecidableEq, Repr

namespace PaymentStatus

def value : PaymentStatus → String
  | created => "created"
  | attempted => "attempted"
  | captured => "captured"
  | failed => "failed"
  | refunded => "refunded"

/-- `PaymentStatus(text)`; `none` is a `ValueError`. -/
def ofText? : String → Option PaymentStatus
  | "created" => some created
  | "attempted" => some attempted
  | "captured" => some captured
  | "failed" => some failed
  | "refunded" => some refunded
  | _ => none

theorem ofText?_eq_some {text : String} {s : PaymentStatus} : ofText? text = some s ↔ text = s.value := by
  constructor
  · intro h
    unfold ofText? at h
    split at h <;> first | (obtain rfl := Option.some.inj h; rfl) | cases h
  · rintro rfl
    cases s <;> rfl

end PaymentStatus

open PaymentStatus

/-- `ALLOWED`. -/
def allowed : PaymentStatus → List PaymentStatus
  | .created => [.attempted, .failed]
  | .attempted => [.captured, .failed]
  | .captured => [.refunded]
  | .failed => []
  | .refunded => []

/-- `assert_transition`: the new status, or the text of the exception. -/
def assertTransition (current : PaymentStatus) (target : String) (idempotent : Bool) :
    Except String PaymentStatus :=
  match ofText? target with
  | none => .error (Py.reprStr target ++ " is not a valid PaymentStatus")
  | some tgt =>
    if current = tgt then
      if idempotent then .ok tgt else .error ("payment is already " ++ current.value)
    else if tgt ∈ allowed current then .ok tgt
    else .error ("cannot move a payment from " ++ current.value ++ " to " ++ tgt.value)

/-- `apply_status`: moves that are not allowed are no-ops. -/
def applyStatus (current : PaymentStatus) (eventStatus : Option String) : PaymentStatus :=
  match eventStatus with
  | none => current
  | some target =>
    match assertTransition current target true with
    | .ok new => new
    | .error _ => current

/-- A move that changes the status is one of the machine's. -/
theorem allowed_of_assertTransition {current new : PaymentStatus} {target : String} {idempotent : Bool}
    (h : assertTransition current target idempotent = .ok new) (hne : new ≠ current) : new ∈ allowed current := by
  unfold assertTransition at h
  split at h
  · cases h
  · rename_i tgt _
    split_ifs at h with hsame _ hallowed
    · exact absurd (Except.ok.inj h ▸ hsame.symm) hne
    · exact Except.ok.inj h ▸ hallowed

/-- A move of the machine is made. -/
theorem assertTransition_of_allowed {current new : PaymentStatus} {idempotent : Bool} (h : new ∈ allowed current) :
    assertTransition current new.value idempotent = .ok new := by
  cases current <;> cases new <;> first | rfl | exact absurd h (by decide)

/-- A move leads to the status it was asked for. -/
theorem target_of_assertTransition {current new : PaymentStatus} {target : String} {idempotent : Bool}
    (h : assertTransition current target idempotent = .ok new) : target = new.value := by
  unfold assertTransition at h
  split at h
  · cases h
  · rename_i tgt htgt
    split_ifs at h
    · exact Except.ok.inj h ▸ ofText?_eq_some.mp htgt
    · exact Except.ok.inj h ▸ ofText?_eq_some.mp htgt

/-- One event as a step of the machine: it leads to the status it is for, where that is allowed. -/
def advance (s : PaymentStatus) : Option PaymentStatus → PaymentStatus
  | some t => if t ∈ allowed s then t else s
  | none => s

theorem not_mem_allowed_self (s : PaymentStatus) : s ∉ allowed s := by cases s <;> decide

theorem applyStatus_eq_advance (s : PaymentStatus) (target : Option String) :
    applyStatus s target = advance s (target.bind ofText?) := by
  cases target with
  | none => rfl
  | some text =>
    rw [Option.bind_some]
    unfold applyStatus assertTransition advance
    cases htext : ofText? text with
    | none => simp [htext]
    | some t =>
      by_cases hsame : s = t
      · simp [htext, hsame, not_mem_allowed_self]
      · by_cases hallowed : t ∈ allowed s
        · simp [htext, hsame, hallowed]
        · simp [htext, hsame, hallowed]

/-! ## Provider payloads -/

/-- `FORBIDDEN_PAYLOAD_KEYS`. -/
def forbiddenPayloadKeys : List String :=
  ["card_number", "card", "pan", "cvv", "cvc", "expiry_month", "expiry_year", "cardholder_name", "track_data",
    "pin"]

mutual

/-- `clean`. -/
def clean : Json → ℕ → Json
  | .obj d, depth => if 6 < depth then .str "[TRUNCATED]" else .obj (cleanEntries d (depth + 1))
  | .arr xs, depth => if 6 < depth then .str "[TRUNCATED]" else .arr ((cleanList xs (depth + 1)).take 100)
  | x, depth => if 6 < depth then .str "[TRUNCATED]" else x

def cleanList : List Json → ℕ → List Json
  | [], _ => []
  | x :: xs, depth => clean x depth :: cleanList xs depth

def cleanEntries : List (String × Json) → ℕ → List (String × Json)
  | [], _ => []
  | (k, v) :: d, depth =>
    (k, if forbiddenPayloadKeys.contains (lower k) then .str "[REMOVED]" else clean v depth) :: cleanEntries d depth

end

/-- `sanitize_provider_payload`. -/
def sanitizeProviderPayload (payload : Json) : Json := clean payload 0

end RevenueOS.Payments
