import RevenueOS.Py.Json
import RevenueOS.Workflows.Triggers

/-!
# RevenueOS.Leads.Lifecycle — the states of a lead

`domain/leads/lifecycle.py`: the statuses, the moves between them, `assert_transition` and `dedupe_key`; and the row of
`infrastructure/database/models/leads.py` that the lead services read and write.

The check constraint of the table keeps a stored status among the seven, so a row has a `LeadStatus`; what a
request asks for is a text.  `str.lower` and Unicode decomposition (`unicodedata.normalize("NFKD", …)`) are parameters.
-/

namespace RevenueOS.Leads

open RevenueOS.Py RevenueOS.Workflows

/-! ## Statuses -/

inductive LeadStatus where
  | new | qualified | contacted | nurturing | converted | disqualified | archived
deriving DecidableEq, Repr

namespace LeadStatus

def value : LeadStatus → String
  | new => "new"
  | qualified => "qualified"
  | contacted => "contacted"
  | nurturing => "nurturing"
  | converted => "converted"
  | disqualified => "disqualified"
  | archived => "archived"

/-- `LeadStatus(text)`; `none` is a `ValueError`. -/
def ofText? : String → Option LeadStatus
  | "new" => some new
  | "qualified" => some qualified
  | "contacted" => some contacted
  | "nurturing" => some nurturing
  | "converted" => some converted
  | "disqualified" => some disqualified
  | "archived" => some archived
  | _ => none

theorem eq_value_of_ofText? {text : String} {status : LeadStatus} (h : ofText? text = some status) :
    text = status.value := by
  unfold ofText? at h
  split at h <;> cases h <;> rfl

end LeadStatus

open LeadStatus

/-- `ALLOWED_TRANSITIONS`. -/
def allowedTransitions : LeadStatus → List LeadStatus
  | .new => [.qualified, .contacted, .nurturing, .disqualified, .archived]
  | .qualified => [.contacted, .nurturing, .converted, .disqualified, .archived]
  | .contacted => [.qualified, .nurturing, .converted, .disqualified, .archived]
  | .nurturing => [.contacted, .qualified, .converted, .disqualified, .archived]
  | .converted => []
  | .disqualified => [.nurturing, .archived]
  | .archived => [.new]

/-- `REQUIRES_REASON`. -/
def requiresReason : List LeadStatus := [.disqualified]

/-- What the lead services raise, with its message. -/
inductive LeadError where
  | notFound (message : String)
  | validation (message : String)
  | conflict (message : String)
  | preconditionFailed (message : String)
  | invalidTransition (message : String)
  | valueError (message : String)
  | integrity
deriving DecidableEq, Repr

/-- `not reason`. -/
def noReason (reason : Option String) : Bool := reason.getD "" == ""

/-- `assert_transition`. -/
def assertTransition (current : LeadStatus) (target : String) (reason : Option String) :
    Except LeadError LeadStatus :=
  match ofText? target with
  | none => .error (.valueError (Py.reprStr target ++ " is not a valid LeadStatus"))
  | some tgt =>
    if current = tgt then .ok tgt
    else if tgt ∉ allowedTransitions current then
      .error (.invalidTransition ("cannot move a lead from " ++ current.value ++ " to " ++ tgt.value))
    else if tgt ∈ requiresReason ∧ noReason reason = true then
      .error (.invalidTransition ("a reason is required to move a lead to " ++ tgt.value))
    else .ok tgt

/-- What a status change that passed `assert_transition` is. -/
structure Allowed (current : LeadStatus) (target : String) (reason : Option String) (tgt : LeadStatus) : Prop where
  text : ofText? target = some tgt
  move : tgt ≠ current → tgt ∈ allowedTransitions current
  reason : tgt ≠ current → tgt = .disqualified → noReason reason = false

theorem allowed_of_assertTransition {current tgt : LeadStatus} {target : String} {reason : Option String}
    (h : assertTransition current target reason = .ok tgt) : Allowed current target reason tgt := by
  unfold assertTransition at h
  split at h
  · cases h
  · rename_i t ht
    split_ifs at h with hsame hmove hreason
    · obtain rfl := Except.ok.inj h
      exact ⟨ht, fun hne => absurd hsame.symm hne, fun hne => absurd hsame.symm hne⟩
    · obtain rfl := Except.ok.inj h
      refine ⟨ht, fun _ => hmove, fun _ hdisqualified => ?_⟩
      rw [Bool.eq_false_iff]
      exact fun hnone => hreason ⟨hdisqualified ▸ List.mem_singleton.mpr rfl, hnone⟩

/-- A converted lead moves nowhere. -/
theorem assertTransition_converted {target : String} {reason : Option String} {tgt : LeadStatus}
    (h : assertTransition .converted target reason = .ok tgt) : tgt = .converted := by
  by_contra hne
  exact absurd ((allowed_of_assertTransition h).move hne) List.not_mem_nil

/-! ## `dedupe_key` -/

/-- `re.sub(p+, " ", text)`; `inRun` says that the character before was replaced. -/
def collapseRuns (p : Char → Bool) : Bool → List Char → List Char
  | _, [] => []
  | inRun, c :: cs =>
    if p c then (if inRun then collapseRuns p true cs else ' ' :: collapseRuns p true cs)
    else c :: collapseRuns p false cs

/-- `INDIA_MOBILE.match(text)`, on digits and plus signs. -/
def isIndiaMobile (text : String) : Bool :=
  match text.toList with
  | [] => false
  | c :: rest => ('6' ≤ c && c ≤ '9') && rest.length == 9 && rest.all fun d => '0' ≤ d && d ≤ '9'

/-- `normalize_phone(raw)`; `none` where it raises `InvalidPhone`. -/
def normalizePhone (raw : String) : Option String :=
  let cleaned := String.ofList ((strip raw).toList.filter fun c => ('0' ≤ c && c ≤ '9') || c == '+')
  let cleaned := if startsWith cleaned "00" then "+" ++ (cleaned.drop 2).toString else cleaned
  if startsWith cleaned "+" then
    let digits := (cleaned.drop 1).toString
    if startsWith digits "91" then
      let national := (digits.drop 2).toString
      if isIndiaMobile national then some ("+91" ++ national) else none
    else if !(8 ≤ digits.length && digits.length ≤ 15) || !isDigitStr digits then none
    else some ("+" ++ digits)
  else
    let cleaned := if startsWith cleaned "0" then (cleaned.drop 1).toString else cleaned
    let cleaned := if startsWith cleaned "91" ∧ cleaned.length = 12 then (cleaned.drop 2).toString else cleaned
    if isIndiaMobile cleaned then some ("+91" ++ cleaned) else none

section DedupeKey

variable (nfkd : String → String)

/-- `normalize_name_key`. -/
def normalizeNameKey (value : String) : String :=
  let base := (lower (String.ofList ((nfkd value).toList.filter fun c => c.toNat < 128))).toList
  let slug := collapseRuns (fun c => !(('a' ≤ c && c ≤ 'z') || ('0' ≤ c && c ≤ '9'))) false base
  strip (String.ofList (collapseRuns isSpace false slug))

/-- `f"n:{key}" if key else None`. -/
def nameKey (name : String) : Option String :=
  if normalizeNameKey nfkd name = "" then none else some ("n:" ++ normalizeNameKey nfkd name)

variable (lower : String → String)

/-- `dedupe_key`: only a text has a `strip`, and only a text can be normalised.  `str.lower` is a parameter. -/
def dedupeKey (email phone name : Json) : Except PyError (Option String) :=
  if email.truthy then
    match email with
    | .str email => .ok (some ("e:" ++ lower (strip email)))
    | _ => .error .attributeError
  else do
    let normalized ← if phone.truthy then
        match phone with
        | .str phone => .ok (normalizePhone phone)
        | _ => .error .attributeError
      else .ok none
    match normalized with
    | some e164 => .ok (some ("p:" ++ e164))
    | none =>
      if name.truthy then
        match name with
        | .str name => .ok (nameKey nfkd name)
        | _ => .error .typeError
      else .ok none

/-- The key of a row, whose values are texts. -/
def rowKey (email phone name : Option String) : Option String :=
  let value (text : Option String) : Json := (text.map Json.str).getD .null
  match dedupeKey nfkd lower (value email) (value phone) (value name) with
  | .ok key => key
  | .error _ => none

end DedupeKey

/-! ## Rows -/

/-- A row of `leads`: the columns the modelled services read or write. -/
structure Lead where
  id : Uuid
  firstName : String
  lastName : Option String
  email : Option String
  phone : Option String
  source : String
  sourceChannel : Option String
  capture : Dict
  utm : Dict
  qualificationScore : Option ℤ
  category : Option String
  status : LeadStatus
  disqualifyReason : Option String
  assigneeId : Option Uuid
  branchId : Option Uuid
  teamId : Option Uuid
  dedupeKey : Option String
  convertedContactId : Option Uuid
  mergedIntoId : Option Uuid
  deletedAt : Option ℤ
  version : ℕ

/-- `Lead.deleted_at.is_(None)`. -/
def Lead.live (lead : Lead) : Bool := lead.deletedAt.isNone

/-- The lengths of the columns and the constraint `score_range`. -/
def Lead.storable (lead : Lead) : Bool :=
  lead.firstName.length ≤ 120 && lead.lastName.all (·.length ≤ 120) && lead.email.all (·.length ≤ 320) &&
    lead.phone.all (·.length ≤ 20) && lead.source.length ≤ 80 && lead.sourceChannel.all (·.length ≤ 50) &&
    lead.qualificationScore.all (fun score => 0 ≤ score && score ≤ 100) && lead.category.all (·.length ≤ 10) &&
    lead.disqualifyReason.all (·.length ≤ 200) && lead.dedupeKey.all (·.length ≤ 200)

end RevenueOS.Leads
