import RevenueOS.Lib.Assoc
import RevenueOS.Lib.Except
import RevenueOS.Leads.Lifecycle

/-!
# RevenueOS.Workflows.Updates — the actions that update a record

The branches `lead.update`, `contact.update` and `deal.update` of `_apply_action`, `_changes`
(`application/workflows/actions.py`), and the `update` of `LeadService`, `ContactService` and `DealService` up to the
commit of their unit of work.  The inputs are any Python values; a record is its attributes, of which the columns are
stored.  What the rows in scope are, which attributes a mapped object lets be set, and whether the driver and the
database take a row (types, check constraints, row-level security) are parameters.

* `update_frame_iff`: when an action changes only what the API schema of the record exposes.
-/

namespace RevenueOS.Workflows

open RevenueOS.Py RevenueOS.Lib RevenueOS.Leads

/-! ## Python values -/

/-- What the inputs of an action hold once `_coerce_inputs` has read its ids and instants. -/
inductive Value where
  | null
  | bool (b : Bool)
  | int (n : ℤ)
  | float (q : ℚ)
  | str (s : String)
  | uuid (u : Uuid)
  | datetime (t : ℤ)
  | list (xs : List Value)
  | dict (entries : List (String × Value))

/-- A `dict` with string keys, in insertion order. -/
abbrev Entries := List (String × Value)

namespace Value

def num? : Value → Option ℚ
  | .int n => some n
  | .bool b => some (if b then 1 else 0)
  | .float q => some q
  | _ => Option.none

/-- `bool(x)`. -/
def truthy : Value → Bool
  | .null => false
  | .bool b => b
  | .int n => n != 0
  | .float q => q != 0
  | .str s => s != ""
  | .list xs => !xs.isEmpty
  | .dict d => !d.isEmpty
  | _ => true

/-- `x is None`. -/
def isNull : Value → Bool
  | .null => true
  | _ => false

/-- `x or y`. -/
def or (x y : Value) : Value := if x.truthy then x else y

mutual

/-- `x == y`. -/
def pyEq : Value → Value → Bool
  | .null, .null => true
  | .str a, .str b => a == b
  | .uuid a, .uuid b => a == b
  | .datetime a, .datetime b => a == b
  | .list xs, .list ys => pyEqList xs ys
  | .dict d, .dict e => d.length == e.length && pyEqEntries d e
  | x, y =>
    match x.num?, y.num? with
    | some p, some q => p == q
    | _, _ => false

def pyEqList : List Value → List Value → Bool
  | [], [] => true
  | x :: xs, y :: ys => pyEq x y && pyEqList xs ys
  | _, _ => false

def pyEqEntries : List (String × Value) → Entries → Bool
  | [], _ => true
  | (k, v) :: rest, e =>
    (match e.lookup k with
      | some w => pyEq v w
      | none => false) && pyEqEntries rest e

end

/-- `x + 1`. -/
def succ : Value → Except PyError Value
  | .int n => .ok (.int (n + 1))
  | .bool b => .ok (.int (if b then 2 else 1))
  | .float q =>
    .ok (.float (if 0 < q + 1 then roundDouble (q + 1) else if q + 1 < 0 then -roundDouble (-(q + 1)) else 0))
  | _ => .error .typeError

end Value

/-- `d.get(key)`. -/
def Entries.get (d : Entries) (key : String) : Value := (d.lookup key).getD .null

/-- A `dict` built item by item: a key that is there keeps its place and takes the new value. -/
def dictOf (items : List (String × Value)) : Entries := items.foldl (fun d e => assocSet d e.1 e.2) []

/-- An item of `dict(iterable)`. -/
def itemOf : Value → Except PyError (String × Value)
  | .list [.str key, value] => .ok (key, value)
  | .str s =>
    match s.toList with
    | [a, b] => .ok (String.ofList [a], .str (String.ofList [b]))
    | _ => .error .valueError
  | _ => .error .typeError

/-- `dict(x)`. -/
def toDict : Value → Except PyError Entries
  | .dict d => .ok (dictOf d)
  | .list xs => do return dictOf (← xs.mapM itemOf)
  | _ => .error .typeError

/-! ## Records -/

/-- What `lead.update`, `contact.update` and `deal.update` change. -/
inductive RecordKind where
  | lead | contact | deal
deriving DecidableEq

namespace RecordKind

def modelName : RecordKind → String
  | .lead => "Lead"
  | .contact => "Contact"
  | .deal => "Deal"

/-- The key of the payload that names the record. -/
def identityKey : RecordKind → String
  | .lead => "lead_id"
  | .contact => "contact_id"
  | .deal => "deal_id"

/-- The columns of `IdMixin`, `TimestampMixin`, `SoftDeleteMixin`, `VersionMixin` and `ActorMixin`. -/
def mixinColumns : List String :=
  ["id", "created_at", "updated_at", "deleted_at", "version", "created_by", "updated_by"]

def columns : RecordKind → List String
  | .lead => mixinColumns ++
    ["tenant_id", "first_name", "last_name", "email", "phone", "source", "source_channel", "capture", "utm",
      "qualification_score", "category", "reasoning", "qualified_by", "qualified_at", "reviewer_state", "reviewed_by",
      "status", "disqualify_reason", "assignee_id", "branch_id", "team_id", "dedupe_key", "converted_contact_id",
      "converted_deal_id", "converted_at", "merged_into_id", "first_response_at"]
  | .contact => mixinColumns ++
    ["tenant_id", "first_name", "last_name", "email", "phone", "company", "title", "status", "source", "address",
      "custom_fields", "tags", "assignee_id", "account_id", "branch_id", "team_id", "dedupe_key", "last_contact_at",
      "merged_into_id"]
  | .deal => mixinColumns ++
    ["tenant_id", "contact_id", "account_id", "pipeline_id", "stage_id", "title", "amount_minor", "currency",
      "probability", "status", "loss_reason", "expected_close_date", "closed_at", "assignee_id", "branch_id",
      "team_id", "custom_fields", "source_lead_id"]

/-- The fields of `LeadUpdate`, `ContactUpdate` and `DealUpdate` (`api/v1/schemas.py`). -/
def exposed : RecordKind → List String
  | .lead => ["first_name", "last_name", "status", "assignee_id", "capture", "disqualify_reason"]
  | .contact =>
    ["first_name", "last_name", "email", "phone", "company", "title", "status", "tags", "account_id", "assignee_id"]
  | .deal => ["title", "amount_minor", "expected_close_date", "assignee_id", "contact_id", "account_id"]

/-- The fields for which `None` is an instruction. -/
def nullable : RecordKind → List String
  | .lead => []
  | .contact => ["account_id"]
  | .deal => ["contact_id", "account_id"]

/-- The columns whose `isoformat` the serialiser calls. -/
def instants : RecordKind → List String
  | .lead => ["first_response_at", "created_at", "updated_at"]
  | .contact => ["created_at", "updated_at"]
  | .deal => ["expected_close_date", "closed_at", "created_at", "updated_at"]

end RecordKind

/-- The attributes of a mapped object. -/
abbrev Record := String → Value

/-- What the services raise. -/
inductive UpdateError where
  | validation (message : String)
  | notFound (message : String)
  | preconditionFailed (message : String)
  | transition (e : LeadError)
  | python (e : PyError)
  | database

/-- What a service works with. -/
structure RecordWorld where
  /-- `get_scoped_or_404`: the rows of the tenant in the scope of the principal. -/
  find : RecordKind → Uuid → Option Record
  contactVisible : Value → Bool
  accountVisible : Value → Bool
  /-- `setattr` of a name that is no column does not raise. -/
  settable : String → Bool
  /-- The driver and the database take the row. -/
  stores : RecordKind → Record → Bool
  /-- `UUID(str(value))`. -/
  uuidOf : Value → Option Uuid
  userId : Uuid
  now : ℤ

/-! ## The services -/

/-- `CONTACT_STATUSES`. -/
def contactStatuses : List String := ["active", "archived", "inactive"]

/-- What `assert_transition` reads of the reason is whether there is one. -/
def reasonOf : Value → Option String
  | .str s => some s
  | value => if value.truthy then some "given" else none

/-- `assert_transition(lead.status, changes["status"], reason=changes.get("disqualify_reason"))`. -/
def leadTransition (current target reason : Value) : Except UpdateError Unit :=
  match current, target with
  | .str current, .str target =>
    match LeadStatus.ofText? current with
    | none => .error (.transition (.valueError (Py.reprStr current ++ " is not a valid LeadStatus")))
    | some status =>
      match assertTransition status target (reasonOf reason) with
      | .ok _ => .ok ()
      | .error e => .error (.transition e)
  | _, _ => .error (.transition (.valueError "not a valid LeadStatus"))

/-- `if changes.get("status")`. -/
def leadStatusCheck (lead : Record) (changes : Entries) : Except UpdateError Unit :=
  if (changes.get "status").truthy then
    leadTransition (lead "status") (changes.get "status") (changes.get "disqualify_reason")
  else .ok ()

/-- `changes["status"] not in CONTACT_STATUSES`. -/
def contactStatusCheck : Option Value → Except UpdateError Unit
  | none => .ok ()
  | some (.str status) =>
    if contactStatuses.contains status then .ok ()
    else .error (.validation ("Unknown status. Expected one of: " ++ join ", " contactStatuses ++ "."))
  | some (.list _) => .error (.python .typeError)
  | some (.dict _) => .error (.python .typeError)
  | some _ => .error (.validation ("Unknown status. Expected one of: " ++ join ", " contactStatuses ++ "."))

/-- `_assert_account_exists`, and a half of `_assert_links_visible`. -/
def linkCheck (visible : Value → Bool) (message : String) (link : Value) : Except UpdateError Unit :=
  if link.truthy = true ∧ visible link = false then .error (.notFound message) else .ok ()

section World

variable (w : RecordWorld)

/-- The loop of `setattr`. -/
def setAttrs (kind : RecordKind) : Record → Entries → Except UpdateError Record
  | row, [] => .ok row
  | row, (key, value) :: rest =>
    if kind.nullable.contains key || !value.isNull then
      if kind.columns.contains key || w.settable key then setAttrs kind (Function.update row key value) rest
      else .error (.python .attributeError)
    else setAttrs kind row rest

/-- `entity.version = current + 1`. -/
def bumped (current : Value) : Except PyError Value := if current.isNull then .ok current else current.succ

/-- `bump_version`. -/
def bumpVersion (row : Record) (expected : Value) : Except UpdateError Record :=
  if !(row "version").isNull && !expected.isNull && !expected.pyEq (row "version") then
    .error (.preconditionFailed "The resource was modified by someone else.")
  else
    match bumped (row "version") with
    | .ok version => .ok (Function.update row "version" version)
    | .error e => .error (.python e)

/-- The serialiser of the record returns. -/
def serializable (kind : RecordKind) (row : Record) : Bool :=
  (kind.instants.all fun column => match row column with
    | .datetime _ => true
    | value => !value.truthy) &&
  (kind != .contact || match row "tags" with
    | .list _ => true
    | .dict _ => true
    | .str _ => true
    | value => !value.truthy)

/-- The part the services share, to the commit; a trigger sets `updated_at`. -/
def saveRecord (kind : RecordKind) (row : Record) (changes : Entries) (expected : Value) :
    Except UpdateError Record := do
  let row ← setAttrs w kind row changes
  let row ← bumpVersion row expected
  let row := Function.update row "updated_by" (.uuid w.userId)
  if !serializable kind row then .error (.python .attributeError)
  else if !w.stores kind row then .error .database
  else .ok (Function.update row "updated_at" (.datetime w.now))

/-- `get_scoped_or_404`. -/
def getScoped (kind : RecordKind) (id : Uuid) : Except UpdateError Record :=
  match w.find kind id with
  | some row => .ok row
  | none => .error (.notFound (kind.modelName ++ " not found."))

/-- `LeadService.update`. -/
def leadUpdate (id : Uuid) (changes : Entries) (expected : Value) : Except UpdateError Record := do
  let lead ← getScoped w .lead id
  leadStatusCheck lead changes
  saveRecord w .lead lead changes expected

/-- `ContactService.update`. -/
def contactUpdate (id : Uuid) (changes : Entries) (expected : Value) : Except UpdateError Record := do
  contactStatusCheck (changes.lookup "status")
  let contact ← getScoped w .contact id
  linkCheck w.accountVisible "Account not found." (changes.get "account_id")
  saveRecord w .contact contact changes expected

/-- `DealService.update`. -/
def dealUpdate (id : Uuid) (changes : Entries) (expected : Value) : Except UpdateError Record := do
  let deal ← getScoped w .deal id
  linkCheck w.contactVisible "Contact not found." (changes.get "contact_id")
  linkCheck w.accountVisible "Account not found." (changes.get "account_id")
  saveRecord w .deal deal changes expected

/-- The `update` of the service of a record. -/
def serviceUpdate : RecordKind → Uuid → Entries → Value → Except UpdateError Record
  | .lead => leadUpdate w
  | .contact => contactUpdate w
  | .deal => dealUpdate w

/-! ## The actions -/

/-- `dict(inputs.get("payload") or inputs)`. -/
def payloadOf (inputs : Entries) : Except PyError Entries := toDict ((inputs.get "payload").or (.dict inputs))

/-- `_target_id`. -/
def targetId (payload entity : Entries) (key : String) : Except UpdateError Uuid :=
  let value := ((payload.get key).or (payload.get "entity_id")).or (entity.get "id")
  if value.isNull then .error (.validation (key ++ " is required."))
  else
    match w.uuidOf value with
    | some id => .ok id
    | none => .error (.python .valueError)

/-- `_changes`. -/
def changesOf (payload : Entries) (identityKey : String) : Entries :=
  match payload.get "changes" with
  | .dict changes => dictOf changes
  | _ => dictOf (payload.filter fun item =>
      !([identityKey, "entity_id", "expected_version", "payload"].contains item.1))

/-- The change set of the inputs of an action. -/
def changeSet (kind : RecordKind) (inputs : Entries) : Except PyError Entries := do
  return changesOf (← payloadOf inputs) kind.identityKey

/-- `_apply_action` for an action that updates: the record and its attributes as they are committed. -/
def applyUpdate (kind : RecordKind) (inputs entity : Entries) : Except UpdateError (Uuid × Record) := do
  let payload ← (payloadOf inputs).mapError .python
  let id ← targetId w payload entity kind.identityKey
  let row ← serviceUpdate w kind id (changesOf payload kind.identityKey) (payload.get "expected_version")
  return (id, row)

/-! ## What an update commits -/

/-- The value of an attribute after the loop of `setattr`. -/
def written (kind : RecordKind) (row : Record) (changes : Entries) (key : String) : Value :=
  match changes.lookup key with
  | some value => if kind.nullable.contains key || !value.isNull then value else row key
  | none => row key

theorem nodup_dictOf (items : List (String × Value)) : ((dictOf items).map (·.1)).Nodup :=
  nodup_foldl_assocSet items List.nodup_nil

theorem nodup_changesOf (payload : Entries) (identityKey : String) :
    ((changesOf payload identityKey).map (·.1)).Nodup := by
  unfold changesOf
  split
  · exact nodup_dictOf _
  · exact nodup_dictOf _

theorem setAttrs_ok {kind : RecordKind} : ∀ {changes : Entries} {row row' : Record},
    (changes.map (·.1)).Nodup → setAttrs w kind row changes = .ok row' → row' = written kind row changes
  | [], row, row', _, h => by
    cases h
    rfl
  | (key, value) :: rest, row, row', hnodup, h => by
    rw [List.map_cons, List.nodup_cons] at hnodup
    have hrest : rest.lookup key = none := by
      rw [List.lookup_eq_none_iff]
      intro item hitem
      exact bne_iff_ne.mpr (fun heq => hnodup.1 (List.mem_map.mpr ⟨item, hitem, heq.symm⟩))
    funext key'
    rw [setAttrs] at h
    unfold written
    rw [List.lookup_cons]
    by_cases hkey : key' = key
    · subst hkey
      rw [beq_self_eq_true]
      dsimp only
      by_cases happlies : (kind.nullable.contains key' || !value.isNull) = true
      · rw [if_pos happlies] at h ⊢
        split_ifs at h
        rw [setAttrs_ok hnodup.2 h, written, hrest]
        exact Function.update_self key' value row
      · rw [if_neg happlies] at h ⊢
        rw [setAttrs_ok hnodup.2 h, written, hrest]
    · rw [beq_false_of_ne hkey]
      dsimp only
      by_cases happlies : (kind.nullable.contains key || !value.isNull) = true
      · rw [if_pos happlies] at h
        split_ifs at h
        rw [setAttrs_ok hnodup.2 h, written, Function.update_of_ne hkey]
      · rw [if_neg happlies] at h
        rw [setAttrs_ok hnodup.2 h, written]

theorem bumpVersion_ok {row row' : Record} {expected : Value} (h : bumpVersion row expected = .ok row') :
    ∃ version, bumped (row "version") = .ok version ∧ row' = Function.update row "version" version := by
  unfold bumpVersion at h
  split_ifs at h
  cases hversion : bumped (row "version") with
  | error e =>
    rw [hversion] at h
    cases h
  | ok version =>
    rw [hversion] at h
    cases h
    exact ⟨version, rfl, rfl⟩

/-- The attributes that are committed: the loop, the version, the actor and the trigger. -/
structure Saved (kind : RecordKind) (row : Record) (changes : Entries) (after : Record) : Prop where
  version : bumped (written kind row changes "version") = .ok (after "version")
  actor : after "updated_by" = .uuid w.userId
  other : ∀ key, key ≠ "version" → key ≠ "updated_by" → key ≠ "updated_at" → after key = written kind row changes key

theorem saveRecord_ok {kind : RecordKind} {row after : Record} {changes : Entries} {expected : Value}
    (hnodup : (changes.map (·.1)).Nodup) (h : saveRecord w kind row changes expected = .ok after) :
    Saved w kind row changes after := by
  unfold saveRecord at h
  obtain ⟨row₁, hset, h⟩ := bind_eq_ok.mp h
  obtain ⟨row₂, hbump, h⟩ := bind_eq_ok.mp h
  obtain ⟨version, hversion, rfl⟩ := bumpVersion_ok hbump
  rw [setAttrs_ok w hnodup hset] at hversion h
  dsimp only at h
  split_ifs at h
  cases h
  refine ⟨?_, ?_, fun key hkey hactor htime => ?_⟩
  · rw [hversion, Function.update_of_ne (by decide), Function.update_of_ne (by decide), Function.update_self]
  · rw [Function.update_of_ne (by decide), Function.update_self]
  · rw [Function.update_of_ne htime, Function.update_of_ne hactor, Function.update_of_ne hkey]

theorem getScoped_ok {kind : RecordKind} {id : Uuid} {row : Record} (h : getScoped w kind id = .ok row) :
    w.find kind id = some row := by
  unfold getScoped at h
  split at h
  · rename_i row' hrow
    cases h
    exact hrow
  · cases h

/-- Each service loads the record, checks the change set and saves it. -/
theorem update_ok {kind : RecordKind} {id : Uuid} {changes : Entries} {expected : Value} {after : Record}
    (h : serviceUpdate w kind id changes expected = .ok after) :
    ∃ before, w.find kind id = some before ∧ saveRecord w kind before changes expected = .ok after := by
  cases kind with
  | lead =>
    obtain ⟨before, hfind, h⟩ := bind_eq_ok.mp h
    obtain ⟨-, -, h⟩ := bind_eq_ok.mp h
    exact ⟨before, getScoped_ok w hfind, h⟩
  | contact =>
    obtain ⟨-, -, h⟩ := bind_eq_ok.mp h
    obtain ⟨before, hfind, h⟩ := bind_eq_ok.mp h
    obtain ⟨-, -, h⟩ := bind_eq_ok.mp h
    exact ⟨before, getScoped_ok w hfind, h⟩
  | deal =>
    obtain ⟨before, hfind, h⟩ := bind_eq_ok.mp h
    obtain ⟨-, -, h⟩ := bind_eq_ok.mp h
    obtain ⟨-, -, h⟩ := bind_eq_ok.mp h
    exact ⟨before, getScoped_ok w hfind, h⟩

theorem applyUpdate_ok {kind : RecordKind} {inputs entity : Entries} {result : Uuid × Record}
    (h : applyUpdate w kind inputs entity = .ok result) :
    ∃ changes before, changeSet kind inputs = .ok changes ∧ w.find kind result.1 = some before ∧
      Saved w kind before changes result.2 := by
  unfold applyUpdate at h
  obtain ⟨payload, hpayload, h⟩ := bind_eq_ok.mp h
  obtain ⟨id, -, h⟩ := bind_eq_ok.mp h
  obtain ⟨after, hupdate, h⟩ := bind_eq_ok.mp h
  rw [pure_eq_ok] at h
  subst h
  obtain ⟨before, hbefore, hsave⟩ := update_ok w hupdate
  refine ⟨changesOf payload kind.identityKey, before, ?_, hbefore, saveRecord_ok w (nodup_changesOf _ _) hsave⟩
  unfold changeSet
  cases hof : payloadOf inputs with
  | error e =>
    rw [hof] at hpayload
    cases hpayload
  | ok p =>
    rw [hof] at hpayload
    cases hpayload
    rfl

/-! ## The field policy -/

/-- The columns outside the API schema are as before; the version goes up by one and the actor is the principal. -/
structure WithinPolicy (kind : RecordKind) (before after : Record) : Prop where
  kept : ∀ column ∈ kind.columns, column ∉ kind.exposed → column ∉ ["version", "updated_by", "updated_at"] →
    after column = before column
  version : bumped (before "version") = .ok (after "version")
  actor : after "updated_by" = .uuid w.userId

/-- A change set in which a column outside the API schema stands with `None` or with the value it has. -/
def Harmless (kind : RecordKind) (before : Record) (changes : Entries) : Prop :=
  ∀ key value, changes.lookup key = some value → key ∈ kind.columns → key ∉ kind.exposed →
    key ∉ ["updated_by", "updated_at"] →
      value = .null ∨ value = before key ∨ key = "version" ∧ bumped value = bumped (before "version")

theorem exposed_of_nullable {kind : RecordKind} {key : String} (h : kind.nullable.contains key = true) :
    key ∈ kind.exposed := by
  rw [List.contains_iff_mem] at h
  cases kind with
  | lead => cases h
  | contact =>
    rw [List.mem_singleton.mp h]
    decide
  | deal =>
    rcases List.mem_cons.mp h with rfl | h
    · decide
    · rw [List.mem_singleton.mp h]
      decide

/-- Outside the API schema a value is set unless it is `None`. -/
theorem written_of_some {kind : RecordKind} {row : Record} {changes : Entries} {key : String} {value : Value}
    (hkey : key ∉ kind.exposed) (hlookup : changes.lookup key = some value) :
    written kind row changes key = if value.isNull then row key else value := by
  have hnullable : kind.nullable.contains key = false := by
    rw [← Bool.not_eq_true]
    exact fun h => hkey (exposed_of_nullable h)
  rw [written, hlookup]
  dsimp only
  rw [hnullable, Bool.false_or]
  cases value.isNull <;> rfl

theorem eq_null_of_isNull {value : Value} (h : value.isNull = true) : value = .null := by
  cases value with
  | null => rfl
  | _ => cases h

/-- A harmless change set leaves a column outside the API schema as it is. -/
theorem Harmless.written {kind : RecordKind} {before : Record} {changes : Entries} (h : Harmless kind before changes)
    {key : String} (hcolumn : key ∈ kind.columns) (hkey : key ∉ kind.exposed)
    (hbook : key ∉ ["updated_by", "updated_at"]) :
    written kind before changes key = before key ∨
      key = "version" ∧ bumped (written kind before changes key) = bumped (before "version") := by
  cases hlookup : changes.lookup key with
  | none => exact Or.inl (by rw [Workflows.written, hlookup])
  | some value =>
    rw [written_of_some hkey hlookup]
    rcases h key value hlookup hcolumn hkey hbook with rfl | rfl | ⟨rfl, hversion⟩
    · exact Or.inl rfl
    · exact Or.inl (ite_self _)
    · cases hnull : value.isNull with
      | true => exact Or.inl rfl
      | false => exact Or.inr ⟨rfl, hversion⟩

theorem version_not_exposed (kind : RecordKind) :
    "version" ∈ kind.columns ∧ "version" ∉ kind.exposed ∧ "version" ∉ ["updated_by", "updated_at"] := by
  cases kind with
  | lead => decide
  | contact => decide
  | deal => decide

theorem withinPolicy_iff {kind : RecordKind} {before after : Record} {changes : Entries}
    (hsaved : Saved w kind before changes after) :
    WithinPolicy w kind before after ↔ Harmless kind before changes := by
  constructor
  · intro h key value hlookup hcolumn hkey hbook
    cases hnull : value.isNull with
    | true => exact Or.inl (eq_null_of_isNull hnull)
    | false =>
      have hwritten : written kind before changes key = value := by
        rw [written_of_some hkey hlookup, hnull]
        rfl
      by_cases hversion : key = "version"
      · subst hversion
        have hbumped := hsaved.version
        rw [hwritten, ← h.version] at hbumped
        exact Or.inr (Or.inr ⟨rfl, hbumped⟩)
      · rw [List.mem_cons, List.mem_singleton, not_or] at hbook
        have hkept : after key = before key := by
          refine h.kept key hcolumn hkey ?_
          rw [List.mem_cons, List.mem_cons, List.mem_singleton, not_or, not_or]
          exact ⟨hversion, hbook⟩
        rw [hsaved.other key hversion hbook.1 hbook.2, hwritten] at hkept
        exact Or.inr (Or.inl hkept)
  · intro h
    refine ⟨fun column hcolumn hkey hbook => ?_, ?_, hsaved.actor⟩
    · rw [List.mem_cons, not_or] at hbook
      rcases h.written hcolumn hkey hbook.2 with hsame | ⟨hversion, -⟩
      · rw [List.mem_cons, List.mem_singleton, not_or] at hbook
        rw [hsaved.other column hbook.1 hbook.2.1 hbook.2.2, hsame]
      · exact absurd hversion hbook.1
    · obtain ⟨hcolumn, hkey, hbook⟩ := version_not_exposed kind
      rw [← hsaved.version]
      rcases h.written hcolumn hkey hbook with hsame | ⟨-, hbumped⟩
      · rw [hsame]
      · exact hbumped.symm

/-- **When an update action keeps to the field policy of the API.** -/
theorem update_frame_iff {kind : RecordKind} {inputs entity : Entries} {result : Uuid × Record}
    (h : applyUpdate w kind inputs entity = .ok result) :
    ∃ changes before, changeSet kind inputs = .ok changes ∧ w.find kind result.1 = some before ∧
      (WithinPolicy w kind before result.2 ↔ Harmless kind before changes) := by
  obtain ⟨changes, before, hchanges, hbefore, hsaved⟩ := applyUpdate_ok w h
  exact ⟨changes, before, hchanges, hbefore, withinPolicy_iff w hsaved⟩

end World

/-! ## A deal won without a move -/

def openDeal : Record
  | "id" => .uuid (sampleUuid 'd')
  | "tenant_id" => .uuid (sampleUuid 't')
  | "title" => .str "Renewal"
  | "status" => .str "open"
  | "created_at" => .datetime 0
  | "version" => .int 3
  | _ => .null

/-- A workspace with one open deal; the database checks the status of the row. -/
def dealWorld : RecordWorld where
  find kind id := if kind = .deal ∧ id = sampleUuid 'd' then some openDeal else none
  contactVisible _ := false
  accountVisible _ := false
  settable key := key != "is_deleted"
  stores _ row := match row "status" with
    | .str status => ["open", "won", "lost", "abandoned"].contains status
    | _ => false
  uuidOf
    | .uuid id => some id
    | _ => none
  userId := sampleUuid 'u'
  now := 100

/-- The inputs of a `deal.update` with one field besides the deal. -/
def dealInputs (field value : String) : Entries := [("deal_id", .uuid (sampleUuid 'd')), (field, .str value)]

theorem update_frame_iff_title : ∃ result, applyUpdate dealWorld .deal (dealInputs "title" "Upgrade") [] = .ok result ∧
    ∃ changes before, changeSet .deal (dealInputs "title" "Upgrade") = .ok changes ∧
      dealWorld.find .deal result.1 = some before ∧
      (WithinPolicy dealWorld .deal before result.2 ↔ Harmless .deal before changes) :=
  have h := eq_ok_get (show (applyUpdate dealWorld .deal (dealInputs "title" "Upgrade") []).toOption.isSome = true by
    decide +kernel)
  ⟨_, h, update_frame_iff dealWorld h⟩

/-- An update closes the deal: no stage is moved and none of the rules of a move is asked. -/
theorem update_wins_deal : ∃ result before, applyUpdate dealWorld .deal (dealInputs "status" "won") [] = .ok result ∧
    dealWorld.find .deal result.1 = some before ∧ ¬ WithinPolicy dealWorld .deal before result.2 := by
  have h := eq_ok_get (show (applyUpdate dealWorld .deal (dealInputs "status" "won") []).toOption.isSome = true by
    decide +kernel)
  obtain ⟨changes, before, hchanges, hbefore, hsaved⟩ := applyUpdate_ok dealWorld h
  refine ⟨_, before, h, hbefore, fun hpolicy => ?_⟩
  have hrow : before = openDeal := by
    dsimp only [dealWorld] at hbefore
    split_ifs at hbefore
    exact (Option.some.inj hbefore).symm
  have hwon : changes.lookup "status" = some (.str "won") := by
    have hset : changeSet .deal (dealInputs "status" "won") = .ok [("status", .str "won")] := rfl
    rw [hset] at hchanges
    cases hchanges
    rfl
  rcases (withinPolicy_iff dealWorld hsaved).mp hpolicy "status" _ hwon (by decide) (by decide) (by decide) with
    hnull | hsame | ⟨hversion, -⟩
  · cases hnull
  · rw [hrow] at hsame
    have htext : "won" = "open" := Value.str.inj hsame
    exact absurd htext (by decide)
  · exact absurd hversion (by decide)

end RevenueOS.Workflows
