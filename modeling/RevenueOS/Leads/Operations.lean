import RevenueOS.Leads.Importer

/-!
# RevenueOS.Leads.Operations — the operations on leads

`capture`, `update`, `bulk_update` and `convert` of `application/leads/service.py`, `merge_leads`, `disqualify_lead`
and `restore_lead` of `application/leads/lifecycle_ops.py`, first on the rows they load, then on the tables of a
tenant, one call after the other.

A call that raises writes nothing.  The role scope of the caller is a predicate on leads; permissions and
idempotency replays, after which nothing is written, are left out, as are audit records and domain events.  An
update can set every column but the id: the workflow action `lead.update` passes its changes unfiltered.

* `step_rows`: every row after a call is a new lead, a row that was there, or what the call makes of one.
-/

namespace RevenueOS.Leads

open RevenueOS.Py RevenueOS.Lib RevenueOS.Workflows

/-! ## On rows -/

/-- The changes of an update; a value of `None` is skipped. -/
structure LeadChanges where
  firstName : Option String := none
  lastName : Option String := none
  email : Option String := none
  phone : Option String := none
  source : Option String := none
  sourceChannel : Option String := none
  capture : Option Dict := none
  utm : Option Dict := none
  qualificationScore : Option ℤ := none
  category : Option String := none
  status : Option String := none
  disqualifyReason : Option String := none
  assigneeId : Option Uuid := none
  branchId : Option Uuid := none
  teamId : Option Uuid := none
  dedupeKey : Option String := none
  convertedContactId : Option Uuid := none
  mergedIntoId : Option Uuid := none
  deletedAt : Option ℤ := none
  version : Option ℕ := none

/-- The loop of `setattr` in `update`, but for the status. -/
def Lead.setAll (lead : Lead) (changes : LeadChanges) : Lead where
  id := lead.id
  firstName := changes.firstName.getD lead.firstName
  lastName := changes.lastName.or lead.lastName
  email := changes.email.or lead.email
  phone := changes.phone.or lead.phone
  source := changes.source.getD lead.source
  sourceChannel := changes.sourceChannel.or lead.sourceChannel
  capture := changes.capture.getD lead.capture
  utm := changes.utm.getD lead.utm
  qualificationScore := changes.qualificationScore.or lead.qualificationScore
  category := changes.category.or lead.category
  status := lead.status
  disqualifyReason := changes.disqualifyReason.or lead.disqualifyReason
  assigneeId := changes.assigneeId.or lead.assigneeId
  branchId := changes.branchId.or lead.branchId
  teamId := changes.teamId.or lead.teamId
  dedupeKey := changes.dedupeKey.or lead.dedupeKey
  convertedContactId := changes.convertedContactId.or lead.convertedContactId
  mergedIntoId := changes.mergedIntoId.or lead.mergedIntoId
  deletedAt := changes.deletedAt.or lead.deletedAt
  version := changes.version.getD lead.version

/-- `bump_version`. -/
def Lead.bumpVersion (lead : Lead) (expectedVersion : Option ℕ) : Except LeadError Lead :=
  if expectedVersion.all (· = lead.version) then .ok { lead with version := lead.version + 1 }
  else .error (.preconditionFailed "The resource was modified by someone else.")

/-- The status an update asks for, if it is checked; an empty text is not. -/
def LeadChanges.nextStatus (changes : LeadChanges) (current : LeadStatus) : Except LeadError LeadStatus :=
  match changes.status with
  | some text => if text = "" then .ok current else assertTransition current text changes.disqualifyReason
  | none => .ok current

/-- `update`, on the row it loads.  An empty status and values that are too long are refused by the table. -/
def Lead.update (lead : Lead) (changes : LeadChanges) (expectedVersion : Option ℕ) : Except LeadError Lead := do
  let status ← changes.nextStatus lead.status
  let changed ← (lead.setAll changes).bumpVersion expectedVersion
  let changed := { changed with status := status }
  if changes.status = some "" ∨ changed.storable = false then throw .integrity
  return changed

/-- The changes of a bulk update; an assignee of `None` unassigns. -/
structure BulkChanges where
  status : Option String := none
  assigneeId : Option (Option Uuid) := none
  disqualifyReason : Option String := none

/-- The status a bulk update asks for. -/
def BulkChanges.nextStatus (changes : BulkChanges) (current : LeadStatus) : Except LeadError LeadStatus :=
  match changes.status with
  | some text => assertTransition current text changes.disqualifyReason
  | none => .ok current

/-- The body of the loop of `bulk_update`. -/
def Lead.bulkUpdate (lead : Lead) (changes : BulkChanges) : Except LeadError Lead := do
  let status ← changes.nextStatus lead.status
  let assigneeId := changes.assigneeId.getD lead.assigneeId
  if status = lead.status ∧ assigneeId = lead.assigneeId then return lead
  return { lead with status := status, assigneeId := assigneeId, version := lead.version + 1 }

/-- A row of `contacts`: the columns `convert` fills, and `deleted_at`. -/
structure Contact where
  id : Uuid
  firstName : String
  lastName : Option String
  email : Option String
  phone : Option String
  source : String
  customFields : Dict
  assigneeId : Option Uuid
  branchId : Option Uuid
  deletedAt : Option ℤ

/-- `email_or_phone`. -/
def Contact.reachable (contact : Contact) : Bool := contact.email.isSome || contact.phone.isSome

/-- The two rows are one under the primary key, or under `uq_contacts_tenant_email_active`. -/
def Contact.clashes (contact other : Contact) : Bool :=
  contact.id == other.id ||
    contact.email.isSome && contact.email == other.email && contact.deletedAt.isNone && other.deletedAt.isNone

/-- The contact `convert` creates. -/
def Lead.contact (lead : Lead) (contactId : Uuid) : Contact where
  id := contactId
  firstName := lead.firstName
  lastName := lead.lastName
  email := lead.email
  phone := lead.phone
  source := lead.source
  customFields := lead.capture
  assigneeId := lead.assigneeId
  branchId := lead.branchId
  deletedAt := none

/-- `convert`, on the row it loads. -/
def Lead.convert (lead : Lead) (contactId : Uuid) : Except LeadError Lead := do
  let _ ← assertTransition lead.status "converted" none
  return { lead with status := .converted, convertedContactId := some contactId, version := lead.version + 1 }

/-- `disqualify_lead`, on the row it loads; `cleaned` is the reason. -/
def Lead.disqualify (lead : Lead) (cleaned : String) : Except LeadError Lead := do
  let _ ← assertTransition lead.status "disqualified" (some cleaned)
  return { lead with
    status := .disqualified, disqualifyReason := some (slice cleaned 200), version := lead.version + 1 }

/-- `restore_lead`, on the row it loads. -/
def Lead.restore (lead : Lead) : Except LeadError Lead :=
  if lead.status = .converted then
    .error (.conflict "That lead was converted. Work with the contact it became.")
  else if lead.mergedIntoId.isSome then .error (.conflict "That lead was merged into another one.")
  else if lead.status ≠ .disqualified ∧ lead.status ≠ .archived then .error (.conflict "That lead is already open.")
  else .ok { lead with status := .new, disqualifyReason := none, deletedAt := none, version := lead.version + 1 }

/-- `value in (None, "")`. -/
def blank (value : Option String) : Bool := value.getD "" == ""

/-- A `FILLABLE` text: what the survivor lacks is the loser's. -/
def fillText (own other : Option String) : Option String := if blank own && !blank other then other else own

/-- `merge_leads` on the survivor. -/
def Lead.absorb (survivor loser : Lead) : Lead :=
  { survivor with
    lastName := fillText survivor.lastName loser.lastName
    email := fillText survivor.email loser.email
    phone := fillText survivor.phone loser.phone
    sourceChannel := fillText survivor.sourceChannel loser.sourceChannel
    qualificationScore := survivor.qualificationScore.or loser.qualificationScore
    category := fillText survivor.category loser.category
    assigneeId := survivor.assigneeId.or loser.assigneeId
    branchId := survivor.branchId.or loser.branchId
    teamId := survivor.teamId.or loser.teamId
    capture := Dict.merge loser.capture survivor.capture
    utm := Dict.merge loser.utm survivor.utm
    version := survivor.version + 1 }

/-- `merge_leads` on the loser. -/
def Lead.mergeAway (loser : Lead) (survivorId : Uuid) (now : ℤ) : Lead :=
  { loser with
    mergedIntoId := some survivorId, status := .archived, deletedAt := some now, version := loser.version + 1 }

/-- The checks of `merge_leads` on the rows it loads. -/
def mergeChecks (survivor loser : Lead) : Except LeadError Unit :=
  if loser.status = .converted then
    .error (.conflict "That lead was already converted; merging would orphan the contact.")
  else if survivor.mergedIntoId.isSome then
    .error (.conflict "The surviving lead was itself already merged away.")
  else .ok ()

/-! ### What they make of a row -/

/-- A row after an update that moves it to `status`. -/
def Lead.updated (lead : Lead) (changes : LeadChanges) (status : LeadStatus) : Lead :=
  { lead.setAll changes with status := status, version := (lead.setAll changes).version + 1 }

theorem update_eq_ok {lead lead' : Lead} {changes : LeadChanges} {expectedVersion : Option ℕ} :
    lead.update changes expectedVersion = .ok lead' ↔
      ∃ status, changes.nextStatus lead.status = .ok status ∧
        expectedVersion.all (· = (lead.setAll changes).version) = true ∧ changes.status ≠ some "" ∧
        (lead.updated changes status).storable = true ∧ lead' = lead.updated changes status := by
  unfold Lead.update
  rw [bind_eq_ok]
  refine exists_congr fun status => and_congr_right fun _ => ?_
  unfold Lead.bumpVersion
  by_cases hversion : expectedVersion.all (· = (lead.setAll changes).version) = true
  · rw [if_pos hversion]
    change (if changes.status = some "" ∨ (lead.updated changes status).storable = false then
      Except.error LeadError.integrity else Except.ok (lead.updated changes status)) = .ok lead' ↔ _
    split_ifs with hrefused
    · constructor
      · intro h
        cases h
      · rintro ⟨-, hne, hstorable, -⟩
        rcases hrefused with hempty | hlong
        · exact absurd hempty hne
        · rw [hlong] at hstorable
          cases hstorable
    · rw [not_or, Bool.not_eq_false] at hrefused
      rw [Except.ok.injEq, eq_comm]
      exact ⟨fun h => ⟨hversion, hrefused.1, hrefused.2, h⟩, fun h => h.2.2.2⟩
  · rw [if_neg hversion]
    constructor
    · intro h
      cases h
    · rintro ⟨h, -⟩
      exact absurd h hversion

/-- A bulk update writes the status and the assignee, and not the reason. -/
structure BulkUpdated (lead : Lead) (changes : BulkChanges) (lead' : Lead) : Prop where
  status : changes.nextStatus lead.status = .ok lead'.status
  same : lead' = { lead with status := lead'.status, assigneeId := lead'.assigneeId, version := lead'.version }

theorem bulkUpdated_of_ok {lead lead' : Lead} {changes : BulkChanges} (h : lead.bulkUpdate changes = .ok lead') :
    BulkUpdated lead changes lead' := by
  unfold Lead.bulkUpdate at h
  obtain ⟨status, hstatus, h⟩ := bind_eq_ok.mp h
  dsimp only at h
  split_ifs at h with hsame
  · obtain rfl := pure_eq_ok.mp h
    rw [hsame.1] at hstatus
    exact ⟨hstatus, rfl⟩
  · obtain rfl := pure_eq_ok.mp h
    exact ⟨hstatus, rfl⟩

theorem bulkStatus_allowed {changes : BulkChanges} {current status : LeadStatus} {text : String}
    (h : changes.nextStatus current = .ok status) (htext : changes.status = some text) :
    Allowed current text changes.disqualifyReason status := by
  rw [BulkChanges.nextStatus, htext] at h
  exact allowed_of_assertTransition h

/-- A bulk update that moves a row names the status it moves it to. -/
theorem bulkStatus_asked {changes : BulkChanges} {current status : LeadStatus}
    (h : changes.nextStatus current = .ok status) (hne : status ≠ current) :
    changes.status = some status.value := by
  cases htext : changes.status with
  | some text => rw [LeadStatus.eq_value_of_ofText? (bulkStatus_allowed h htext).text]
  | none =>
    rw [BulkChanges.nextStatus, htext] at h
    exact absurd (Except.ok.inj h).symm hne

theorem convert_eq_ok {lead lead' : Lead} {contactId : Uuid} (h : lead.convert contactId = .ok lead') :
    assertTransition lead.status "converted" none = .ok .converted ∧
      lead' = { lead with
        status := .converted, convertedContactId := some contactId, version := lead.version + 1 } := by
  unfold Lead.convert at h
  obtain ⟨status, hstatus, h⟩ := bind_eq_ok.mp h
  have htext := (allowed_of_assertTransition hstatus).text
  obtain rfl := Option.some.inj htext
  exact ⟨hstatus, (pure_eq_ok.mp h).symm⟩

theorem disqualify_eq_ok {lead lead' : Lead} {cleaned : String} (h : lead.disqualify cleaned = .ok lead') :
    assertTransition lead.status "disqualified" (some cleaned) = .ok .disqualified ∧
      lead' = { lead with
        status := .disqualified, disqualifyReason := some (slice cleaned 200), version := lead.version + 1 } := by
  unfold Lead.disqualify at h
  obtain ⟨status, hstatus, h⟩ := bind_eq_ok.mp h
  have htext := (allowed_of_assertTransition hstatus).text
  obtain rfl := Option.some.inj htext
  exact ⟨hstatus, (pure_eq_ok.mp h).symm⟩

theorem restore_eq_ok {lead lead' : Lead} (h : lead.restore = .ok lead') :
    (lead.status = .disqualified ∨ lead.status = .archived) ∧ lead.mergedIntoId = none ∧
      lead' = { lead with
        status := .new, disqualifyReason := none, deletedAt := none, version := lead.version + 1 } := by
  unfold Lead.restore at h
  split_ifs at h with hconverted hmerged hopen
  refine ⟨?_, Option.not_isSome_iff_eq_none.mp hmerged, (Except.ok.inj h).symm⟩
  by_contra hneither
  exact hopen (not_or.mp hneither)

theorem mergeChecks_eq_ok {survivor loser : Lead} :
    mergeChecks survivor loser = .ok () ↔ loser.status ≠ .converted ∧ survivor.mergedIntoId = none := by
  unfold mergeChecks
  split_ifs with hconverted hmerged
  · exact iff_of_false (fun h => by cases h) fun h => h.1 hconverted
  · refine iff_of_false (fun h => by cases h) fun h => ?_
    rw [h.2] at hmerged
    cases hmerged
  · exact iff_of_true rfl ⟨hconverted, Option.not_isSome_iff_eq_none.mp hmerged⟩

/-! ## On the tables -/

/-- The tables of a tenant; a contact is kept with the id of the lead it was created from, if it was from one. -/
structure LeadStore where
  tables : LeadTables
  contacts : List (Option Uuid × Contact)

/-- The payload of `capture`, the id of the lead and the key of its source event; the assignee, branch and team are
those after the defaults of the caller; and what `dedupe_key` makes texts comparable by. -/
structure CaptureCall where
  lower : String → String
  nfkd : String → String
  leadId : Uuid
  idempotencyKey : Option String
  firstName : String
  lastName : Option String
  email : Option String
  phone : Option String
  source : String
  sourceChannel : Option String
  capture : Dict
  utm : Dict
  assigneeId : Option Uuid
  branchId : Option Uuid
  teamId : Option Uuid

/-- The lead `capture` creates. -/
def CaptureCall.lead (c : CaptureCall) : Lead where
  id := c.leadId
  firstName := c.firstName
  lastName := c.lastName
  email := c.email
  phone := c.phone
  source := c.source
  sourceChannel := c.sourceChannel
  capture := c.capture
  utm := c.utm
  qualificationScore := none
  category := none
  status := .new
  disqualifyReason := none
  assigneeId := c.assigneeId
  branchId := c.branchId
  teamId := c.teamId
  dedupeKey := rowKey c.nfkd c.lower c.email c.phone c.firstName
  convertedContactId := none
  mergedIntoId := none
  deletedAt := none
  version := 1

/-- The source event `capture` keeps. -/
def CaptureCall.event (c : CaptureCall) : LeadSourceEvent :=
  ⟨c.source, (c.idempotencyKey.bind orNone).getD c.leadId.text, some c.leadId, "created", none⟩

namespace LeadStore

/-- A row by its id: a live one unless `includeDeleted`, and in the scope of the caller. -/
def load (s : LeadStore) (id : Uuid) (includeDeleted : Bool) (scope : Lead → Bool) (message : String) :
    Except LeadError Lead :=
  match s.tables.leads.find? id with
  | some lead => if (includeDeleted || lead.live) && scope lead then .ok lead else .error (.notFound message)
  | none => .error (.notFound message)

/-- `get_scoped_or_404`. -/
def getScoped (s : LeadStore) (id : Uuid) (scope : Lead → Bool) : Except LeadError Lead :=
  s.load id false scope "Lead not found."

/-- `_load`. -/
def loadAny (s : LeadStore) (id : Uuid) (includeDeleted : Bool) : Except LeadError Lead :=
  s.load id includeDeleted (fun _ => true) "That lead does not exist."

/-- An `UPDATE` of a row. -/
def put (s : LeadStore) (lead : Lead) : LeadStore :=
  { s with tables := { s.tables with leads := s.tables.leads.set lead } }

/-- The constraints of `contacts` admit the row. -/
def admits (s : LeadStore) (contact : Contact) : Bool :=
  contact.reachable && s.contacts.all fun row => !contact.clashes row.2

/-- The leads that contacts were created from. -/
def convertedLeads (s : LeadStore) : List Uuid := s.contacts.filterMap Prod.fst

/-- `LeadService.capture`. -/
def capture (s : LeadStore) (c : CaptureCall) : Except LeadError LeadStore :=
  match s.tables.insert? [c.lead] [c.event] with
  | some tables => .ok { s with tables := tables }
  | none => .error .integrity

/-- `LeadService.update`. -/
def update (s : LeadStore) (scope : Lead → Bool) (id : Uuid) (changes : LeadChanges) (expectedVersion : Option ℕ) :
    Except LeadError LeadStore := do
  let lead ← s.getScoped id scope
  let lead ← lead.update changes expectedVersion
  return s.put lead

/-- The rows a bulk update locks. -/
def selected (scope : Lead → Bool) (ids : List Uuid) (lead : Lead) : Bool :=
  lead.live && scope lead && ids.contains lead.id

/-- A row after a bulk update. -/
def bulkRow (scope : Lead → Bool) (ids : List Uuid) (changes : BulkChanges) (lead : Lead) : Lead :=
  if selected scope ids lead then (lead.bulkUpdate changes).toOption.getD lead else lead

theorem bulkRow_id (scope : Lead → Bool) (ids : List Uuid) (changes : BulkChanges) (lead : Lead) :
    (bulkRow scope ids changes lead).id = lead.id := by
  unfold bulkRow
  split_ifs
  · cases hrow : lead.bulkUpdate changes with
    | error e => rfl
    | ok lead' =>
      have hid := congrArg Lead.id (bulkUpdated_of_ok hrow).same
      exact hid
  · rfl

/-- `LeadService.bulk_update`.  The order of the rows decides only which of several refusals is reported. -/
def bulkUpdate (s : LeadStore) (scope : Lead → Bool) (ids : List Uuid) (changes : BulkChanges) :
    Except LeadError LeadStore := do
  let rows := s.tables.leads.rows.filter (selected scope ids)
  if rows.length ≠ ids.dedup.length then
    throw (.notFound "One or more leads were not found in your access scope.")
  let _ ← rows.mapM (·.bulkUpdate changes)
  return { s with tables := { s.tables with
    leads := s.tables.leads.map (bulkRow scope ids changes) (bulkRow_id scope ids changes) } }

/-- `LeadService.convert`. -/
def convert (s : LeadStore) (scope : Lead → Bool) (id contactId : Uuid) : Except LeadError LeadStore := do
  let lead ← s.getScoped id scope
  let converted ← lead.convert contactId
  if s.admits (lead.contact contactId) = false then throw .integrity
  return { s.put converted with contacts := s.contacts ++ [(some id, lead.contact contactId)] }

/-- `merge_leads`. -/
def merge (s : LeadStore) (survivorId loserId : Uuid) (now : ℤ) : Except LeadError LeadStore := do
  if survivorId = loserId then throw (.validation "A lead cannot be merged into itself.")
  let survivor ← s.loadAny survivorId false
  let loser ← s.loadAny loserId false
  mergeChecks survivor loser
  return (s.put (survivor.absorb loser)).put (loser.mergeAway survivorId now)

/-- `disqualify_lead`. -/
def disqualify (s : LeadStore) (id : Uuid) (reason : String) : Except LeadError LeadStore := do
  if (strip reason).length < 3 then throw (.validation "Give a reason for disqualifying this lead.")
  let lead ← s.loadAny id false
  let lead ← lead.disqualify (strip reason)
  return s.put lead

/-- `restore_lead`. -/
def restore (s : LeadStore) (id : Uuid) : Except LeadError LeadStore := do
  let lead ← s.loadAny id true
  let lead ← lead.restore
  return s.put lead

/-- `commit_import`. -/
def importFile (lower : String → String) (s : LeadStore) (c : ImportCall) : Except LeadError LeadStore := do
  let (tables, _) ← commitImport lower s.tables c
  return { s with tables := tables }

end LeadStore

/-- The calls. -/
inductive LeadOp where
  | capture (call : CaptureCall)
  | update (scope : Lead → Bool) (id : Uuid) (changes : LeadChanges) (expectedVersion : Option ℕ)
  | bulkUpdate (scope : Lead → Bool) (ids : List Uuid) (changes : BulkChanges)
  | convert (scope : Lead → Bool) (id contactId : Uuid)
  | merge (survivorId loserId : Uuid) (now : ℤ)
  | disqualify (id : Uuid) (reason : String)
  | restore (id : Uuid)
  | commitImport (call : ImportCall)

section Lower

variable (lower : String → String)

namespace LeadStore

def run (s : LeadStore) : LeadOp → Except LeadError LeadStore
  | .capture call => s.capture call
  | .update scope id changes expectedVersion => s.update scope id changes expectedVersion
  | .bulkUpdate scope ids changes => s.bulkUpdate scope ids changes
  | .convert scope id contactId => s.convert scope id contactId
  | .merge survivorId loserId now => s.merge survivorId loserId now
  | .disqualify id reason => s.disqualify id reason
  | .restore id => s.restore id
  | .commitImport call => s.importFile lower call

/-- A call that raises is rolled back. -/
def step (s : LeadStore) (op : LeadOp) : LeadStore := (s.run lower op).toOption.getD s

end LeadStore

/-! ## What a call can do to the rows -/

variable {lower}

/-- What the call makes of a row. -/
def LeadOp.Makes : LeadOp → Lead → Lead → Prop
  | .capture _, _, _ => False
  | .update _ _ changes expectedVersion, a, b => a.update changes expectedVersion = .ok b
  | .bulkUpdate _ _ changes, a, b => a.bulkUpdate changes = .ok b
  | .convert _ _ contactId, a, b => a.convert contactId = .ok b
  | .merge survivorId _ now, a, b =>
    (∃ loser, mergeChecks a loser = .ok () ∧ b = a.absorb loser) ∨
      ∃ survivor, mergeChecks survivor a = .ok () ∧ b = a.mergeAway survivorId now
  | .disqualify _ reason, a, b => 3 ≤ (strip reason).length ∧ a.disqualify (strip reason) = .ok b
  | .restore _, a, b => a.restore = .ok b
  | .commitImport _, _, _ => False

/-- A lead as it is created: new, and with an id of its own. -/
structure Created (s : LeadStore) (lead : Lead) : Prop where
  status_new : lead.status = .new
  fresh : lead.id ∉ s.tables.leads.rows.map Lead.id

/-- Every row after is a new lead, a row that was there, or what `R` makes of one. -/
def RowsFrom (R : Lead → Lead → Prop) (s s' : LeadStore) : Prop :=
  ∀ b ∈ s'.tables.leads.rows, Created s b ∨ ∃ a ∈ s.tables.leads.rows, a.id = b.id ∧ (b = a ∨ R a b)

theorem RowsFrom.refl (R : Lead → Lead → Prop) (s : LeadStore) : RowsFrom R s s :=
  fun b hb => Or.inr ⟨b, hb, rfl, Or.inl rfl⟩

/-- The row that has become `b`. -/
theorem RowsFrom.of_id {R : Lead → Lead → Prop} {s s' : LeadStore} (h : RowsFrom R s s') {a b : Lead}
    (ha : a ∈ s.tables.leads.rows) (hb : b ∈ s'.tables.leads.rows) (hid : a.id = b.id) : b = a ∨ R a b := by
  rcases h b hb with hcreated | ⟨a', ha', hid', hfrom⟩
  · exact absurd (List.mem_map.mpr ⟨a, ha, hid⟩) hcreated.fresh
  · rwa [Table.eq_of_key ha' ha (hid'.trans hid.symm)] at hfrom

theorem load_eq_ok {s : LeadStore} {id : Uuid} {includeDeleted : Bool} {scope : Lead → Bool} {message : String}
    {lead : Lead} (h : s.load id includeDeleted scope message = .ok lead) :
    s.tables.leads.find? id = some lead ∧ (includeDeleted || lead.live) = true ∧ scope lead = true := by
  unfold LeadStore.load at h
  split at h
  · rename_i lead' hfind
    split_ifs at h with hok
    obtain rfl := Except.ok.inj h
    exact ⟨hfind, Bool.and_eq_true_iff.mp hok⟩
  · cases h

theorem mem_put {s : LeadStore} {lead b : Lead} (h : b ∈ (s.put lead).tables.leads.rows) :
    b = lead ∨ b ∈ s.tables.leads.rows ∧ b.id ≠ lead.id := by
  have hrows : (s.put lead).tables.leads.rows =
      s.tables.leads.rows.map (fun a => if a.id = lead.id then lead else a) := Table.rows_set _ _
  rw [hrows] at h
  obtain ⟨a, ha, rfl⟩ := List.mem_map.mp h
  split_ifs with hid
  · exact Or.inl rfl
  · exact Or.inr ⟨ha, hid⟩

/-- An `UPDATE` of a row that was loaded. -/
theorem rowsFrom_put {R : Lead → Lead → Prop} {s : LeadStore} {lead lead' : Lead}
    (hfind : s.tables.leads.find? lead.id = some lead) (hid : lead'.id = lead.id) (hr : R lead lead') :
    RowsFrom R s (s.put lead') := by
  intro b hb
  rcases mem_put hb with rfl | ⟨hb, -⟩
  · exact Or.inr ⟨lead, Table.mem_of_find? hfind, hid.symm, Or.inr hr⟩
  · exact Or.inr ⟨b, hb, rfl, Or.inl rfl⟩

/-- An `INSERT` of new leads. -/
theorem rowsFrom_insert {R : Lead → Lead → Prop} {s : LeadStore} {tables : LeadTables} {leads : List Lead}
    {events : List LeadSourceEvent} (h : s.tables.insert? leads events = some tables)
    (hnew : ∀ lead ∈ leads, lead.status = .new) : RowsFrom R s { s with tables := tables } := by
  have hrows := Table.rows_append? (append?_of_insert? h).1
  intro b hb
  change b ∈ tables.leads.rows at hb
  rw [hrows] at hb
  rcases List.mem_append.mp hb with hb | hb
  · exact Or.inr ⟨b, hb, rfl, Or.inl rfl⟩
  · refine Or.inl ⟨hnew b hb, fun htaken => ?_⟩
    have hnone := Table.append?_eq_none hb htaken
    rw [(append?_of_insert? h).1] at hnone
    cases hnone

theorem find?_of_load {s : LeadStore} {id : Uuid} {includeDeleted : Bool} {scope : Lead → Bool} {message : String}
    {lead : Lead} (h : s.load id includeDeleted scope message = .ok lead) :
    s.tables.leads.find? lead.id = some lead := by
  have hfind := (load_eq_ok h).1
  rwa [Table.key_of_find? hfind]

/-- The bulk update is accepted: it finds all its leads and may move each of them. -/
structure BulkAccepted (s : LeadStore) (scope : Lead → Bool) (ids : List Uuid) (changes : BulkChanges) : Prop where
  found : (s.tables.leads.rows.filter (LeadStore.selected scope ids)).length = ids.dedup.length
  allowed : ∀ row ∈ s.tables.leads.rows.filter (LeadStore.selected scope ids),
    Yields (changes.nextStatus row.status) (fun _ => True)

/-- A bulk update that is accepted returns. -/
theorem bulkUpdate_returns {s : LeadStore} {scope : Lead → Bool} {ids : List Uuid} {changes : BulkChanges}
    (h : BulkAccepted s scope ids changes) : ∃ s', s.bulkUpdate scope ids changes = .ok s' := by
  have hrows : Yields ((s.tables.leads.rows.filter (LeadStore.selected scope ids)).mapM (·.bulkUpdate changes))
      (fun _ => True) := by
    refine yields_mapM.mpr fun row hrow => ?_
    obtain ⟨status, hstatus, -⟩ := h.allowed row hrow
    unfold Lead.bulkUpdate
    rw [hstatus]
    dsimp only [bind, Except.bind]
    split_ifs
    · exact ⟨_, rfl, trivial⟩
    · exact ⟨_, rfl, trivial⟩
  obtain ⟨rows, hrows, -⟩ := hrows
  unfold LeadStore.bulkUpdate
  dsimp only
  rw [if_neg (not_not.mpr h.found)]
  exact ⟨_, bind_eq_ok.mpr ⟨rows, hrows, rfl⟩⟩

/-- What a bulk update that returned has checked and written. -/
theorem bulk_of_ok {s s' : LeadStore} {scope : Lead → Bool} {ids : List Uuid} {changes : BulkChanges}
    (h : s.bulkUpdate scope ids changes = .ok s') :
    (s.tables.leads.rows.filter (LeadStore.selected scope ids)).length = ids.dedup.length ∧
      (∀ row ∈ s.tables.leads.rows.filter (LeadStore.selected scope ids),
        Yields (row.bulkUpdate changes) (fun _ => True)) ∧
      s' = { s with tables := { s.tables with
        leads := s.tables.leads.map (LeadStore.bulkRow scope ids changes)
          (LeadStore.bulkRow_id scope ids changes) } } := by
  unfold LeadStore.bulkUpdate at h
  dsimp only at h
  split_ifs at h with hfound
  · cases h
  · obtain ⟨rows, hrows, h⟩ := bind_eq_ok.mp h
    exact ⟨not_not.mp hfound, yields_mapM.mp ⟨rows, hrows, trivial⟩, (pure_eq_ok.mp h).symm⟩

theorem bulkAccepted_of_ok {s s' : LeadStore} {scope : Lead → Bool} {ids : List Uuid} {changes : BulkChanges}
    (h : s.bulkUpdate scope ids changes = .ok s') : BulkAccepted s scope ids changes := by
  obtain ⟨hfound, hrows, -⟩ := bulk_of_ok h
  refine ⟨hfound, fun row hrow => ?_⟩
  obtain ⟨row', hok, -⟩ := hrows row hrow
  exact ⟨_, (bulkUpdated_of_ok hok).status, trivial⟩

/-- Every row after a bulk update was there, or is what the bulk update makes of a row it selected. -/
theorem mem_bulk {s s' : LeadStore} {scope : Lead → Bool} {ids : List Uuid} {changes : BulkChanges}
    (h : s.bulkUpdate scope ids changes = .ok s') {b : Lead} (hb : b ∈ s'.tables.leads.rows) :
    ∃ a ∈ s.tables.leads.rows, a.id = b.id ∧
      (b = a ∨ LeadStore.selected scope ids a = true ∧ a.bulkUpdate changes = .ok b) := by
  obtain ⟨-, hrows, rfl⟩ := bulk_of_ok h
  obtain ⟨a, ha, rfl⟩ := List.mem_map.mp hb
  refine ⟨a, ha, (LeadStore.bulkRow_id _ _ _ a).symm, ?_⟩
  unfold LeadStore.bulkRow
  split_ifs with hselected
  · obtain ⟨b, hok, -⟩ := hrows a (List.mem_filter.mpr ⟨ha, hselected⟩)
    rw [hok]
    exact Or.inr ⟨hselected, rfl⟩
  · exact Or.inl rfl

/-- What a bulk update makes of a row it selected is there afterwards. -/
theorem bulk_mem_of_ok {s s' : LeadStore} {scope : Lead → Bool} {ids : List Uuid} {changes : BulkChanges}
    (h : s.bulkUpdate scope ids changes = .ok s') {row : Lead}
    (hrow : row ∈ s.tables.leads.rows.filter (LeadStore.selected scope ids)) :
    ∃ row' ∈ s'.tables.leads.rows, row.bulkUpdate changes = .ok row' := by
  obtain ⟨-, hrows, rfl⟩ := bulk_of_ok h
  obtain ⟨row', hok, -⟩ := hrows row hrow
  obtain ⟨hmem, hselected⟩ := List.mem_filter.mp hrow
  refine ⟨row', List.mem_map.mpr ⟨row, hmem, ?_⟩, hok⟩
  unfold LeadStore.bulkRow
  rw [if_pos hselected, hok]
  rfl

theorem rowsFrom_merge {s s' : LeadStore} {survivorId loserId : Uuid} {now : ℤ}
    (h : s.merge survivorId loserId now = .ok s') : RowsFrom (LeadOp.merge survivorId loserId now).Makes s s' := by
  unfold LeadStore.merge at h
  split_ifs at h with hsame
  · cases h
  · obtain ⟨survivor, hsurvivor, h⟩ := bind_eq_ok.mp h
    obtain ⟨loser, hloser, h⟩ := bind_eq_ok.mp h
    obtain ⟨_, hchecks, h⟩ := bind_eq_ok.mp h
    obtain rfl := pure_eq_ok.mp h
    intro b hb
    rcases mem_put hb with rfl | ⟨hb, -⟩
    · refine Or.inr ⟨loser, Table.mem_of_find? (load_eq_ok hloser).1, rfl, Or.inr (Or.inr ⟨survivor, hchecks, rfl⟩)⟩
    · rcases mem_put hb with rfl | ⟨hb, -⟩
      · exact Or.inr ⟨survivor, Table.mem_of_find? (load_eq_ok hsurvivor).1, rfl,
          Or.inr (Or.inl ⟨loser, hchecks, rfl⟩)⟩
      · exact Or.inr ⟨b, hb, rfl, Or.inl rfl⟩

theorem rowsFrom_import {R : Lead → Lead → Prop} {s s' : LeadStore} {c : ImportCall}
    (h : s.importFile lower c = .ok s') : RowsFrom R s s' := by
  unfold LeadStore.importFile commitImport at h
  obtain ⟨⟨tables, result⟩, hcommit, h⟩ := bind_eq_ok.mp h
  obtain rfl := pure_eq_ok.mp h
  obtain ⟨plan, -, hcommit⟩ := bind_eq_ok.mp hcommit
  split_ifs at hcommit
  · cases hcommit
  · dsimp only at hcommit
    split at hcommit
    · cases hcommit
    · rename_i written hwrite
      obtain ⟨rfl, -⟩ := Prod.mk.inj (Except.ok.inj hcommit)
      refine rowsFrom_insert hwrite ?_
      rw [List.forall_mem_map]
      exact fun row _ => rfl

/-- **Every row after a call** is a new lead, a row that was there, or what the call makes of one. -/
theorem run_rows {s s' : LeadStore} {op : LeadOp} (h : s.run lower op = .ok s') : RowsFrom op.Makes s s' := by
  cases op with
  | capture call =>
    change s.capture call = .ok s' at h
    unfold LeadStore.capture at h
    split at h
    · rename_i tables hinsert
      obtain rfl := Except.ok.inj h
      refine rowsFrom_insert hinsert ?_
      intro lead hlead
      rw [List.mem_singleton.mp hlead]
      rfl
    · cases h
  | update scope id changes expectedVersion =>
    obtain ⟨lead, hload, h⟩ := bind_eq_ok.mp h
    obtain ⟨lead', hlead', h⟩ := bind_eq_ok.mp h
    obtain rfl := pure_eq_ok.mp h
    obtain ⟨status, -, -, -, -, hupdated⟩ := update_eq_ok.mp hlead'
    exact rowsFrom_put (find?_of_load hload) (by rw [hupdated]; rfl) hlead'
  | bulkUpdate scope ids changes =>
    intro b hb
    obtain ⟨a, ha, hid, hfrom⟩ := mem_bulk h hb
    exact Or.inr ⟨a, ha, hid, hfrom.imp_right And.right⟩
  | convert scope id contactId =>
    obtain ⟨lead, hload, h⟩ := bind_eq_ok.mp h
    obtain ⟨lead', hlead', h⟩ := bind_eq_ok.mp h
    split_ifs at h
    · cases h
    obtain rfl := pure_eq_ok.mp h
    obtain ⟨-, hconverted⟩ := convert_eq_ok hlead'
    have hid : lead'.id = lead.id := by rw [hconverted]
    exact rowsFrom_put (find?_of_load hload) hid hlead'
  | merge survivorId loserId now => exact rowsFrom_merge h
  | disqualify id reason =>
    change s.disqualify id reason = .ok s' at h
    unfold LeadStore.disqualify at h
    split_ifs at h with hshort
    · cases h
    · obtain ⟨lead, hload, h⟩ := bind_eq_ok.mp h
      obtain ⟨lead', hlead', h⟩ := bind_eq_ok.mp h
      obtain rfl := pure_eq_ok.mp h
      obtain ⟨-, hdisqualified⟩ := disqualify_eq_ok hlead'
      have hid : lead'.id = lead.id := by rw [hdisqualified]
      exact rowsFrom_put (find?_of_load hload) hid ⟨Nat.not_lt.mp hshort, hlead'⟩
  | restore id =>
    obtain ⟨lead, hload, h⟩ := bind_eq_ok.mp h
    obtain ⟨lead', hlead', h⟩ := bind_eq_ok.mp h
    obtain rfl := pure_eq_ok.mp h
    obtain ⟨-, -, hrestored⟩ := restore_eq_ok hlead'
    have hid : lead'.id = lead.id := by rw [hrestored]
    exact rowsFrom_put (find?_of_load hload) hid hlead'
  | commitImport call => exact rowsFrom_import h

theorem step_rows (s : LeadStore) (op : LeadOp) : RowsFrom op.Makes s (s.step lower op) := by
  unfold LeadStore.step
  cases h : s.run lower op with
  | error e => exact RowsFrom.refl _ s
  | ok s' => exact run_rows h

end Lower

end RevenueOS.Leads
