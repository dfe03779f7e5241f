import RevenueOS.Lib.Table
import RevenueOS.Messaging.Relay

/-!
# RevenueOS.Crm.Handlers — what the relay does to contacts and accounts

The handlers of `application/crm/handlers.py` over the tables of all tenants.  A handler opens one tenant session
and writes last, so an exception leaves the tables as they were.

The handlers read `resource_id` and `payload` at the top of an event.  `to_outbox_payload` puts them under
`resource` and `data`, where only `queue_file_scan` looks.

* `dispatchCrm_asRead`: what the handlers do with an event in the form they read.
* `dispatchCrm_wire`: what they do with an event in the form it is stored.
* `actsOnOwn_iff`: when the two agree.

Columns no handler reads are left out.
-/

namespace RevenueOS.Crm

open RevenueOS.Py RevenueOS.Lib RevenueOS.Workflows RevenueOS.Messaging

/-! ## Tables -/

structure Contact where
  id : Uuid
  accountId : Option Uuid
  company : Option String
  lastContactAt : Option ℤ
  deleted : Bool
deriving DecidableEq

structure Account where
  id : Uuid
  name : String
  deleted : Bool

structure Activity where
  id : Uuid
  createdAt : ℤ

/-- The rows of one tenant. -/
structure Tables where
  contacts : Table Contact.id
  accounts : Table Account.id
  activities : Table Activity.id

/-- A `scan_file` task with its tenant header. -/
structure ScanTask where
  fileId : String
  tenantId : String

structure Database where
  tables : Uuid → Tables
  scans : List ScanTask

/-- What a tenant session commits. -/
def Database.update (db : Database) (tenantId : Uuid) (f : Tables → Tables) : Database :=
  { db with tables := Function.update db.tables tenantId (f (db.tables tenantId)) }

theorem Database.update_eq_self_iff {db : Database} {tenantId : Uuid} {f : Tables → Tables} :
    db.update tenantId f = db ↔ f (db.tables tenantId) = db.tables tenantId := by
  have htables : db.update tenantId f = db ↔
      Function.update db.tables tenantId (f (db.tables tenantId)) = db.tables := by
    cases db
    simp only [update, mk.injEq, and_true]
  rw [htables, Function.update_eq_self_iff]

/-- `if contact.company`. -/
def hasCompany (contact : Contact) : Bool := contact.company.getD "" != ""

/-- `select(Account.name)` of an account that is not deleted, past `if not name`. -/
def Tables.accountName (t : Tables) (accountId : Uuid) : Option String :=
  match t.accounts.find? accountId with
  | some account => if account.deleted || account.name == "" then none else some account.name
  | none => none

/-! ## What the handlers write -/

/-- The session of `sync_contact_company`. -/
def stampCompany (contactId : Uuid) (t : Tables) : Tables :=
  match t.contacts.find? contactId with
  | none => t
  | some contact =>
    match contact.accountId with
    | none => t
    | some accountId =>
      if hasCompany contact then t
      else
        match t.accountName accountId with
        | none => t
        | some name => { t with contacts := t.contacts.set { contact with company := some name } }

/-- The loop of `propagate_account_rename` on one contact. -/
def renameCompany (accountId : Uuid) (name : String) (contact : Contact) : Contact :=
  if contact.accountId = some accountId ∧ contact.deleted = false ∧ contact.company ≠ some name then
    { contact with company := some name }
  else contact

theorem renameCompany_id (accountId : Uuid) (name : String) (contact : Contact) :
    (renameCompany accountId name contact).id = contact.id := by
  unfold renameCompany
  split_ifs <;> rfl

/-- The session of `propagate_account_rename`. -/
def renameContacts (accountId : Uuid) (t : Tables) : Tables :=
  match t.accountName accountId with
  | none => t
  | some name => { t with contacts := t.contacts.map (renameCompany accountId name) (renameCompany_id accountId name) }

/-- `contact.last_contact_at is not None and contact.last_contact_at >= created_at`. -/
def contactedSince (contact : Contact) (createdAt : ℤ) : Bool :=
  match contact.lastContactAt with
  | some at_ => createdAt ≤ at_
  | none => false

/-- The session of `stamp_last_contact_at`: the id of the contact is parsed once the activity is found. -/
def stampContact (activityId : Uuid) (contactId : String) (t : Tables) : Except PyError Tables :=
  match t.activities.find? activityId with
  | none => .ok t
  | some activity =>
    match uuidOf contactId with
    | none => .error .valueError
    | some contactId =>
      match t.contacts.find? contactId with
      | none => .ok t
      | some contact =>
        if contactedSince contact activity.createdAt then .ok t
        else .ok { t with contacts := t.contacts.set { contact with lastContactAt := some activity.createdAt } }

/-! ## Handlers -/

/-- `_tenant_of`. -/
def tenantOf (event : Dict) : Option Uuid :=
  if (event.get "tenant_id").truthy then uuidOf (event.get "tenant_id").text else none

/-- `sync_contact_company`. -/
def syncContactCompany (event : Dict) (db : Database) : Except PyError Database := do
  if !(← (event.get "event_type").inNames ["contact.created", "contact.updated"]) then return db
  match tenantOf event with
  | none => return db
  | some tenantId =>
    let resourceId := event.get "resource_id"
    if !resourceId.truthy then return db
    match uuidOf resourceId.text with
    | none => throw .valueError
    | some contactId => return db.update tenantId (stampCompany contactId)

/-- `propagate_account_rename`. -/
def propagateAccountRename (event : Dict) (db : Database) : Except PyError Database := do
  if !(event.get "event_type").pyEq (.str "account.updated") then return db
  match tenantOf event with
  | none => return db
  | some tenantId =>
    let resourceId := event.get "resource_id"
    if !resourceId.truthy then return db
    match uuidOf resourceId.text with
    | none => throw .valueError
    | some accountId => return db.update tenantId (renameContacts accountId)

/-- The contact an activity reached, by its id as the payload spells it; `none` where the handler returns. -/
def contactReached (payload : Dict) : Except PyError (Option String) := do
  if !(payload.get "entity_type").pyEq (.str "contact") then return none
  if !(← (payload.get "activity_type").inNames ["call", "email", "meeting", "whatsapp"]) then return none
  let contactId := payload.get "entity_id"
  return if contactId.truthy then some contactId.text else none

/-- `stamp_last_contact_at`. -/
def stampLastContactAt (event : Dict) (db : Database) : Except PyError Database := do
  if !(event.get "event_type").pyEq (.str "activity.logged") then return db
  let payload ← ((event.get "payload").or (.obj [])).asDict
  match ← contactReached payload, tenantOf event with
  | some contactId, some tenantId =>
    match event.lookup "resource_id" with
    | none => throw .keyError
    | some resourceId =>
      match uuidOf resourceId.text with
      | none => throw .valueError
      | some activityId =>
        let tables ← stampContact activityId contactId (db.tables tenantId)
        return db.update tenantId (fun _ => tables)
  | _, _ => return db

/-- `queue_file_scan`. -/
def queueFileScan (event : Dict) (db : Database) : Except PyError Database := do
  let resource ← dictOr (event.get "resource")
  let tenantId := event.get "tenant_id"
  let fileId := resource.get "id"
  if !tenantId.truthy || !fileId.truthy then return db
  return { db with scans := db.scans ++ [⟨fileId.text, tenantId.text⟩] }

def callCrm (event : Dict) : RelayHandler → Database → Except PyError Database
  | .syncContactCompany => syncContactCompany event
  | .propagateAccountRename => propagateAccountRename event
  | .stampLastContactAt => stampLastContactAt event
  | .queueFileScan => queueFileScan event
  | _ => fun db => .ok db

/-- A dispatcher with the CRM handlers only. -/
def crmDispatcher : Dispatcher RelayHandler := registerCrmHandlers ⟨[], [], 100⟩

/-- The loop of `_dispatch_row` over the handlers of an event type. -/
def dispatchCrm (eventType : String) (event : Dict) (db : Database) : Except PyError Database :=
  (crmDispatcher.handlersFor eventType).foldlM (fun db h => callCrm event h db) db

/-! ## The form the handlers read -/

/-- An event with its resource id and payload where the handlers look for them. -/
def asRead (e : DomainEvent) : Dict :=
  [("event_type", .str e.eventType), ("tenant_id", .str e.tenantId.text),
    ("resource_id", .str e.resourceId.text), ("payload", .obj e.payload)]

/-- The event types the CRM tables follow. -/
def crmEventTypes : List String := ["contact.created", "contact.updated", "account.updated", "activity.logged"]

theorem truthy_uuid (a : Uuid) : (Json.str a.text).truthy = true := by
  have hne : a.text ≠ "" := by
    intro h
    have := a.length_eq
    rw [h] at this
    exact absurd this (by decide)
  simpa [Json.truthy] using hne

theorem tenantOf_of_get {event : Dict} {a : Uuid} (h : event.get "tenant_id" = .str a.text) :
    tenantOf event = some a := by
  unfold tenantOf
  rw [h, truthy_uuid, if_pos rfl, Json.text_str, uuidOf_text]

theorem or_obj (d : Dict) : (Json.obj d).or (.obj []) = .obj d := by
  cases d <;> rfl

/-- What the handler of an event type does with the event's own resource id and payload. -/
def act (e : DomainEvent) (t : Tables) : Except PyError Tables :=
  if e.eventType = "account.updated" then .ok (renameContacts e.resourceId t)
  else if e.eventType = "activity.logged" then
    match contactReached e.payload with
    | .error err => .error err
    | .ok none => .ok t
    | .ok (some contactId) => stampContact e.resourceId contactId t
  else .ok (stampCompany e.resourceId t)

/-- A contact with an account and no company carries the name of the account afterwards. -/
theorem stampCompany_carries {t : Tables} {contactId accountId : Uuid} {contact : Contact} {name : String}
    (hcontact : t.contacts.find? contactId = some contact) (haccount : contact.accountId = some accountId)
    (hname : t.accountName accountId = some name) (hcompany : hasCompany contact = false) :
    (stampCompany contactId t).contacts.find? contactId = some { contact with company := some name } := by
  obtain rfl := Table.key_of_find? hcontact
  unfold stampCompany
  simp only [hcontact, haccount, hname, hcompany, Bool.false_eq_true, if_false]
  exact Table.find?_set_self (a := { contact with accountId := some accountId, company := some name }) hcontact

/-- A contact an activity reached was last contacted no earlier than that. -/
theorem stampContact_since {t : Tables} {activityId contactId : Uuid} {activity : Activity} {contact : Contact}
    (hactivity : t.activities.find? activityId = some activity)
    (hcontact : t.contacts.find? contactId = some contact) :
    ∃ t' contact', stampContact activityId contactId.text t = .ok t' ∧
      t'.contacts.find? contactId = some contact' ∧ contactedSince contact' activity.createdAt = true := by
  obtain rfl := Table.key_of_find? hcontact
  unfold stampContact
  simp only [hactivity, uuidOf_text, hcontact]
  split_ifs with hsince
  · exact ⟨t, contact, rfl, hcontact, hsince⟩
  · refine ⟨_, { contact with lastContactAt := some activity.createdAt }, rfl, ?_, ?_⟩
    · exact Table.find?_set_self (a := { contact with lastContactAt := some activity.createdAt }) hcontact
    · simp [contactedSince]

/-- The write of a tenant session that returned. -/
def Database.commit (db : Database) (tenantId : Uuid) (r : Except PyError Tables) : Except PyError Database :=
  r.map fun t => db.update tenantId (fun _ => t)

theorem dispatchCrm_single {eventType : String} {h : RelayHandler}
    (hh : crmDispatcher.handlersFor eventType = [h]) (event : Dict) (db : Database) :
    dispatchCrm eventType event db = callCrm event h db := by
  unfold dispatchCrm
  rw [hh, List.foldlM_cons]
  cases callCrm event h db <;> rfl

theorem syncContactCompany_asRead {e : DomainEvent}
    (h : e.eventType = "contact.created" ∨ e.eventType = "contact.updated") (db : Database) :
    syncContactCompany (asRead e) db = .ok (db.update e.tenantId (stampCompany e.resourceId)) := by
  have htype : ((asRead e).get "event_type").inNames ["contact.created", "contact.updated"] = .ok true := by
    change Json.inNames _ (.str e.eventType) = _
    rcases h with h | h <;> rw [h] <;> rfl
  have htenant : tenantOf (asRead e) = some e.tenantId := tenantOf_of_get rfl
  have hid : (asRead e).get "resource_id" = .str e.resourceId.text := rfl
  unfold syncContactCompany
  simp only [htype, htenant, hid, truthy_uuid, Json.text_str, uuidOf_text]
  rfl

theorem propagateAccountRename_asRead {e : DomainEvent} (h : e.eventType = "account.updated") (db : Database) :
    propagateAccountRename (asRead e) db = .ok (db.update e.tenantId (renameContacts e.resourceId)) := by
  have htype : ((asRead e).get "event_type").pyEq (.str "account.updated") = true := by
    change Json.pyEq (.str e.eventType) _ = _
    rw [h]
    rfl
  have htenant : tenantOf (asRead e) = some e.tenantId := tenantOf_of_get rfl
  have hid : (asRead e).get "resource_id" = .str e.resourceId.text := rfl
  unfold propagateAccountRename
  simp only [htype, htenant, hid, truthy_uuid, Json.text_str, uuidOf_text]
  rfl

theorem stampLastContactAt_asRead {e : DomainEvent} (h : e.eventType = "activity.logged") (db : Database) :
    stampLastContactAt (asRead e) db = db.commit e.tenantId (act e (db.tables e.tenantId)) := by
  have htype : ((asRead e).get "event_type").pyEq (.str "activity.logged") = true := by
    change Json.pyEq (.str e.eventType) _ = _
    rw [h]
    rfl
  have htenant : tenantOf (asRead e) = some e.tenantId := tenantOf_of_get rfl
  have hid : (asRead e).lookup "resource_id" = some (.str e.resourceId.text) := rfl
  have hpayload : (asRead e).get "payload" = .obj e.payload := rfl
  unfold stampLastContactAt act
  simp only [htype, hpayload, or_obj, htenant, hid, Json.text_str, uuidOf_text, h, Json.asDict, bind, Except.bind]
  cases contactReached e.payload with
  | error err => rfl
  | ok reached =>
    cases reached with
    | none => exact congrArg Except.ok (Database.update_eq_self_iff.mpr rfl).symm
    | some contactId =>
      simp only [Database.commit]
      cases stampContact e.resourceId contactId (db.tables e.tenantId) <;> rfl

/-- **The form the handlers read**: each acts on the event's own resource id and payload. -/
theorem dispatchCrm_asRead {e : DomainEvent} (h : e.eventType ∈ crmEventTypes) (db : Database) :
    dispatchCrm e.eventType (asRead e) db = db.commit e.tenantId (act e (db.tables e.tenantId)) := by
  have htypes : (e.eventType = "contact.created" ∨ e.eventType = "contact.updated") ∨
      e.eventType = "account.updated" ∨ e.eventType = "activity.logged" := by
    simpa [crmEventTypes, or_assoc] using h
  rcases htypes with hcontact | haccount | hactivity
  · have hact : act e (db.tables e.tenantId) = .ok (stampCompany e.resourceId (db.tables e.tenantId)) := by
      unfold act
      rcases hcontact with hc | hc <;> rw [hc] <;> rfl
    have hhandlers : crmDispatcher.handlersFor e.eventType = [.syncContactCompany] := by
      rcases hcontact with hc | hc <;> rw [hc] <;> rfl
    rw [dispatchCrm_single hhandlers, callCrm, syncContactCompany_asRead hcontact, hact]
    rfl
  · have hact : act e (db.tables e.tenantId) = .ok (renameContacts e.resourceId (db.tables e.tenantId)) := by
      unfold act
      rw [if_pos haccount]
    have hhandlers : crmDispatcher.handlersFor e.eventType = [.propagateAccountRename] := by
      rw [haccount]
      rfl
    rw [dispatchCrm_single hhandlers, callCrm, propagateAccountRename_asRead haccount, hact]
    rfl
  · have hhandlers : crmDispatcher.handlersFor e.eventType = [.stampLastContactAt] := by
      rw [hactivity]
      rfl
    rw [dispatchCrm_single hhandlers, callCrm, stampLastContactAt_asRead hactivity]

/-! ## The form an event is stored in -/

/-- `sync_contact_company` returns at `resource_id`. -/
theorem syncContactCompany_wire (e : DomainEvent) (db : Database) :
    syncContactCompany e.toOutboxPayload db = .ok db := by
  have htype : e.toOutboxPayload.get "event_type" = .str e.eventType := rfl
  have htenant : tenantOf e.toOutboxPayload = some e.tenantId := tenantOf_of_get rfl
  have hid : e.toOutboxPayload.get "resource_id" = .null := rfl
  unfold syncContactCompany
  simp only [htype, htenant, hid, Json.inNames]
  cases ["contact.created", "contact.updated"].contains e.eventType <;> rfl

/-- So does `propagate_account_rename`. -/
theorem propagateAccountRename_wire (e : DomainEvent) (db : Database) :
    propagateAccountRename e.toOutboxPayload db = .ok db := by
  have hid : e.toOutboxPayload.get "resource_id" = .null := rfl
  have htenant : tenantOf e.toOutboxPayload = some e.tenantId := tenantOf_of_get rfl
  unfold propagateAccountRename
  simp only [htenant, hid]
  cases (e.toOutboxPayload.get "event_type").pyEq (.str "account.updated") <;> rfl

/-- `stamp_last_contact_at` finds an empty payload, which names no contact. -/
theorem stampLastContactAt_wire (e : DomainEvent) (db : Database) :
    stampLastContactAt e.toOutboxPayload db = .ok db := by
  have hpayload : e.toOutboxPayload.get "payload" = .null := rfl
  unfold stampLastContactAt
  simp only [hpayload]
  cases (e.toOutboxPayload.get "event_type").pyEq (.str "activity.logged") <;> rfl

/-- `queue_file_scan` looks where the encoder writes. -/
theorem queueFileScan_wire (e : DomainEvent) (db : Database) :
    queueFileScan e.toOutboxPayload db =
      .ok { db with scans := db.scans ++ [⟨e.resourceId.text, e.tenantId.text⟩] } := by
  have htenant : e.toOutboxPayload.get "tenant_id" = .str e.tenantId.text := rfl
  have hfile : Dict.get [("type", .str e.resourceType), ("id", .str e.resourceId.text)] "id" =
    .str e.resourceId.text := rfl
  unfold queueFileScan
  rw [toOutboxPayload_resource, dictOr_obj]
  simp only [htenant, hfile, truthy_uuid, bind, Except.bind]
  rfl

/-- **The form an event is stored in**: every handler of the CRM tables returns at once. -/
theorem dispatchCrm_wire {e : DomainEvent} (h : e.eventType ∈ crmEventTypes) (db : Database) :
    dispatchCrm e.eventType e.toOutboxPayload db = .ok db := by
  have htypes : e.eventType = "contact.created" ∨ e.eventType = "contact.updated" ∨
      e.eventType = "account.updated" ∨ e.eventType = "activity.logged" := by
    simpa [crmEventTypes] using h
  rcases htypes with hc | hc | hc | hc
  · rw [dispatchCrm_single (h := .syncContactCompany) (by rw [hc]; rfl)]
    exact syncContactCompany_wire e db
  · rw [dispatchCrm_single (h := .syncContactCompany) (by rw [hc]; rfl)]
    exact syncContactCompany_wire e db
  · rw [dispatchCrm_single (h := .propagateAccountRename) (by rw [hc]; rfl)]
    exact propagateAccountRename_wire e db
  · rw [dispatchCrm_single (h := .stampLastContactAt) (by rw [hc]; rfl)]
    exact stampLastContactAt_wire e db

/-! ## When the two agree -/

/-- The contact has its company, or none to take. -/
def CompanySettled (contactId : Uuid) (t : Tables) : Prop :=
  ∀ contact, t.contacts.find? contactId = some contact → ∀ accountId, contact.accountId = some accountId →
    ∀ name, t.accountName accountId = some name → hasCompany contact = true

/-- The contacts of the account carry its name. -/
def NameSettled (accountId : Uuid) (t : Tables) : Prop :=
  ∀ name, t.accountName accountId = some name →
    ∀ contact ∈ t.contacts.rows, contact.accountId = some accountId → contact.deleted = false →
      contact.company = some name

/-- The activity reached no contact, or one that was reached since. -/
def ContactSettled (activityId : Uuid) (payload : Dict) (t : Tables) : Prop :=
  ∃ reached, contactReached payload = .ok reached ∧
    ∀ contactId, reached = some contactId → ∀ activity, t.activities.find? activityId = some activity →
      ∃ id, uuidOf contactId = some id ∧
        ∀ contact, t.contacts.find? id = some contact → contactedSince contact activity.createdAt = true

/-- The event asks for no change of the tables. -/
def NothingToDo (e : DomainEvent) (t : Tables) : Prop :=
  if e.eventType = "account.updated" then NameSettled e.resourceId t
  else if e.eventType = "activity.logged" then ContactSettled e.resourceId e.payload t
  else CompanySettled e.resourceId t

/-- A write of another row under the same key shows. -/
theorem set_contact_ne {t : Tables} {id : Uuid} {contact contact' : Contact}
    (hfind : t.contacts.find? id = some contact) (hid : contact'.id = contact.id) (hne : contact' ≠ contact) :
    { t with contacts := t.contacts.set contact' } ≠ t := by
  obtain rfl := Table.key_of_find? hfind
  intro h
  have hcontacts : t.contacts.set contact' = t.contacts := congrArg Tables.contacts h
  have hset : (t.contacts.set contact').find? contact'.id = some contact' :=
    Table.find?_set_self (by rw [hid]; exact hfind)
  rw [hcontacts, hid, hfind] at hset
  exact hne (Option.some.inj hset).symm

theorem accountName_ne_empty {t : Tables} {accountId : Uuid} {name : String}
    (h : t.accountName accountId = some name) : name ≠ "" := by
  unfold Tables.accountName at h
  split at h
  · split_ifs at h with hdead
    simp only [Bool.or_eq_true, beq_iff_eq, not_or] at hdead
    exact Option.some.inj h ▸ hdead.2
  · cases h

theorem stampCompany_eq_self_iff {contactId : Uuid} {t : Tables} :
    stampCompany contactId t = t ↔ CompanySettled contactId t := by
  unfold stampCompany CompanySettled
  cases hcontact : t.contacts.find? contactId with
  | none => simp
  | some contact =>
    simp only [Option.some.injEq, forall_eq']
    cases haccount : contact.accountId with
    | none => simp
    | some accountId =>
      simp only [Option.some.injEq, forall_eq']
      cases hname : t.accountName accountId with
      | none => simp
      | some name =>
        simp only [Option.some.injEq, forall_eq']
        cases hcompany : hasCompany contact with
        | true => simp
        | false =>
          -- the name is not empty, and the company is
          have hne : { contact with company := some name } ≠ contact := by
            intro heq
            have hsame : contact.company = some name := by
              rw [← heq]
            rw [hasCompany, hsame] at hcompany
            simp [accountName_ne_empty hname] at hcompany
          rw [haccount] at hne
          exact iff_of_false (set_contact_ne hcontact rfl hne) Bool.false_ne_true

theorem renameCompany_eq_self_iff {accountId : Uuid} {name : String} {contact : Contact} :
    renameCompany accountId name contact = contact ↔
      (contact.accountId = some accountId → contact.deleted = false → contact.company = some name) := by
  unfold renameCompany
  split_ifs with h
  · refine iff_of_false (fun heq => h.2.2 ?_) (fun himp => h.2.2 (himp h.1 h.2.1))
    rw [← heq]
  · refine iff_of_true rfl fun haccount hlive => ?_
    by_contra hne
    exact h ⟨haccount, hlive, hne⟩

theorem renameContacts_eq_self_iff {accountId : Uuid} {t : Tables} :
    renameContacts accountId t = t ↔ NameSettled accountId t := by
  unfold renameContacts NameSettled
  cases hname : t.accountName accountId with
  | none => simp
  | some name =>
    have hcontacts : ∀ contacts, { t with contacts := contacts } = t ↔ contacts = t.contacts := by
      intro contacts
      cases t
      simp only [Tables.mk.injEq, and_true]
    simp only [Option.some.injEq, forall_eq']
    rw [hcontacts, Table.map_eq_self_iff]
    simp only [renameCompany_eq_self_iff]

theorem stampContact_eq_self_iff {activityId : Uuid} {contactId : String} {t : Tables} :
    stampContact activityId contactId t = .ok t ↔
      ∀ activity, t.activities.find? activityId = some activity → ∃ id, uuidOf contactId = some id ∧
        ∀ contact, t.contacts.find? id = some contact → contactedSince contact activity.createdAt = true := by
  unfold stampContact
  cases t.activities.find? activityId with
  | none => simp
  | some activity =>
    simp only [Option.some.injEq, forall_eq']
    cases uuidOf contactId with
    | none => simp
    | some id =>
      simp only [Option.some.injEq, exists_eq_left']
      cases hcontact : t.contacts.find? id with
      | none => simp
      | some contact =>
        simp only [Option.some.injEq, forall_eq']
        cases hsince : contactedSince contact activity.createdAt with
        | true => simp
        | false =>
          have hne : { contact with lastContactAt := some activity.createdAt } ≠ contact := by
            intro heq
            have hsame : contact.lastContactAt = some activity.createdAt := by
              rw [← heq]
            rw [contactedSince, hsame] at hsince
            simp at hsince
          rw [if_neg Bool.false_ne_true, Except.ok.injEq]
          exact iff_of_false (set_contact_ne hcontact rfl hne) Bool.false_ne_true

theorem act_eq_self_iff {e : DomainEvent} {t : Tables} : act e t = .ok t ↔ NothingToDo e t := by
  unfold act NothingToDo
  split_ifs
  · rw [Except.ok.injEq]
    exact renameContacts_eq_self_iff
  · unfold ContactSettled
    cases contactReached e.payload with
    | error err => simp
    | ok reached =>
      cases reached with
      | none => simp
      | some contactId =>
        simp only [Except.ok.injEq, exists_eq_left', Option.some.injEq, forall_eq']
        exact stampContact_eq_self_iff
  · rw [Except.ok.injEq]
    exact stampCompany_eq_self_iff

/-- The handlers treat the stored event as they treat its own resource id and payload. -/
def ActsOnOwn (e : DomainEvent) (db : Database) : Prop :=
  dispatchCrm e.eventType e.toOutboxPayload db = db.commit e.tenantId (act e (db.tables e.tenantId))

theorem actsOnOwn_iff_act {e : DomainEvent} (h : e.eventType ∈ crmEventTypes) {db : Database} :
    ActsOnOwn e db ↔ act e (db.tables e.tenantId) = .ok (db.tables e.tenantId) := by
  unfold ActsOnOwn
  rw [dispatchCrm_wire h]
  cases hact : act e (db.tables e.tenantId) with
  | error err =>
    refine iff_of_false (fun h => ?_) (fun h => ?_)
    · cases h
    · cases h
  | ok t =>
    unfold Database.commit
    simp only [Except.map, Except.ok.injEq]
    rw [eq_comm, Database.update_eq_self_iff]

/-- **Encoder and handlers agree only where there is nothing to do.** -/
theorem actsOnOwn_iff (e : DomainEvent) (h : e.eventType ∈ crmEventTypes) (db : Database) :
    ActsOnOwn e db ↔ NothingToDo e (db.tables e.tenantId) :=
  (actsOnOwn_iff_act h).trans act_eq_self_iff

/-- A contact of an account, with the company and the date given, and a call with it. -/
def sampleTables (company : Option String) (lastContactAt : Option ℤ) : Tables where
  contacts := ⟨[⟨sampleUuid '1', some (sampleUuid '2'), company, lastContactAt, false⟩], List.nodup_singleton _⟩
  accounts := ⟨[⟨sampleUuid '2', "Acme", false⟩], List.nodup_singleton _⟩
  activities := ⟨[⟨sampleUuid '3', 5⟩], List.nodup_singleton _⟩

def sampleDatabase (company : Option String) (lastContactAt : Option ℤ) : Database :=
  ⟨fun _ => sampleTables company lastContactAt, []⟩

def sampleEvent (eventType resourceType : String) (resourceId : Uuid) (payload : Dict) : DomainEvent where
  eventType := eventType
  tenantId := sampleUuid '9'
  resourceType := resourceType
  resourceId := resourceId
  payload := payload
  actorId := none
  actorType := "user"
  correlationId := none
  eventId := sampleUuid '8'
  occurredAt := 6
  timestamp := "2026-01-01T00:00:06+00:00"
  schemaVersion := "1.0"

def callLogged : DomainEvent :=
  sampleEvent "activity.logged" "activity" (sampleUuid '3')
    [("entity_type", .str "contact"), ("activity_type", .str "call"), ("entity_id", .str (sampleUuid '1').text)]

def contactCreated : DomainEvent := sampleEvent "contact.created" "contact" (sampleUuid '1') []

/-- A contact with a company of its own. -/
theorem actsOnOwn_own_company : contactCreated.eventType ∈ crmEventTypes ∧
    ActsOnOwn contactCreated (sampleDatabase (some "Initech") none) := by
  refine ⟨by decide, (actsOnOwn_iff contactCreated (by decide) _).mpr ?_⟩
  change CompanySettled (sampleUuid '1') (sampleTables (some "Initech") none)
  intro contact hcontact accountId _ name _
  have hfind : (sampleTables (some "Initech") none).contacts.find? (sampleUuid '1') =
      some ⟨sampleUuid '1', some (sampleUuid '2'), some "Initech", none, false⟩ := by decide
  obtain rfl := Option.some.inj (hcontact.symm.trans hfind)
  rfl

/-- The stored events of a call with a contact and of its creation: the contact keeps no date and no company. -/
theorem stored_events_do_nothing :
    dispatchCrm callLogged.eventType callLogged.toOutboxPayload (sampleDatabase none none) =
        .ok (sampleDatabase none none) ∧
      dispatchCrm contactCreated.eventType contactCreated.toOutboxPayload (sampleDatabase none none) =
        .ok (sampleDatabase none none) ∧
      ((sampleDatabase none none).tables (sampleUuid '9')).contacts.find? (sampleUuid '1') =
        some ⟨sampleUuid '1', some (sampleUuid '2'), none, none, false⟩ ∧
      ¬ActsOnOwn callLogged (sampleDatabase none none) ∧ ¬ActsOnOwn contactCreated (sampleDatabase none none) := by
  have hcontact : (sampleTables none none).contacts.find? (sampleUuid '1') =
      some ⟨sampleUuid '1', some (sampleUuid '2'), none, none, false⟩ := by decide
  refine ⟨dispatchCrm_wire (by decide) _, dispatchCrm_wire (by decide) _, hcontact, ?_, ?_⟩
  · rw [actsOnOwn_iff_act (by decide)]
    intro hact
    obtain ⟨t', contact', hstamp, hfind, hsince⟩ :=
      @stampContact_since (sampleTables none none) (sampleUuid '3') (sampleUuid '1') ⟨sampleUuid '3', 5⟩ _ rfl
        hcontact
    have hsame : stampContact (sampleUuid '3') (sampleUuid '1').text (sampleTables none none) =
        .ok (sampleTables none none) := hact
    rw [hsame, Except.ok.injEq] at hstamp
    rw [← hstamp, hcontact] at hfind
    obtain rfl := Option.some.inj hfind
    cases hsince
  · rw [actsOnOwn_iff_act (by decide)]
    intro hact
    have hname : (sampleTables none none).accountName (sampleUuid '2') = some "Acme" := by decide
    have hcarries := stampCompany_carries hcontact rfl hname rfl
    have hsame : stampCompany (sampleUuid '1') (sampleTables none none) = sampleTables none none :=
      Except.ok.inj hact
    rw [hsame, hcontact] at hcarries
    cases hcarries

end RevenueOS.Crm
