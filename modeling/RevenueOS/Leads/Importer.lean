import RevenueOS.Leads.Importing
import RevenueOS.Lib.Except
import RevenueOS.Lib.Table

/-!
# RevenueOS.Leads.Importer — committing an import

`commit_import` and `_existing_matches` (`application/leads/importer.py`) over the leads and the source events of one
tenant.  A file is what `parse_csv` makes of the content; the ids, the assignees that the assignment rules give, the
id of the batch and the decomposition of texts are parts of a call.

* `matches_isSome_iff`: which values match a live lead.
* `noKnownProspect_iff`: when an import creates no lead for a known prospect.
* `reimport_iff`: when a second import of the same file creates no lead.

Columns that nothing here reads, audit records and the counts of the report are left out.
-/

namespace RevenueOS.Leads

open RevenueOS.Py RevenueOS.Lib RevenueOS.Workflows

/-! ## Tables -/

/-- A row of `lead_source_events`. -/
structure LeadSourceEvent where
  source : String
  sourceIdempotencyKey : String
  leadId : Option Uuid
  outcome : String
  duplicateOfLeadId : Option Uuid

/-- The columns of the constraint `source_idem`. -/
def LeadSourceEvent.key (event : LeadSourceEvent) : String × String := (event.source, event.sourceIdempotencyKey)

/-- The lengths of the columns. -/
def LeadSourceEvent.storable (event : LeadSourceEvent) : Bool :=
  event.source.length ≤ 80 && event.sourceIdempotencyKey.length ≤ 200

structure LeadTables where
  leads : Table Lead.id
  events : Table LeadSourceEvent.key

/-! ## Matches -/

/-- What a duplicate is reported with. -/
structure Match where
  leadId : Uuid
  name : String
  matchedOn : String
  evidence : String
  status : LeadStatus

/-- The name a lead is shown by: its company, else the person. -/
def Lead.display (lead : Lead) : String :=
  let label := ((lead.capture.get "company").or (.str "")).text
  if label = "" then strip (lead.firstName ++ " " ++ lead.lastName.getD "") else label

section Lower

variable (lower : String → String)

/-- The value of a lead's email, if it has one. -/
def Lead.emailValue (lead : Lead) : Option String :=
  match lead.email with
  | some email => if email = "" then none else some (lower email)
  | none => none

/-- The value of a lead's phone, if it has digits. -/
def Lead.phoneValue (lead : Lead) : Option String :=
  match lead.phone with
  | some phone => if phone = "" || normalisePhoneDigits phone = "" then none else some (normalisePhoneDigits phone)
  | none => none

/-- The entry for one value of a lead, when a row wants it. -/
def matchEntry (wanted : List String) (lead : Lead) (value : Option String) (matchedOn evidence : String) :
    List (String × Match) :=
  match value with
  | some v => if wanted.contains v then [(v, ⟨lead.id, lead.display, matchedOn, evidence, lead.status⟩)] else []
  | none => []

/-- The matches one lead gives. -/
def leadMatches (wanted : List String) (lead : Lead) : List (String × Match) :=
  matchEntry wanted lead (lead.emailValue lower) "email" (lower (lead.email.getD "")) ++
    matchEntry wanted lead lead.phoneValue "phone" (lead.phone.getD "")

/-- `matches.setdefault`. -/
def setDefault (found : List (String × Match)) (entry : String × Match) : List (String × Match) :=
  if (found.lookup entry.1).isSome then found else found ++ [entry]

/-- `_existing_matches`. -/
def existingMatches (leads : List Lead) (plan : ImportPlan) : List (String × Match) :=
  let wanted := (plan.accepted.map AcceptedRow.dedupeValue).filter (· ≠ "")
  ((leads.filter Lead.live).flatMap (leadMatches lower wanted)).foldl setDefault []

/-! ## `commit_import` -/

/-- What `parse_csv` returns. -/
structure CsvFile where
  headers : List String
  rows : List Dict

structure ImportCall where
  file : Except LeadError CsvFile
  mapping : Option Mapping
  importKey : String
  defaultSource : String
  batchId : Uuid
  leadIds : ℕ → Uuid
  assignees : ℕ → Option Uuid
  nfkd : String → String

/-- The mapping a call uses. -/
def ImportCall.resolved (c : ImportCall) (file : CsvFile) : Except LeadError Texts :=
  validateMapping (c.mapping.getD (suggestMapping lower file.headers))

/-- What a call judges before it opens its session. -/
def ImportCall.plan (c : ImportCall) : Except LeadError ImportPlan := do
  if strip c.importKey = "" then
    throw (.validation "An import key is required so a retry cannot double-import.")
  let file ← c.file
  let resolved ← c.resolved lower file
  planImport lower file.rows resolved c.defaultSource

/-- `values.get(k) or None`. -/
def orNone (text : String) : Option String := if text = "" then none else some text

/-- The lead of an accepted row. -/
def ImportCall.lead (c : ImportCall) (row : AcceptedRow) : Lead where
  id := c.leadIds row.rowNumber
  firstName := slice (row.values.get "first_name") 120
  lastName := orNone (row.values.get "last_name")
  email := orNone (row.values.get "email")
  phone := orNone (row.values.get "phone")
  source := row.values.get "source"
  sourceChannel := some ((orNone (row.values.get "source_channel")).getD "import")
  capture := Dict.merge row.capture [("import_batch_id", .str c.batchId.text)]
  utm := []
  qualificationScore := none
  category := none
  status := .new
  disqualifyReason := none
  assigneeId := c.assignees row.rowNumber
  branchId := none
  teamId := none
  dedupeKey := rowKey c.nfkd lower (row.values.get "email") (row.values.get "phone") (row.values.get "first_name")
  convertedContactId := none
  mergedIntoId := none
  deletedAt := none
  version := 1

/-- The source event of an accepted row. -/
def ImportCall.rowEvent (c : ImportCall) (found : List (String × Match)) (row : AcceptedRow) : LeadSourceEvent :=
  let source := row.values.get "source"
  let key := c.importKey ++ ":" ++ toString row.rowNumber
  match found.lookup row.dedupeValue with
  | some m => ⟨source, key, none, "duplicate", some m.leadId⟩
  | none => ⟨source, key, some (c.leadIds row.rowNumber), "imported", none⟩

/-- The batch marker, which carries the import key. -/
def ImportCall.marker (c : ImportCall) : LeadSourceEvent := ⟨"csv_import", c.importKey, none, "batch", none⟩

/-- The rows a call creates leads for. -/
def createdRows (plan : ImportPlan) (found : List (String × Match)) : List AcceptedRow :=
  plan.accepted.filter fun row => (found.lookup row.dedupeValue).isNone

/-- The rows a call reports as duplicates, with their matches. -/
def duplicateRows (plan : ImportPlan) (found : List (String × Match)) : List (AcceptedRow × Match) :=
  plan.accepted.filterMap fun row => (found.lookup row.dedupeValue).map fun m => (row, m)

/-- An `INSERT` of leads and events; `none` is a violated constraint. -/
def LeadTables.insert? (tables : LeadTables) (leads : List Lead) (events : List LeadSourceEvent) :
    Option LeadTables := do
  guard (leads.all Lead.storable && events.all LeadSourceEvent.storable)
  let leads ← tables.leads.append? leads
  let events ← tables.events.append? events
  return ⟨leads, events⟩

/-- The writes of a call. -/
def ImportCall.write (c : ImportCall) (tables : LeadTables) (plan : ImportPlan) (found : List (String × Match)) :
    Option LeadTables :=
  tables.insert? ((createdRows plan found).map (c.lead lower)) (plan.accepted.map (c.rowEvent found) ++ [c.marker])

/-- `replay`: the import key is a key of some source event. -/
def replayed (tables : LeadTables) (importKey : String) : Bool :=
  tables.events.rows.any fun event => event.sourceIdempotencyKey == importKey

structure ImportResult where
  created : List AcceptedRow
  duplicates : List (AcceptedRow × Match)
  rejected : List RejectedRow

/-- `commit_import`, undisturbed. -/
def commitImport (tables : LeadTables) (c : ImportCall) : Except LeadError (LeadTables × ImportResult) := do
  let plan ← c.plan lower
  if replayed tables c.importKey then throw (.conflict "That import has already been committed.")
  let found := existingMatches lower tables.leads.rows plan
  match c.write lower tables plan found with
  | none => throw .integrity
  | some tables => return (tables, ⟨createdRows plan found, duplicateRows plan found, plan.rejected⟩)

/-! ## Which values match -/

/-- The value is that of the email or the phone of a live lead. -/
def Matched (leads : List Lead) (value : String) : Prop :=
  ∃ lead ∈ leads, lead.live = true ∧ (lead.emailValue lower = some value ∨ lead.phoneValue = some value)

variable {lower}

theorem lookup_isSome_iff_mem {found : List (String × Match)} {value : String} :
    (found.lookup value).isSome = true ↔ value ∈ found.map Prod.fst := by
  rw [List.lookup_isSome_iff]
  constructor
  · rintro ⟨entry, hentry, hkey⟩
    rw [beq_iff_eq] at hkey
    exact List.mem_map.mpr ⟨entry, hentry, hkey.symm⟩
  · intro h
    obtain ⟨entry, hentry, rfl⟩ := List.mem_map.mp h
    exact ⟨entry, hentry, beq_self_eq_true _⟩

theorem mem_setDefault {found : List (String × Match)} {entry : String × Match} {value : String} :
    value ∈ (setDefault found entry).map Prod.fst ↔ value ∈ found.map Prod.fst ∨ value = entry.1 := by
  unfold setDefault
  split_ifs with h
  · refine ⟨Or.inl, fun hor => hor.elim (fun h => h) ?_⟩
    rintro rfl
    exact lookup_isSome_iff_mem.mp h
  · rw [List.map_append, List.mem_append, List.map_singleton, List.mem_singleton]

theorem mem_foldl_setDefault {value : String} : ∀ {entries found : List (String × Match)},
    value ∈ (entries.foldl setDefault found).map Prod.fst ↔
      value ∈ found.map Prod.fst ∨ value ∈ entries.map Prod.fst
  | [], _ => by simp
  | entry :: entries, found => by
    rw [List.foldl_cons, mem_foldl_setDefault, mem_setDefault, List.map_cons, List.mem_cons, or_assoc]

theorem mem_matchEntry {wanted : List String} {lead : Lead} {found : Option String}
    {matchedOn evidence value : String} :
    value ∈ (matchEntry wanted lead found matchedOn evidence).map Prod.fst ↔ value ∈ wanted ∧ found = some value := by
  unfold matchEntry
  split
  · rename_i v
    split_ifs with h
    · rw [List.map_singleton, List.mem_singleton, Option.some.injEq]
      constructor
      · rintro rfl
        exact ⟨List.contains_iff_mem.mp h, rfl⟩
      · rintro ⟨-, rfl⟩
        rfl
    · refine iff_of_false List.not_mem_nil ?_
      rintro ⟨hmem, heq⟩
      rw [Option.some.inj heq] at h
      exact h (List.contains_iff_mem.mpr hmem)
  · simp

theorem mem_leadMatches {wanted : List String} {lead : Lead} {value : String} :
    value ∈ (leadMatches lower wanted lead).map Prod.fst ↔
      value ∈ wanted ∧ (lead.emailValue lower = some value ∨ lead.phoneValue = some value) := by
  unfold leadMatches
  rw [List.map_append, List.mem_append, mem_matchEntry, mem_matchEntry, ← and_or_left]

/-- **The values with a match** are the values of the live leads. -/
theorem matches_isSome_iff {leads : List Lead} {plan : ImportPlan} {row : AcceptedRow} (hrow : row ∈ plan.accepted)
    (hvalue : row.dedupeValue ≠ "") :
    ((existingMatches lower leads plan).lookup row.dedupeValue).isSome = true ↔
      Matched lower leads row.dedupeValue := by
  have hwanted : row.dedupeValue ∈ (plan.accepted.map AcceptedRow.dedupeValue).filter (· ≠ "") :=
    List.mem_filter.mpr ⟨List.mem_map.mpr ⟨row, hrow, rfl⟩, decide_eq_true hvalue⟩
  unfold existingMatches
  rw [lookup_isSome_iff_mem, mem_foldl_setDefault, List.map_flatMap, List.mem_flatMap]
  constructor
  · rintro (hnil | ⟨lead, hlead, hmem⟩)
    · exact absurd hnil List.not_mem_nil
    · obtain ⟨hin, hlive⟩ := List.mem_filter.mp hlead
      exact ⟨lead, hin, hlive, (mem_leadMatches.mp hmem).2⟩
  · rintro ⟨lead, hin, hlive, hknown⟩
    exact Or.inr ⟨lead, List.mem_filter.mpr ⟨hin, hlive⟩, mem_leadMatches.mpr ⟨hwanted, hknown⟩⟩

/-! ## What a committed import did -/

/-- The cell of an accepted row under the column of a field. -/
def CsvFile.cell (file : CsvFile) (mapping : Texts) (row : AcceptedRow) (field : String) : String :=
  fieldCell mapping (file.rows.getD (row.rowNumber - 2) []) field

/-- What an accepted row is compared by and stores. -/
structure AcceptedContact (lower : String → String) (email phone : String) (row : AcceptedRow) : Prop where
  value_email : email ≠ "" → row.dedupeValue = lower email
  value_at : email ≠ "" → '@' ∈ row.dedupeValue.toList
  value_phone : email = "" → row.dedupeValue = normalisePhoneDigits phone
  phone_ten : phone ≠ "" → 10 ≤ (digitsOf phone).length
  stored_email : row.values.get "email" = if email = "" then "" else lower email
  stored_phone : row.values.get "phone" = slice phone 20
  some_contact : email ≠ "" ∨ phone ≠ ""

theorem acceptedContact {file : CsvFile} {mapping : Texts} {source : String} {row : AcceptedRow}
    (h : row ∈ (planRows lower mapping source file.rows 2 []).accepted) :
    AcceptedContact lower (file.cell mapping row "email") (file.cell mapping row "phone") row := by
  obtain ⟨i, raw, hraw, hnumber, hreasons, hvalues, hvalue⟩ := mem_accepted h
  have hcell : ∀ field, file.cell mapping row field = fieldCell mapping raw field := by
    intro field
    unfold CsvFile.cell
    rw [hnumber, Nat.add_sub_cancel_left, List.getD_eq_getElem?_getD, hraw]
    rfl
  have hcontact := judgeRow_accepted hreasons
  rw [hcell, hcell]
  generalize judgeRow lower mapping source raw = judged at *
  have hempty : fieldCell mapping raw "email" = "" → judged.email = "" := by
    intro h
    rw [hcontact.email_eq, if_pos h]
  have hne : fieldCell mapping raw "email" ≠ "" → judged.email ≠ "" := by
    intro h heq
    have := hcontact.email_at h
    rw [heq] at this
    exact absurd this List.not_mem_nil
  refine ⟨fun h => ?_, fun h => ?_, fun h => ?_, hcontact.phone_ten, ?_, ?_, hcontact.some_contact⟩
  · rw [hvalue, JudgedRow.dedupeValue, if_neg (hne h), hcontact.email_eq, if_neg h]
  · rw [hvalue, JudgedRow.dedupeValue, if_neg (hne h)]
    exact hcontact.email_at h
  · rw [hvalue, JudgedRow.dedupeValue, if_pos (hempty h), hcontact.phoneDigits_eq,
      if_neg (hcontact.some_contact.resolve_left (not_not.mpr h))]
  · rw [hvalues, hcontact.stored_email, hcontact.email_eq]
  · rw [hvalues, hcontact.stored_phone]

/-- The plan a call that returned was made by, and what it wrote. -/
structure Import (lower : String → String) (tables : LeadTables) (c : ImportCall) (file : CsvFile) (mapping : Texts)
    (tables' : LeadTables) (result : ImportResult) (plan : ImportPlan) : Prop where
  plan_eq : plan = planRows lower mapping c.defaultSource file.rows 2 []
  created : result.created = createdRows plan (existingMatches lower tables.leads.rows plan)
  duplicates : result.duplicates = duplicateRows plan (existingMatches lower tables.leads.rows plan)
  leads : tables'.leads.rows = tables.leads.rows ++ result.created.map (c.lead lower)

theorem plan_of_ok {c : ImportCall} {file : CsvFile} {mapping : Texts} {plan : ImportPlan} (hfile : c.file = .ok file)
    (hmapping : c.resolved lower file = .ok mapping) (h : c.plan lower = .ok plan) :
    plan = planRows lower mapping c.defaultSource file.rows 2 [] := by
  unfold ImportCall.plan at h
  by_cases hkey : strip c.importKey = ""
  · rw [if_pos hkey] at h
    cases h
  · rw [if_neg hkey, hfile] at h
    simp only [hmapping, bind, Except.bind, planImport] at h
    split_ifs at h
    exact (Except.ok.inj h).symm

theorem append?_of_insert? {tables tables' : LeadTables} {leads : List Lead} {events : List LeadSourceEvent}
    (h : tables.insert? leads events = some tables') :
    tables.leads.append? leads = some tables'.leads ∧ tables.events.append? events = some tables'.events := by
  unfold LeadTables.insert? at h
  obtain ⟨-, -, h⟩ := Option.bind_eq_some_iff.mp h
  obtain ⟨leads', hleads, h⟩ := Option.bind_eq_some_iff.mp h
  obtain ⟨events', hevents, h⟩ := Option.bind_eq_some_iff.mp h
  obtain rfl := Option.some.inj h
  exact ⟨hleads, hevents⟩

theorem import_of_commitImport {tables tables' : LeadTables} {c : ImportCall} {result : ImportResult} {file : CsvFile}
    {mapping : Texts} (hfile : c.file = .ok file) (hmapping : c.resolved lower file = .ok mapping)
    (h : commitImport lower tables c = .ok (tables', result)) :
    ∃ plan, Import lower tables c file mapping tables' result plan := by
  unfold commitImport at h
  obtain ⟨plan, hplan, h⟩ := bind_eq_ok.mp h
  by_cases hreplay : replayed tables c.importKey = true
  · rw [if_pos hreplay] at h
    cases h
  · rw [if_neg hreplay] at h
    dsimp only at h
    split at h
    · cases h
    · rename_i written hwrite
      obtain ⟨rfl, rfl⟩ := Prod.mk.inj (Except.ok.inj h)
      exact ⟨plan, plan_of_ok hfile hmapping hplan, rfl, rfl, Table.rows_append? (append?_of_insert? hwrite).1⟩

/-! ## Known prospects -/

variable (lower) in
/-- The email is the lead's, but for its case. -/
def Lead.SameEmail (lead : Lead) (email : String) : Prop :=
  email ≠ "" ∧ ∃ own, lead.email = some own ∧ own ≠ "" ∧ lower own = lower email

/-- The phone has the last ten digits of the lead's. -/
def Lead.SamePhone (lead : Lead) (phone : String) : Prop :=
  10 ≤ (digitsOf phone).length ∧
    ∃ own, lead.phone = some own ∧ 10 ≤ (digitsOf own).length ∧ normalisePhoneDigits own = normalisePhoneDigits phone

theorem emailValue_eq_some {lead : Lead} {value : String} :
    lead.emailValue lower = some value ↔ ∃ own, lead.email = some own ∧ own ≠ "" ∧ lower own = value := by
  unfold Lead.emailValue
  cases lead.email with
  | none => simp
  | some own => by_cases h : own = "" <;> simp [h]

theorem phoneValue_eq_some {lead : Lead} {value : String} :
    lead.phoneValue = some value ↔
      ∃ own, lead.phone = some own ∧ normalisePhoneDigits own ≠ "" ∧ normalisePhoneDigits own = value := by
  have hempty : normalisePhoneDigits "" = "" := by decide
  unfold Lead.phoneValue
  cases lead.phone with
  | none => simp
  | some own =>
    by_cases h : own = ""
    · simp [h, hempty]
    · by_cases hd : normalisePhoneDigits own = "" <;> simp [h, hd]

theorem samePhone_iff {lead : Lead} {phone : String} (hten : 10 ≤ (digitsOf phone).length) :
    lead.SamePhone phone ↔ lead.phoneValue = some (normalisePhoneDigits phone) := by
  have hlength : (normalisePhoneDigits phone).length = 10 := by
    rw [length_normalisePhoneDigits]
    omega
  rw [phoneValue_eq_some]
  constructor
  · rintro ⟨-, own, hown, -, heq⟩
    refine ⟨own, hown, fun hnil => ?_, heq⟩
    rw [← heq, hnil] at hlength
    cases hlength
  · rintro ⟨own, hown, -, heq⟩
    refine ⟨hten, own, hown, ?_, heq⟩
    rw [← heq, length_normalisePhoneDigits] at hlength
    omega

/-- The value of a phone is not that of an email. -/
theorem at_not_mem_phoneValue {lead : Lead} {value : String} (h : lead.phoneValue = some value) :
    '@' ∉ value.toList := by
  obtain ⟨own, -, -, rfl⟩ := phoneValue_eq_some.mp h
  intro hat
  have := digits_normalisePhoneDigits hat
  exact absurd this (by decide)

/-- A row with an email matches by it, one without by its phone. -/
theorem matched_iff {leads : List Lead} {email phone : String} {row : AcceptedRow}
    (h : AcceptedContact lower email phone row) :
    Matched lower leads row.dedupeValue ↔
      (email ≠ "" ∧ ∃ lead ∈ leads, lead.live = true ∧ lead.SameEmail lower email) ∨
        (email = "" ∧ ∃ lead ∈ leads, lead.live = true ∧
          (lead.emailValue lower = some row.dedupeValue ∨ lead.SamePhone phone)) := by
  by_cases hemail : email = ""
  · have hphone := h.some_contact.resolve_left (not_not.mpr hemail)
    have hsame := fun lead : Lead => @samePhone_iff lead phone (h.phone_ten hphone)
    have hvalue := h.value_phone hemail
    simp only [hemail, ne_eq, not_true_eq_false, false_and, true_and, false_or, hsame]
    rw [← hvalue]
    exact Iff.rfl
  · have hvalue := h.value_email hemail
    have hat := h.value_at hemail
    simp only [hemail, ne_eq, not_false_eq_true, true_and, false_and, or_false]
    constructor
    · rintro ⟨lead, hlead, hlive, hown | hown⟩
      · obtain ⟨own, hown, hne, hlower⟩ := emailValue_eq_some.mp hown
        exact ⟨lead, hlead, hlive, hemail, own, hown, hne, hlower.trans hvalue⟩
      · exact absurd hat (at_not_mem_phoneValue hown)
    · rintro ⟨lead, hlead, hlive, -, own, hown, hne, hlower⟩
      exact ⟨lead, hlead, hlive, Or.inl (emailValue_eq_some.mpr ⟨own, hown, hne, hlower.trans hvalue.symm⟩)⟩

theorem dedupeValue_ne_empty {email phone : String} {row : AcceptedRow} (h : AcceptedContact lower email phone row) :
    row.dedupeValue ≠ "" := by
  intro hnil
  by_cases hemail : email = ""
  · have hphone := h.some_contact.resolve_left (not_not.mpr hemail)
    have hlength := length_normalisePhoneDigits phone
    rw [← h.value_phone hemail, hnil] at hlength
    have := h.phone_ten hphone
    change 0 = _ at hlength
    omega
  · have hat := h.value_at hemail
    rw [hnil] at hat
    exact absurd hat List.not_mem_nil

/-- The rows an import creates leads for are the accepted rows without a match. -/
theorem mem_created_iff {tables tables' : LeadTables} {c : ImportCall} {file : CsvFile} {mapping : Texts}
    {result : ImportResult} {plan : ImportPlan} (h : Import lower tables c file mapping tables' result plan)
    {row : AcceptedRow} :
    row ∈ result.created ↔ row ∈ plan.accepted ∧ ¬Matched lower tables.leads.rows row.dedupeValue := by
  rw [h.created, createdRows, List.mem_filter]
  refine and_congr_right fun hrow => ?_
  have hcontact : AcceptedContact lower _ _ row := acceptedContact (h.plan_eq ▸ hrow)
  rw [← matches_isSome_iff hrow (dedupeValue_ne_empty hcontact), Option.isNone_iff_eq_none,
    ← Option.not_isSome_iff_eq_none]

/-- **No lead for a known prospect**: no row a lead was created for has the email or the phone of a live lead. -/
def NoKnownProspect (lower : String → String) (leads : List Lead) (file : CsvFile) (mapping : Texts)
    (created : List AcceptedRow) : Prop :=
  ∀ row ∈ created, ∀ lead ∈ leads, lead.live = true →
    ¬lead.SameEmail lower (file.cell mapping row "email") ∧ ¬lead.SamePhone (file.cell mapping row "phone")

/-- Every accepted row with an email, and with the phone of a live lead, has the email of a live lead too. -/
def EmailsToo (lower : String → String) (leads : List Lead) (file : CsvFile) (mapping : Texts) (source : String) :
    Prop :=
  ∀ row ∈ (planRows lower mapping source file.rows 2 []).accepted, file.cell mapping row "email" ≠ "" →
    (∃ lead ∈ leads, lead.live = true ∧ lead.SamePhone (file.cell mapping row "phone")) →
    ∃ lead ∈ leads, lead.live = true ∧ lead.SameEmail lower (file.cell mapping row "email")

/-- **An import creates no lead for a known prospect exactly if no known phone comes with a new email.** -/
theorem noKnownProspect_iff (lower : String → String) (tables tables' : LeadTables) (c : ImportCall) (file : CsvFile)
    (mapping : Texts) (result : ImportResult) (hfile : c.file = .ok file)
    (hmapping : c.resolved lower file = .ok mapping) (h : commitImport lower tables c = .ok (tables', result)) :
    tables'.leads.rows = tables.leads.rows ++ result.created.map (c.lead lower) ∧
      (NoKnownProspect lower tables.leads.rows file mapping result.created ↔
        EmailsToo lower tables.leads.rows file mapping c.defaultSource) := by
  obtain ⟨plan, himport⟩ := import_of_commitImport hfile hmapping h
  have haccepted : ∀ {row}, row ∈ plan.accepted ↔
      row ∈ (planRows lower mapping c.defaultSource file.rows 2 []).accepted := by
    rw [himport.plan_eq]
  refine ⟨himport.leads, ?_, ?_⟩
  · intro hnone row hrow hemail ⟨lead, hlead, hlive, hphone⟩
    have hcontact := acceptedContact hrow
    by_contra hnew
    have hcreated : row ∈ result.created := by
      rw [mem_created_iff himport, matched_iff hcontact]
      refine ⟨haccepted.mpr hrow, ?_⟩
      rintro (⟨-, hknown⟩ | ⟨hnil, -⟩)
      · exact hnew hknown
      · exact hemail hnil
    exact (hnone row hcreated lead hlead hlive).2 hphone
  · intro htoo row hcreated lead hlead hlive
    obtain ⟨hrow, hunmatched⟩ := (mem_created_iff himport).mp hcreated
    have hcontact := acceptedContact (haccepted.mp hrow)
    rw [matched_iff hcontact, not_or] at hunmatched
    refine ⟨fun hemail => hunmatched.1 ⟨hemail.1, lead, hlead, hlive, hemail⟩, fun hphone => ?_⟩
    by_cases hemail : file.cell mapping row "email" = ""
    · exact hunmatched.2 ⟨hemail, lead, hlead, hlive, Or.inr hphone⟩
    · exact hunmatched.1 ⟨hemail, htoo row (haccepted.mp hrow) hemail ⟨lead, hlead, hlive, hphone⟩⟩

/-- A live lead with a phone. -/
def sampleLead (id : Char) (phone : Option String) : Lead where
  id := sampleUuid id
  firstName := "Asha Stores"
  lastName := none
  email := none
  phone := phone
  source := "walk_in"
  sourceChannel := none
  capture := []
  utm := []
  qualificationScore := none
  category := none
  status := .contacted
  disqualifyReason := none
  assigneeId := none
  branchId := none
  teamId := none
  dedupeKey := none
  convertedContactId := none
  mergedIntoId := none
  deletedAt := none
  version := 1

def sampleTables (phone : Option String) : LeadTables := ⟨⟨[sampleLead '1' phone], by simp⟩, ⟨[], by simp⟩⟩

/-- A file of one business. -/
def sampleFile (phone email : String) : CsvFile :=
  ⟨["Business", "Phone", "Email"], [[("Business", .str "Asha Stores"), ("Phone", .str phone), ("Email", .str email)]]⟩

def sampleMapping : Texts := [("Business", "company"), ("Phone", "phone"), ("Email", "email")]

def sampleCall (importKey phone email : String) (leadId : Char) : ImportCall where
  file := .ok (sampleFile phone email)
  mapping := none
  importKey := importKey
  defaultSource := "csv_import"
  batchId := sampleUuid '7'
  leadIds := fun _ => sampleUuid leadId
  assignees := fun _ => none
  nfkd := id

theorem sampleCall_resolved (importKey phone email : String) (leadId : Char) :
    (sampleCall importKey phone email leadId).resolved Py.lower (sampleFile phone email) = .ok sampleMapping := by
  change validateMapping (suggestMapping Py.lower ["Business", "Phone", "Email"]) = _
  decide +kernel

theorem exists_of_toOption {tables : LeadTables} {c : ImportCall} {numbers : List ℕ}
    (h : (commitImport Py.lower tables c).toOption.map (fun r => r.2.created.map AcceptedRow.rowNumber) =
      some numbers) : ∃ tables' result, commitImport Py.lower tables c = .ok (tables', result) ∧
        result.created.map AcceptedRow.rowNumber = numbers := by
  obtain ⟨⟨tables', result⟩, hok, hnumbers⟩ := Option.map_eq_some_iff.mp h
  exact ⟨tables', result, eq_ok_of_toOption hok, hnumbers⟩

/-- A new phone with a new email is created. -/
theorem noKnownProspect_new_phone : ∃ tables' result,
    commitImport Py.lower (sampleTables none) (sampleCall "june" "09845012201" "new@asha.in" '2') =
        .ok (tables', result) ∧
      result.created.map AcceptedRow.rowNumber = [2] ∧
      NoKnownProspect Py.lower (sampleTables none).leads.rows (sampleFile "09845012201" "new@asha.in") sampleMapping
        result.created := by
  obtain ⟨tables', result, hok, hnumbers⟩ := @exists_of_toOption (sampleTables none)
    (sampleCall "june" "09845012201" "new@asha.in" '2') [2] (by decide +kernel)
  refine ⟨tables', result, hok, hnumbers, ?_⟩
  refine (noKnownProspect_iff Py.lower _ _ _ _ _ _ rfl (sampleCall_resolved _ _ _ _) hok).2.mpr ?_
  rintro row - - ⟨lead, hlead, -, -, own, hown, -⟩
  obtain rfl := List.mem_singleton.mp hlead
  cases hown

/-- The phone of a live lead comes with a new email: a second lead is created. -/
theorem known_phone_created : ∃ tables' result,
    commitImport Py.lower (sampleTables (some "+91 98450 12201"))
        (sampleCall "june" "09845012201" "new@asha.in" '2') = .ok (tables', result) ∧
      ¬NoKnownProspect Py.lower (sampleTables (some "+91 98450 12201")).leads.rows
        (sampleFile "09845012201" "new@asha.in") sampleMapping result.created := by
  obtain ⟨tables', result, hok, hnumbers⟩ := @exists_of_toOption (sampleTables (some "+91 98450 12201"))
    (sampleCall "june" "09845012201" "new@asha.in" '2') [2] (by decide +kernel)
  refine ⟨tables', result, hok, fun hnone => ?_⟩
  obtain ⟨row, hrow, hnumber⟩ := List.mem_map.mp (hnumbers ▸ List.mem_singleton_self 2)
  have hcell : (sampleFile "09845012201" "new@asha.in").cell sampleMapping row "phone" = "09845012201" := by
    unfold CsvFile.cell
    rw [hnumber]
    decide +kernel
  refine (hnone row hrow (sampleLead '1' (some "+91 98450 12201")) (List.mem_singleton_self _) rfl).2 ?_
  rw [hcell]
  exact ⟨by decide +kernel, _, rfl, by decide +kernel, by decide +kernel⟩

/-! ## The same file again -/

theorem matched_or {leads leads' both : List Lead} (hboth : ∀ lead, lead ∈ both ↔ lead ∈ leads ∨ lead ∈ leads')
    {value : String} : Matched lower both value ↔ Matched lower leads value ∨ Matched lower leads' value := by
  unfold Matched
  simp only [hboth, or_and_right, exists_or]

theorem Matched.mono {leads leads' : List Lead} (hsub : ∀ lead ∈ leads, lead ∈ leads') {value : String}
    (h : Matched lower leads value) : Matched lower leads' value := by
  obtain ⟨lead, hlead, hlive, hvalue⟩ := h
  exact ⟨lead, hsub lead hlead, hlive, hvalue⟩

theorem orNone_eq_some {text own : String} : orNone text = some own ↔ text = own ∧ own ≠ "" := by
  unfold orNone
  split_ifs with h
  · subst h
    constructor
    · intro hnone
      cases hnone
    · rintro ⟨rfl, hne⟩
      exact absurd rfl hne
  · rw [Option.some.injEq]
    exact ⟨fun heq => ⟨heq, heq ▸ h⟩, fun heq => heq.1⟩

/-- The email of a lead that was imported is in lower case, so it is found again. -/
theorem emailValue_lead (hlower : ∀ text, lower (lower text) = lower text) {c : ImportCall} {email phone : String}
    {row : AcceptedRow} (h : AcceptedContact lower email phone row) {value : String} :
    (c.lead lower row).emailValue lower = some value ↔ email ≠ "" ∧ value = row.dedupeValue := by
  have hstored : (c.lead lower row).email = orNone (if email = "" then "" else lower email) := by
    rw [← h.stored_email]
    rfl
  rw [emailValue_eq_some]
  by_cases hemail : email = ""
  · simp [hstored, hemail, orNone]
  · have hvalue := h.value_email hemail
    have hne : lower email ≠ "" := by
      rw [← hvalue]
      exact dedupeValue_ne_empty h
    rw [hstored, if_neg hemail]
    simp only [orNone_eq_some]
    constructor
    · rintro ⟨own, ⟨rfl, -⟩, -, rfl⟩
      exact ⟨hemail, by rw [hlower, hvalue]⟩
    · rintro ⟨-, rfl⟩
      exact ⟨lower email, ⟨rfl, hne⟩, hne, by rw [hlower, hvalue]⟩

/-- The phone of a lead that was imported is compared by what twenty characters keep of it. -/
theorem phoneValue_lead {c : ImportCall} {email phone : String} {row : AcceptedRow}
    (h : AcceptedContact lower email phone row) {value : String} (hvalue : value ≠ "") :
    (c.lead lower row).phoneValue = some value ↔ normalisePhoneDigits (slice phone 20) = value := by
  have hempty : normalisePhoneDigits "" = "" := by decide
  have hstored : (c.lead lower row).phone = orNone (slice phone 20) := by
    rw [← h.stored_phone]
    rfl
  rw [phoneValue_eq_some, hstored]
  simp only [orNone_eq_some]
  constructor
  · rintro ⟨own, ⟨rfl, -⟩, -, rfl⟩
    rfl
  · rintro rfl
    refine ⟨_, ⟨rfl, fun hnil => hvalue ?_⟩, hvalue, rfl⟩
    rw [hnil, hempty]

/-- A row without an email matches after the leads of `created` were stored exactly if it did before or one of them
has its digits. -/
theorem matched_append_iff (hlower : ∀ text, lower (lower text) = lower text) {c : ImportCall} {leads : List Lead}
    {created : List AcceptedRow} {email phone : AcceptedRow → String}
    (hcreated : ∀ row ∈ created, AcceptedContact lower (email row) (phone row) row) {row : AcceptedRow}
    (hrow : AcceptedContact lower (email row) (phone row) row) (hemail : email row = "") :
    Matched lower (leads ++ created.map (c.lead lower)) row.dedupeValue ↔
      Matched lower leads row.dedupeValue ∨
        ∃ row' ∈ created, normalisePhoneDigits (slice (phone row') 20) = normalisePhoneDigits (phone row) := by
  have hphone := hrow.value_phone hemail
  have hvalue := dedupeValue_ne_empty hrow
  constructor
  · rintro ⟨lead, hmem, hlive, hknown⟩
    rcases List.mem_append.mp hmem with hold | hnew
    · exact Or.inl ⟨lead, hold, hlive, hknown⟩
    · obtain ⟨row', hrow', rfl⟩ := List.mem_map.mp hnew
      have hcontact := hcreated row' hrow'
      rcases hknown with hown | hown
      · -- the value of a phone is not that of an email
        obtain ⟨hne, heq⟩ := (emailValue_lead hlower hcontact).mp hown
        have hat := hcontact.value_at hne
        rw [← heq, hphone] at hat
        exact absurd (digits_normalisePhoneDigits hat) (by decide)
      · have hdigits := (phoneValue_lead hcontact hvalue).mp hown
        exact Or.inr ⟨row', hrow', hdigits.trans hphone⟩
  · rintro (hold | ⟨row', hrow', heq⟩)
    · exact hold.mono fun lead hlead => List.mem_append_left _ hlead
    · have hown := (phoneValue_lead (c := c) (hcreated row' hrow') hvalue).mpr (heq.trans hphone.symm)
      exact ⟨c.lead lower row', List.mem_append_right _ (List.mem_map_of_mem hrow'), rfl, Or.inr hown⟩

/-- A stored row with an email matches by it. -/
theorem matched_of_created (hlower : ∀ text, lower (lower text) = lower text) {c : ImportCall} {leads : List Lead}
    {created : List AcceptedRow} {row : AcceptedRow} {email phone : String} (hrow : row ∈ created)
    (hcontact : AcceptedContact lower email phone row) (hemail : email ≠ "") :
    Matched lower (leads ++ created.map (c.lead lower)) row.dedupeValue := by
  have hown := (emailValue_lead (c := c) hlower hcontact).mpr ⟨hemail, rfl⟩
  exact ⟨c.lead lower row, List.mem_append_right _ (List.mem_map_of_mem hrow), rfl, Or.inl hown⟩

/-- Every accepted row that only its phone identifies, and that neither the leads of before nor those added since
match, has the last ten digits of a phone the import stored, cut to twenty characters. -/
def PhonesKept (lower : String → String) (leads added : List Lead) (file : CsvFile) (mapping : Texts)
    (source : String) : Prop :=
  ∀ row ∈ (planRows lower mapping source file.rows 2 []).accepted, file.cell mapping row "email" = "" →
    ¬Matched lower leads row.dedupeValue → ¬Matched lower added row.dedupeValue →
    ∃ row' ∈ (planRows lower mapping source file.rows 2 []).accepted, ¬Matched lower leads row'.dedupeValue ∧
      normalisePhoneDigits (slice (file.cell mapping row' "phone") 20) =
        normalisePhoneDigits (file.cell mapping row "phone")

/-- The rows of a file are compared by the same values whatever the default source. -/
theorem forall_dedupeValue {mapping : Texts} {source source' : String} {rows : List Dict} {P : String → Prop} :
    (∀ row ∈ (planRows lower mapping source rows 2 []).accepted, P row.dedupeValue) ↔
      ∀ row ∈ (planRows lower mapping source' rows 2 []).accepted, P row.dedupeValue := by
  have hvalues := @accepted_defaultSource lower mapping source source' rows 2 []
  have hall : ∀ accepted : List AcceptedRow, (∀ row ∈ accepted, P row.dedupeValue) ↔
      ∀ pair ∈ accepted.map (fun row => (row.rowNumber, row.dedupeValue)), P pair.2 := by
    intro accepted
    rw [List.forall_mem_map]
  rw [hall, hall, hvalues]

/-- An import creates no lead exactly if every accepted row matches. -/
theorem created_eq_nil_iff {tables tables' : LeadTables} {c : ImportCall} {file : CsvFile} {mapping : Texts}
    {result : ImportResult} {plan : ImportPlan} (h : Import lower tables c file mapping tables' result plan) :
    result.created = [] ↔ ∀ row ∈ plan.accepted, Matched lower tables.leads.rows row.dedupeValue := by
  rw [List.eq_nil_iff_forall_not_mem]
  constructor
  · intro hnone row hrow
    by_contra hunmatched
    exact hnone row ((mem_created_iff h).mpr ⟨hrow, hunmatched⟩)
  · intro hall row hcreated
    obtain ⟨hrow, hunmatched⟩ := (mem_created_iff h).mp hcreated
    exact hunmatched (hall row hrow)

theorem duplicateRows_of_created {found : List (String × Match)} {plan : ImportPlan}
    (h : createdRows plan found = []) :
    (duplicateRows plan found).map Prod.fst = plan.accepted := by
  have hsome : ∀ row ∈ plan.accepted, ∃ m, found.lookup row.dedupeValue = some m := by
    intro row hrow
    have := (List.filter_eq_nil_iff.mp h) row hrow
    exact Option.isSome_iff_exists.mp (by simpa using this)
  unfold duplicateRows
  rw [List.map_filterMap]
  conv_rhs => rw [← @List.filterMap_some _ plan.accepted]
  refine List.filterMap_congr fun row hrow => ?_
  obtain ⟨m, hm⟩ := hsome row hrow
  rw [hm]
  rfl

/-- What the leads of an import match afterwards, row by row. -/
theorem matched_after_iff (hlower : ∀ text, lower (lower text) = lower text) {tables tables' : LeadTables}
    {c : ImportCall} {file : CsvFile} {mapping : Texts} {result : ImportResult} {plan : ImportPlan}
    (h : Import lower tables c file mapping tables' result plan) {row : AcceptedRow} (hrow : row ∈ plan.accepted) :
    Matched lower tables'.leads.rows row.dedupeValue ↔
      (file.cell mapping row "email" = "" → ¬Matched lower tables.leads.rows row.dedupeValue →
        ∃ row' ∈ plan.accepted, ¬Matched lower tables.leads.rows row'.dedupeValue ∧
          normalisePhoneDigits (slice (file.cell mapping row' "phone") 20) =
            normalisePhoneDigits (file.cell mapping row "phone")) := by
  have hcontact : ∀ row ∈ plan.accepted,
      AcceptedContact lower (file.cell mapping row "email") (file.cell mapping row "phone") row := by
    intro row hrow
    rw [h.plan_eq] at hrow
    exact acceptedContact hrow
  have hcreated : ∀ row ∈ result.created,
      AcceptedContact lower (file.cell mapping row "email") (file.cell mapping row "phone") row :=
    fun row hrow => hcontact row ((mem_created_iff h).mp hrow).1
  rw [h.leads]
  by_cases hemail : file.cell mapping row "email" = ""
  · rw [@matched_append_iff lower hlower c tables.leads.rows result.created (fun row => file.cell mapping row "email")
      (fun row => file.cell mapping row "phone") hcreated row (hcontact row hrow) hemail, imp_iff_right hemail,
      ← or_iff_not_imp_left]
    simp only [mem_created_iff h, and_assoc]
  · refine iff_of_true ?_ fun hnil => absurd hnil hemail
    by_cases hmatched : Matched lower tables.leads.rows row.dedupeValue
    · exact hmatched.mono fun lead hlead => List.mem_append_left _ hlead
    · exact matched_of_created hlower ((mem_created_iff h).mpr ⟨hrow, hmatched⟩) (hcontact row hrow) hemail

/-- **The same file again creates no lead exactly if the stored phones keep the digits they are compared by.**  The
leads of the second import are those the first one left and some that were added since. -/
theorem reimport_iff (lower : String → String) (hlower : ∀ text, lower (lower text) = lower text)
    (tables tables₁ tables₂ tables₃ : LeadTables) (c c₂ : ImportCall) (file : CsvFile) (mapping : Texts)
    (result result₂ : ImportResult) (added : List Lead) (hfile : c.file = .ok file)
    (hmapping : c.resolved lower file = .ok mapping) (hfile₂ : c₂.file = c.file) (hmapping₂ : c₂.mapping = c.mapping)
    (h : commitImport lower tables c = .ok (tables₁, result))
    (hadded : ∀ lead, lead ∈ tables₂.leads.rows ↔ lead ∈ tables₁.leads.rows ∨ lead ∈ added)
    (h₂ : commitImport lower tables₂ c₂ = .ok (tables₃, result₂)) :
    (result₂.created = [] ∧ tables₃.leads.rows = tables₂.leads.rows ∧
        result₂.duplicates.map Prod.fst = (planRows lower mapping c₂.defaultSource file.rows 2 []).accepted) ↔
      PhonesKept lower tables.leads.rows added file mapping c.defaultSource := by
  have hresolved : c₂.resolved lower file = .ok mapping := by
    rw [← hmapping, ImportCall.resolved, ImportCall.resolved, hmapping₂]
  obtain ⟨plan, himport⟩ := import_of_commitImport hfile hmapping h
  obtain ⟨plan₂, himport₂⟩ := import_of_commitImport (hfile₂.trans hfile) hresolved h₂
  have hcreated : result₂.created = [] ↔ PhonesKept lower tables.leads.rows added file mapping c.defaultSource := by
    rw [created_eq_nil_iff himport₂, himport₂.plan_eq,
      @forall_dedupeValue lower mapping c₂.defaultSource c.defaultSource, PhonesKept, ← himport.plan_eq]
    refine forall₂_congr fun row hrow => ?_
    rw [matched_or hadded, matched_after_iff hlower himport hrow]
    constructor
    · rintro (hkept | hnew) hemail hold hadd
      · exact hkept hemail hold
      · exact absurd hnew hadd
    · intro hkept
      by_cases hadd : Matched lower added row.dedupeValue
      · exact Or.inr hadd
      · exact Or.inl fun hemail hold => hkept hemail hold hadd
  rw [← hcreated]
  refine ⟨fun hnone => hnone.1, fun hnone => ⟨hnone, ?_, ?_⟩⟩
  · rw [himport₂.leads, hnone, List.map_nil, List.append_nil]
  · rw [himport₂.duplicates, ← himport₂.plan_eq]
    exact duplicateRows_of_created (himport₂.created ▸ hnone)

/-- Two imports of a file of one business, one after the other. -/
def importTwice (phone : String) : Option (List ℕ × List ℕ) :=
  (commitImport Py.lower (sampleTables none) (sampleCall "june" phone "" '2')).toOption.bind fun first =>
    (commitImport Py.lower first.1 (sampleCall "july" phone "" '3')).toOption.map fun second =>
      (first.2.created.map AcceptedRow.rowNumber, second.2.created.map AcceptedRow.rowNumber)

theorem importTwice_eq_some {phone : String} {numbers numbers₂ : List ℕ}
    (h : importTwice phone = some (numbers, numbers₂)) : ∃ tables₁ result tables₂ result₂,
      commitImport Py.lower (sampleTables none) (sampleCall "june" phone "" '2') = .ok (tables₁, result) ∧
        commitImport Py.lower tables₁ (sampleCall "july" phone "" '3') = .ok (tables₂, result₂) ∧
        result.created.map AcceptedRow.rowNumber = numbers ∧
        result₂.created.map AcceptedRow.rowNumber = numbers₂ := by
  unfold importTwice at h
  obtain ⟨⟨tables₁, result⟩, hfirst, h⟩ := Option.bind_eq_some_iff.mp h
  obtain ⟨⟨tables₂, result₂⟩, hsecond, h⟩ := Option.map_eq_some_iff.mp h
  obtain ⟨hnumbers, hnumbers₂⟩ := Prod.mk.inj h
  exact ⟨tables₁, result, tables₂, result₂, eq_ok_of_toOption hfirst, eq_ok_of_toOption hsecond, hnumbers, hnumbers₂⟩

/-- A number of the usual length keeps its digits: the second import reports the row as a duplicate. -/
theorem reimport_kept : ∃ tables₁ result tables₂ result₂,
    commitImport Py.lower (sampleTables none) (sampleCall "june" "+91 98450 12201" "" '2') = .ok (tables₁, result) ∧
      commitImport Py.lower tables₁ (sampleCall "july" "+91 98450 12201" "" '3') = .ok (tables₂, result₂) ∧
      result.created.map AcceptedRow.rowNumber = [2] ∧ result₂.created = [] := by
  obtain ⟨tables₁, result, tables₂, result₂, hfirst, hsecond, hnumbers, -⟩ :=
    importTwice_eq_some (show importTwice "+91 98450 12201" = some ([2], []) by decide +kernel)
  refine ⟨tables₁, result, tables₂, result₂, hfirst, hsecond, hnumbers, ?_⟩
  have hiff := reimport_iff Py.lower lower_lower (sampleTables none) tables₁ tables₁ tables₂
    (sampleCall "june" "+91 98450 12201" "" '2') (sampleCall "july" "+91 98450 12201" "" '3')
    (sampleFile "+91 98450 12201" "") sampleMapping result result₂ [] rfl (sampleCall_resolved _ _ _ _) rfl rfl hfirst
    (by simp) hsecond
  refine (hiff.mpr ?_).1
  intro row hrow hemail hold hadd
  refine ⟨row, hrow, hold, ?_⟩
  have haccepted : (planRows Py.lower sampleMapping "csv_import" (sampleFile "+91 98450 12201" "").rows 2
      []).accepted.map AcceptedRow.rowNumber = [2] := by decide +kernel
  have hnumber : row.rowNumber = 2 := by
    have hmem : row.rowNumber ∈ [2] := haccepted ▸ List.mem_map_of_mem hrow
    exact List.mem_singleton.mp hmem
  unfold CsvFile.cell
  rw [hnumber]
  decide +kernel

/-- Two numbers in one cell: twenty characters keep other digits, and the second import creates the lead again. -/
theorem reimport_cut : ∃ tables₁ result tables₂ result₂,
    commitImport Py.lower (sampleTables none) (sampleCall "june" "+91 98450 12201 / 98450 99999" "" '2') =
        .ok (tables₁, result) ∧
      commitImport Py.lower tables₁ (sampleCall "july" "+91 98450 12201 / 98450 99999" "" '3') =
        .ok (tables₂, result₂) ∧
      result₂.created.map AcceptedRow.rowNumber = [2] := by
  obtain ⟨tables₁, result, tables₂, result₂, hfirst, hsecond, -, hnumbers₂⟩ :=
    importTwice_eq_some (show importTwice "+91 98450 12201 / 98450 99999" = some ([2], [2]) by decide +kernel)
  exact ⟨tables₁, result, tables₂, result₂, hfirst, hsecond, hnumbers₂⟩

end Lower

end RevenueOS.Leads
