import RevenueOS.Leads.FormSchemas
import RevenueOS.Leads.Origins
import RevenueOS.Lib.Except
import RevenueOS.Lib.Trace

/-!
# RevenueOS.Leads.FormBuilder — drafts, publication and the public surface of forms

`application/leads/form_builder.py` over the rows of `forms`.  A call reads its row in a transaction that takes no lock
and writes it back at its commit, so a call holds what it loaded, and any number of calls are open at once.  What a
commit writes are the columns whose values it changed from what it loaded; `version_id_col` is off, so nothing notices
that the row was written in between.

* `served_is_saved`: what the public surface serves is a draft of that form that somebody saved, and is valid.
* `archived_offline_iff`: when every archived form is offline.
* `archived_is_final`: an archived form that nobody is writing never changes again.

The serialised answers, the audit records and the log are left out, and of `updated_at` and `created_by` everything.
-/

namespace RevenueOS.Leads

open RevenueOS.Py RevenueOS.Lib RevenueOS.Workflows

/-! ## Origins -/

/-- `validate_origins`, with the details of its error. -/
def checkOrigins (origins : List Json) : Except FormError (List String) :=
  match validateOrigins origins with
  | .ok cleaned => .ok cleaned
  | .error _ =>
    let problems := (origins.map cleanOrigin).filterMap originProblem
    .error ⟨"These origins are not valid.", [("problems", .arr (problems.map .str))]⟩

theorem checkOrigins_ok {origins : List Json} {cleaned : List String} (h : checkOrigins origins = .ok cleaned) :
    ∀ origin ∈ cleaned, originProblem origin = none := by
  unfold checkOrigins at h
  cases hclean : validateOrigins origins with
  | error e =>
    rw [hclean] at h
    cases h
  | ok allowed =>
    rw [hclean] at h
    cases h
    unfold validateOrigins at hclean
    dsimp only at hclean
    split_ifs at hclean
    cases hclean
    exact fun origin hmem => Option.isNone_iff_eq_none.mp (List.mem_filter.mp hmem).2

/-! ## Rows and requests -/

/-- A row of `forms`; `publishedSchema` is `none` for the `{}` of a form that never was published. -/
structure FormRow where
  id : Uuid
  tenantId : Uuid
  name : String
  formType : String
  schemaJson : Dict
  settings : Dict
  source : Option String
  allowedOrigins : List String
  isPublished : Bool
  publishedSchema : Option FormSchema
  publishedAt : Option ℕ
  deletedAt : Option ℕ
  updatedBy : Uuid
  version : ℕ

/-- `FORM_TYPES`. -/
def formTypes : List String := ["embedded", "hosted", "popup"]

/-- `MAX_FORMS_PER_TENANT`. -/
def maxFormsPerTenant : ℕ := 200

inductive BuilderError where
  | conflict (message : String) (details : Dict)
  | invalid (error : FormError)
  | notFound (message : String)
  | preconditionFailed (message : String) (details : Dict)

/-- The arguments of `create_form`. -/
structure NewForm where
  name : String
  formType : String
  schema : Dict
  allowedOrigins : Option (List Json)
  source : Option String
  settings : Option Dict

/-- The arguments of `update_form`; `none` is an argument that was not given. -/
structure FormPatch where
  expectedVersion : Option ℕ
  name : Option String
  schema : Option Dict
  allowedOrigins : Option (List Json)
  settings : Option Dict
  source : Option String

inductive FormRequest where
  | create (id : Uuid) (form : NewForm)
  | update (id : Uuid) (patch : FormPatch)
  | publish (id : Uuid) (now : ℕ)
  | unpublish (id : Uuid)
  | archive (id : Uuid) (now : ℕ)

/-- What a call does to the row it loaded, its schema and origins validated. -/
inductive FormEdit where
  | update (name : Option String) (schema : Option FormSchema) (origins : Option (List String)) (settings : Option Dict)
      (source : Option String)
  | publish (snapshot : FormSchema) (now : ℕ)
  | unpublish
  | archive (now : ℕ)

def FormEdit.apply (actor : Uuid) (row : FormRow) : FormEdit → FormRow
  | .update name schema origins settings source =>
    { row with
      name := (name.map fun n => slice (strip n) 150).getD row.name
      schemaJson := (schema.map FormSchema.toDict).getD row.schemaJson
      allowedOrigins := origins.getD row.allowedOrigins
      settings := settings.getD row.settings
      source := (source.map fun s => textOrNone (slice (strip s) 80)).getD row.source
      updatedBy := actor
      version := row.version + 1 }
  | .publish snapshot now =>
    { row with
      publishedSchema := some snapshot
      schemaJson := snapshot.toDict
      isPublished := true
      publishedAt := some now
      updatedBy := actor
      version := row.version + 1 }
  | .unpublish => { row with isPublished := false, updatedBy := actor, version := row.version + 1 }
  | .archive now =>
    { row with isPublished := false, deletedAt := some now, updatedBy := actor, version := row.version + 1 }

/-! ## Calls -/

/-- `_load`. -/
def loadForm (rows : List FormRow) (tenantId formId : Uuid) : Except BuilderError FormRow :=
  match rows.find? fun row => row.id = formId ∧ row.tenantId = tenantId ∧ row.deletedAt = none with
  | some row => .ok row
  | none => .error (.notFound "That form does not exist.")

/-- `create_form`: the row that is added. -/
def createForm (rows : List FormRow) (tenantId actorId formId : Uuid) (form : NewForm) : Except BuilderError FormRow :=
  if !formTypes.contains form.formType then
    .error (.conflict (Py.reprStr form.formType ++ " is not a form type.") [("allowed", .arr (formTypes.map .str))])
  else
    match validateFormSchema form.schema with
    | .error e => .error (.invalid e)
    | .ok validated =>
      match checkOrigins (form.allowedOrigins.getD []) with
      | .error e => .error (.invalid e)
      | .ok origins =>
        if maxFormsPerTenant ≤ (rows.filter fun row => row.tenantId = tenantId ∧ row.deletedAt = none).length then
          .error (.conflict ("This organisation already has " ++ toString maxFormsPerTenant ++ " forms.")
            [("limit", .int maxFormsPerTenant)])
        else .ok
          { id := formId
            tenantId := tenantId
            name := slice (strip form.name) 150
            formType := form.formType
            schemaJson := validated.toDict
            settings := form.settings.getD []
            source := textOrNone (slice (strip (form.source.getD "")) 80)
            allowedOrigins := origins
            isPublished := false
            publishedSchema := none
            publishedAt := none
            deletedAt := none
            updatedBy := actorId
            version := 1 }

/-- A value that may be absent, validated when it is not. -/
def validated {α β : Type} (validate : α → Except FormError β) : Option α → Except BuilderError (Option β)
  | none => .ok none
  | some value =>
    match validate value with
    | .error e => .error (.invalid e)
    | .ok result => .ok (some result)

/-- `update_form`. -/
def updateForm (rows : List FormRow) (tenantId formId : Uuid) (patch : FormPatch) :
    Except BuilderError (FormRow × FormEdit) := do
  let schema ← validated validateFormSchema patch.schema
  let origins ← validated checkOrigins patch.allowedOrigins
  let row ← loadForm rows tenantId formId
  match patch.expectedVersion with
  | some expected =>
    if row.version ≠ expected then
      .error (.preconditionFailed "This form changed since you loaded it."
        [("expected", .int expected), ("current", .int row.version)])
    else .ok (row, .update patch.name schema origins patch.settings patch.source)
  | none => .ok (row, .update patch.name schema origins patch.settings patch.source)

/-- `publish_form`. -/
def publishForm (rows : List FormRow) (tenantId formId : Uuid) (now : ℕ) : Except BuilderError (FormRow × FormEdit) := do
  let row ← loadForm rows tenantId formId
  match validateFormSchema row.schemaJson with
  | .error e => .error (.invalid e)
  | .ok snapshot => .ok (row, .publish snapshot now)

/-- A call that is open: the row it adds, or the row it loaded and what it does to it. -/
inductive FormCall where
  | insert (row : FormRow)
  | write (loaded : FormRow) (edit : FormEdit) (actor : Uuid)
  | ended

/-- The reading part of a call.  `unpublish_form` has nothing to do for a form that is offline. -/
def openCall (rows : List FormRow) (tenantId actorId : Uuid) : FormRequest → Except BuilderError FormCall
  | .create id form => (createForm rows tenantId actorId id form).map .insert
  | .update id patch => (updateForm rows tenantId id patch).map fun call => .write call.1 call.2 actorId
  | .publish id now => (publishForm rows tenantId id now).map fun call => .write call.1 call.2 actorId
  | .unpublish id =>
    (loadForm rows tenantId id).map fun row => if row.isPublished then .write row .unpublish actorId else .ended
  | .archive id now => (loadForm rows tenantId id).map fun row => .write row (.archive now) actorId

/-! ## Commits -/

/-- A column after an UPDATE, which names it only if its value changed. -/
def written {α : Type} [DecidableEq α] (loaded edited current : α) : α := if loaded = edited then current else edited

/-- A JSON column after it. -/
def writtenDict (loaded edited current : Dict) : Dict :=
  if Json.pyEq (.obj loaded) (.obj edited) then current else edited

/-- The row after the UPDATE of a call that loaded one row and made another of it. -/
def FormRow.write (loaded edited current : FormRow) : FormRow :=
  { id := current.id
    tenantId := current.tenantId
    name := written loaded.name edited.name current.name
    formType := current.formType
    schemaJson := writtenDict loaded.schemaJson edited.schemaJson current.schemaJson
    settings := writtenDict loaded.settings edited.settings current.settings
    source := written loaded.source edited.source current.source
    allowedOrigins := written loaded.allowedOrigins edited.allowedOrigins current.allowedOrigins
    isPublished := written loaded.isPublished edited.isPublished current.isPublished
    publishedSchema := written loaded.publishedSchema edited.publishedSchema current.publishedSchema
    publishedAt := written loaded.publishedAt edited.publishedAt current.publishedAt
    deletedAt := written loaded.deletedAt edited.deletedAt current.deletedAt
    updatedBy := written loaded.updatedBy edited.updatedBy current.updatedBy
    version := written loaded.version edited.version current.version }

/-- The table and the calls that were made. -/
structure Builder where
  rows : List FormRow
  calls : List FormCall

def Builder.empty : Builder := ⟨[], []⟩

/-- The rows after the commit of a call; the primary key refuses an id that is taken. -/
def Builder.commit (b : Builder) : FormCall → List FormRow
  | .insert row => if b.rows.any fun r => r.id = row.id then b.rows else b.rows ++ [row]
  | .write loaded edit actor =>
    b.rows.map fun r => if r.id = loaded.id then loaded.write (edit.apply actor loaded) r else r
  | .ended => b.rows

inductive BuilderStep where
  | call (tenantId actorId : Uuid) (request : FormRequest)
  | commit (k : ℕ)
  | abort (k : ℕ)

def Builder.step (b : Builder) : BuilderStep → Builder
  | .call tenantId actorId request =>
    match openCall b.rows tenantId actorId request with
    | .error _ => b
    | .ok call => { b with calls := b.calls ++ [call] }
  | .commit k =>
    match b.calls[k]? with
    | some call => ⟨b.commit call, b.calls.set k .ended⟩
    | none => b
  | .abort k => { b with calls := b.calls.set k .ended }

/-- What the public surface reads of a row. -/
def FormRow.toForm (row : FormRow) : Form :=
  ⟨row.tenantId, row.isPublished, row.publishedSchema, row.allowedOrigins⟩

/-- The forms as the public surface finds them. -/
def Builder.forms (b : Builder) (id : Uuid) : Option Form := (b.rows.find? fun row => row.id = id).map FormRow.toForm

/-! ## What a step can do -/

theorem loadForm_ok {rows : List FormRow} {tenantId formId : Uuid} {row : FormRow}
    (h : loadForm rows tenantId formId = .ok row) : row ∈ rows ∧ row.id = formId ∧ row.deletedAt = none := by
  unfold loadForm at h
  cases hfind : rows.find? fun row => row.id = formId ∧ row.tenantId = tenantId ∧ row.deletedAt = none with
  | none =>
    rw [hfind] at h
    cases h
  | some found =>
    rw [hfind] at h
    obtain rfl := Except.ok.inj h
    have hmatch := List.find?_some hfind
    rw [decide_eq_true_eq] at hmatch
    exact ⟨List.mem_of_find?_eq_some hfind, hmatch.1, hmatch.2.2⟩

theorem validated_ok {α β : Type} {validate : α → Except FormError β} {given : Option α} {result : Option β}
    (h : validated validate given = .ok result) :
    ∀ value, result = some value → ∃ raw, given = some raw ∧ validate raw = .ok value := by
  intro value hvalue
  unfold validated at h
  cases given with
  | none =>
    cases h
    cases hvalue
  | some raw =>
    dsimp only at h
    cases hraw : validate raw with
    | error e =>
      rw [hraw] at h
      cases h
    | ok made =>
      rw [hraw] at h
      obtain rfl := Except.ok.inj h
      obtain rfl := Option.some.inj hvalue
      exact ⟨raw, rfl, hraw⟩

/-- What a request opens: it read a form that is not archived, or adds one. -/
inductive OpensForm (rows : List FormRow) (actor : Uuid) : FormRequest → FormCall → Prop
  | create {form : NewForm} {schema : FormSchema} {row : FormRow} (hschema : validateFormSchema form.schema = .ok schema)
      (hdraft : row.schemaJson = schema.toDict) (hoffline : row.isPublished = false) (hnever : row.publishedSchema = none)
      (horigins : ∀ origin ∈ row.allowedOrigins, originProblem origin = none) :
      OpensForm rows actor (.create row.id form) (.insert row)
  | update {row : FormRow} {patch : FormPatch} {name : Option String} {schema : Option FormSchema}
      {origins : Option (List String)} {settings : Option Dict} {source : Option String} (hrow : row ∈ rows)
      (hlive : row.deletedAt = none)
      (hschema : ∀ s, schema = some s → ∃ raw, patch.schema = some raw ∧ validateFormSchema raw = .ok s)
      (horigins : ∀ os, origins = some os → ∀ origin ∈ os, originProblem origin = none) :
      OpensForm rows actor (.update row.id patch) (.write row (.update name schema origins settings source) actor)
  | publish {row : FormRow} {snapshot : FormSchema} {now : ℕ} (hrow : row ∈ rows) (hlive : row.deletedAt = none)
      (hvalid : validateFormSchema row.schemaJson = .ok snapshot) :
      OpensForm rows actor (.publish row.id now) (.write row (.publish snapshot now) actor)
  | unpublish {row : FormRow} (hrow : row ∈ rows) (hlive : row.deletedAt = none) :
      OpensForm rows actor (.unpublish row.id) (.write row .unpublish actor)
  | archive {row : FormRow} {now : ℕ} (hrow : row ∈ rows) (hlive : row.deletedAt = none) :
      OpensForm rows actor (.archive row.id now) (.write row (.archive now) actor)
  | nothing {request : FormRequest} : OpensForm rows actor request .ended

theorem opens_create {rows : List FormRow} {tenantId actor id : Uuid} {form : NewForm} {row : FormRow}
    (h : createForm rows tenantId actor id form = .ok row) : OpensForm rows actor (.create id form) (.insert row) := by
  unfold createForm at h
  by_cases htype : (!formTypes.contains form.formType) = true
  · rw [if_pos htype] at h
    cases h
  rw [if_neg htype] at h
  cases hschema : validateFormSchema form.schema with
  | error e =>
    rw [hschema] at h
    cases h
  | ok schema =>
    rw [hschema] at h
    cases horigins : checkOrigins (form.allowedOrigins.getD []) with
    | error e =>
      rw [horigins] at h
      cases h
    | ok origins =>
      rw [horigins] at h
      dsimp only at h
      split_ifs at h
      have hrow := Except.ok.inj h
      have hid : row.id = id := by rw [← hrow]
      rw [← hid]
      refine .create hschema (by rw [← hrow]) (by rw [← hrow]) (by rw [← hrow]) ?_
      rw [← hrow]
      exact checkOrigins_ok horigins

theorem opens_update {rows : List FormRow} {tenantId actor id : Uuid} {patch : FormPatch} {call : FormRow × FormEdit}
    (h : updateForm rows tenantId id patch = .ok call) :
    OpensForm rows actor (.update id patch) (.write call.1 call.2 actor) := by
  unfold updateForm at h
  obtain ⟨schema, hschema, hrest⟩ := bind_eq_ok.mp h
  obtain ⟨origins, horigins, hrest⟩ := bind_eq_ok.mp hrest
  obtain ⟨row, hrow, hmade⟩ := bind_eq_ok.mp hrest
  obtain ⟨hmem, rfl, hlive⟩ := loadForm_ok hrow
  have hcall : call = (row, .update patch.name schema origins patch.settings patch.source) := by
    cases hversion : patch.expectedVersion with
    | none =>
      rw [hversion] at hmade
      exact (Except.ok.inj hmade).symm
    | some expected =>
      rw [hversion] at hmade
      dsimp only at hmade
      split_ifs at hmade
      exact (Except.ok.inj hmade).symm
  rw [hcall]
  refine .update hmem hlive (validated_ok hschema) fun os hos origin horigin => ?_
  obtain ⟨raw, -, hraw⟩ := validated_ok horigins os hos
  exact checkOrigins_ok hraw origin horigin

theorem opens_publish {rows : List FormRow} {tenantId actor id : Uuid} {now : ℕ} {call : FormRow × FormEdit}
    (h : publishForm rows tenantId id now = .ok call) :
    OpensForm rows actor (.publish id now) (.write call.1 call.2 actor) := by
  unfold publishForm at h
  obtain ⟨row, hrow, hmade⟩ := bind_eq_ok.mp h
  obtain ⟨hmem, rfl, hlive⟩ := loadForm_ok hrow
  cases hvalid : validateFormSchema row.schemaJson with
  | error e =>
    rw [hvalid] at hmade
    cases hmade
  | ok snapshot =>
    rw [hvalid] at hmade
    obtain rfl := Except.ok.inj hmade
    exact .publish hmem hlive hvalid

theorem opens_of_openCall {rows : List FormRow} {tenantId actor : Uuid} {request : FormRequest} {call : FormCall}
    (h : openCall rows tenantId actor request = .ok call) : OpensForm rows actor request call := by
  cases request with
  | create id form =>
    obtain ⟨row, hrow, rfl⟩ := map_eq_ok.mp h
    exact opens_create hrow
  | update id patch =>
    obtain ⟨read, hread, rfl⟩ := map_eq_ok.mp h
    exact opens_update hread
  | publish id now =>
    obtain ⟨read, hread, rfl⟩ := map_eq_ok.mp h
    exact opens_publish hread
  | unpublish id =>
    obtain ⟨row, hrow, rfl⟩ := map_eq_ok.mp h
    obtain ⟨hmem, rfl, hlive⟩ := loadForm_ok hrow
    split_ifs
    · exact .unpublish hmem hlive
    · exact .nothing
  | archive id now =>
    obtain ⟨row, hrow, rfl⟩ := map_eq_ok.mp h
    obtain ⟨hmem, rfl, hlive⟩ := loadForm_ok hrow
    exact .archive hmem hlive

/-- A step opens a call, commits one, gives one up, or does nothing. -/
theorem Builder.step_cases (b : Builder) (st : BuilderStep) :
    (∃ tenantId actor request call, st = .call tenantId actor request ∧ OpensForm b.rows actor request call ∧
        b.step st = { b with calls := b.calls ++ [call] }) ∨
      (∃ k call, st = .commit k ∧ b.calls[k]? = some call ∧ b.step st = ⟨b.commit call, b.calls.set k .ended⟩) ∨
      (∃ k, st = .abort k ∧ b.step st = { b with calls := b.calls.set k .ended }) ∨
      b.step st = b ∧ ∀ k, st = .commit k → b.calls[k]? = none := by
  cases st with
  | call tenantId actor request =>
    unfold Builder.step
    dsimp only
    cases hcall : openCall b.rows tenantId actor request with
    | error e => exact .inr (.inr (.inr ⟨rfl, nofun⟩))
    | ok call => exact .inl ⟨tenantId, actor, request, call, rfl, opens_of_openCall hcall, rfl⟩
  | commit k =>
    unfold Builder.step
    dsimp only
    cases hcall : b.calls[k]? with
    | none => exact .inr (.inr (.inr ⟨rfl, fun j hj => by cases hj; exact hcall⟩))
    | some call => exact .inr (.inl ⟨k, call, rfl, hcall, rfl⟩)
  | abort k => exact .inr (.inr (.inl ⟨k, rfl, rfl⟩))

/-! ## Where drafts and snapshots come from -/

/-- A step that asks to store this schema as the draft of a form. -/
def BuilderStep.Saves (id : Uuid) (schema : FormSchema) : BuilderStep → Prop
  | .call _ _ (.create formId form) => formId = id ∧ validateFormSchema form.schema = .ok schema
  | .call _ _ (.update formId patch) => formId = id ∧ ∃ raw, patch.schema = some raw ∧ validateFormSchema raw = .ok schema
  | _ => False

def Saved (steps : List BuilderStep) (id : Uuid) (schema : FormSchema) : Prop := ∃ st ∈ steps, st.Saves id schema

/-- Somebody asked to publish the form while this was its draft, and somebody had saved that. -/
def Released (steps : List BuilderStep) (id : Uuid) (schema : FormSchema) : Prop :=
  ∃ before tenantId actorId now later, steps = before ++ .call tenantId actorId (.publish id now) :: later ∧
    Saved before id schema ∧
      ∃ row ∈ (after Builder.step Builder.empty before).rows,
        row.id = id ∧ row.deletedAt = none ∧ row.schemaJson = schema.toDict

theorem BuilderStep.Saves.accepted {st : BuilderStep} {id : Uuid} {schema : FormSchema} (h : st.Saves id schema) :
    ∃ raw, validateFormSchema raw = .ok schema := by
  cases st with
  | commit k => cases h
  | abort k => cases h
  | call tenantId actorId request =>
    cases request with
    | create formId form => exact ⟨form.schema, h.2⟩
    | update formId patch =>
      obtain ⟨-, raw, -, hraw⟩ := h
      exact ⟨raw, hraw⟩
    | publish formId now => cases h
    | unpublish formId => cases h
    | archive formId now => cases h

theorem Saved.accepted {steps : List BuilderStep} {id : Uuid} {schema : FormSchema} (h : Saved steps id schema) :
    ∃ raw, validateFormSchema raw = .ok schema := by
  obtain ⟨st, -, hst⟩ := h
  exact hst.accepted

theorem Saved.mono {steps : List BuilderStep} {id : Uuid} {schema : FormSchema} (h : Saved steps id schema)
    (later : List BuilderStep) : Saved (steps ++ later) id schema := by
  obtain ⟨st, hst, hsaves⟩ := h
  exact ⟨st, List.mem_append_left _ hst, hsaves⟩

theorem Released.mono {steps : List BuilderStep} {id : Uuid} {schema : FormSchema} (h : Released steps id schema)
    (more : List BuilderStep) : Released (steps ++ more) id schema := by
  obtain ⟨before, tenantId, actorId, now, later, rfl, hsaved, hrow⟩ := h
  refine ⟨before, tenantId, actorId, now, later ++ more, ?_, hsaved, hrow⟩
  rw [List.append_assoc, List.cons_append]

/-- Draft and snapshot of a row are what the steps so far made of them. -/
structure FormRow.Sound (steps : List BuilderStep) (row : FormRow) : Prop where
  draft : ∃ schema, row.schemaJson = schema.toDict ∧ Saved steps row.id schema
  snapshot : ∀ schema, row.publishedSchema = some schema → Released steps row.id schema
  online : row.isPublished = true → row.publishedSchema ≠ none
  origins : ∀ origin ∈ row.allowedOrigins, originProblem origin = none

def FormEdit.Sound (steps : List BuilderStep) (id : Uuid) : FormEdit → Prop
  | .update _ schema origins _ _ => (∀ s, schema = some s → Saved steps id s) ∧
      ∀ os, origins = some os → ∀ origin ∈ os, originProblem origin = none
  | .publish snapshot _ => Released steps id snapshot
  | _ => True

/-- An open call loaded a row that is still there, and a form that was published then has a snapshot now. -/
def FormCall.Sound (steps : List BuilderStep) (rows : List FormRow) : FormCall → Prop
  | .insert row => row.Sound steps
  | .write loaded edit _ => loaded.Sound steps ∧ edit.Sound steps loaded.id ∧ (∃ r ∈ rows, r.id = loaded.id) ∧
      (loaded.publishedSchema ≠ none → ∀ r ∈ rows, r.id = loaded.id → r.publishedSchema ≠ none)
  | .ended => True

structure Builder.Sound (steps : List BuilderStep) (b : Builder) : Prop where
  ids : (b.rows.map FormRow.id).Nodup
  rows : ∀ row ∈ b.rows, row.Sound steps
  calls : ∀ call ∈ b.calls, call.Sound steps b.rows

theorem Released.saved {steps : List BuilderStep} {id : Uuid} {schema : FormSchema} (h : Released steps id schema) :
    Saved steps id schema := by
  obtain ⟨before, tenantId, actorId, now, later, rfl, hsaved, -⟩ := h
  exact hsaved.mono _

theorem FormRow.Sound.mono {steps : List BuilderStep} {row : FormRow} (h : row.Sound steps) (more : List BuilderStep) :
    row.Sound (steps ++ more) := by
  obtain ⟨schema, hdraft, hsaved⟩ := h.draft
  exact ⟨⟨schema, hdraft, hsaved.mono more⟩, fun s hs => (h.snapshot s hs).mono more, h.online, h.origins⟩

theorem FormCall.Sound.mono {steps : List BuilderStep} {rows : List FormRow} {call : FormCall}
    (h : call.Sound steps rows) (more : List BuilderStep) : call.Sound (steps ++ more) rows := by
  cases call with
  | insert row => exact FormRow.Sound.mono h more
  | ended => trivial
  | write loaded edit actor =>
    obtain ⟨hloaded, hedit, hthere, hkept⟩ := h
    refine ⟨hloaded.mono more, ?_, hthere, hkept⟩
    cases edit with
    | update name schema origins settings source => exact ⟨fun s hs => (hedit.1 s hs).mono more, hedit.2⟩
    | publish snapshot now => exact Released.mono hedit more
    | unpublish => trivial
    | archive now => trivial

theorem written_cases {α : Type} [DecidableEq α] (loaded edited current : α) :
    written loaded edited current = current ∨ written loaded edited current = edited := by
  unfold written
  split_ifs
  · exact .inl rfl
  · exact .inr rfl

theorem writtenDict_cases (loaded edited current : Dict) :
    writtenDict loaded edited current = current ∨ writtenDict loaded edited current = edited := by
  unfold writtenDict
  split_ifs
  · exact .inl rfl
  · exact .inr rfl

theorem written_of_ne {α : Type} [DecidableEq α] {loaded edited current : α} (h : loaded ≠ edited) :
    written loaded edited current = edited := if_neg h

@[simp] theorem written_same {α : Type} [DecidableEq α] (loaded current : α) : written loaded loaded current = current :=
  if_pos rfl

section Applied

variable {steps : List BuilderStep} {loaded : FormRow} {edit : FormEdit} (actor : Uuid) (hloaded : loaded.Sound steps)
  (hedit : edit.Sound steps loaded.id)

include hloaded hedit

theorem applied_draft : ∃ schema, (edit.apply actor loaded).schemaJson = schema.toDict ∧ Saved steps loaded.id schema := by
  obtain ⟨draft, hdraft, hsaved⟩ := hloaded.draft
  cases edit with
  | update name schema origins settings source =>
    cases schema with
    | none => exact ⟨draft, hdraft, hsaved⟩
    | some s => exact ⟨s, rfl, hedit.1 s rfl⟩
  | publish snapshot now => exact ⟨snapshot, rfl, Released.saved hedit⟩
  | unpublish => exact ⟨draft, hdraft, hsaved⟩
  | archive now => exact ⟨draft, hdraft, hsaved⟩

theorem applied_snapshot {schema : FormSchema} (h : (edit.apply actor loaded).publishedSchema = some schema) :
    Released steps loaded.id schema := by
  cases edit with
  | update name schema origins settings source => exact hloaded.snapshot _ h
  | publish snapshot now =>
    obtain rfl := Option.some.inj h
    exact hedit
  | unpublish => exact hloaded.snapshot _ h
  | archive now => exact hloaded.snapshot _ h

theorem applied_origins : ∀ origin ∈ (edit.apply actor loaded).allowedOrigins, originProblem origin = none := by
  cases edit with
  | update name schema origins settings source =>
    cases origins with
    | none => exact hloaded.origins
    | some os => exact hedit.2 os rfl
  | publish snapshot now => exact hloaded.origins
  | unpublish => exact hloaded.origins
  | archive now => exact hloaded.origins

end Applied

/-- A snapshot is written by whoever publishes, and never taken away. -/
theorem snapshot_kept {loaded current : FormRow} (edit : FormEdit) (actor : Uuid)
    (hcurrent : current.publishedSchema ≠ none) :
    (loaded.write (edit.apply actor loaded) current).publishedSchema ≠ none := by
  cases edit with
  | publish snapshot now =>
    rcases written_cases loaded.publishedSchema (some snapshot) current.publishedSchema with h | h
    · exact fun hnone => hcurrent (h.symm.trans hnone)
    · exact fun hnone => absurd (h.symm.trans hnone) nofun
  | update name schema origins settings source =>
    exact fun h => hcurrent ((written_same loaded.publishedSchema current.publishedSchema).symm.trans h)
  | unpublish => exact fun h => hcurrent ((written_same loaded.publishedSchema current.publishedSchema).symm.trans h)
  | archive now => exact fun h => hcurrent ((written_same loaded.publishedSchema current.publishedSchema).symm.trans h)

/-- A row that is online after a commit was online before, or has the snapshot of the call. -/
theorem online_after {loaded current : FormRow} {edit : FormEdit} {actor : Uuid}
    (h : (loaded.write (edit.apply actor loaded) current).isPublished = true) :
    current.isPublished = true ∨ ∃ snapshot now, edit = .publish snapshot now := by
  cases edit with
  | publish snapshot now => exact .inr ⟨snapshot, now, rfl⟩
  | update name schema origins settings source =>
    exact .inl ((written_same loaded.isPublished current.isPublished).symm.trans h)
  | unpublish =>
    rcases written_cases loaded.isPublished false current.isPublished with hw | hw
    · exact .inl (hw.symm.trans h)
    · exact absurd (hw.symm.trans h) nofun
  | archive now =>
    rcases written_cases loaded.isPublished false current.isPublished with hw | hw
    · exact .inl (hw.symm.trans h)
    · exact absurd (hw.symm.trans h) nofun

/-- The commit of a sound call leaves a sound row, whatever happened to the row since. -/
theorem FormRow.Sound.write {steps : List BuilderStep} {loaded current : FormRow} {edit : FormEdit} (actor : Uuid)
    (hloaded : loaded.Sound steps) (hedit : edit.Sound steps loaded.id) (hcurrent : current.Sound steps)
    (hid : current.id = loaded.id) (hkept : loaded.publishedSchema ≠ none → current.publishedSchema ≠ none) :
    (loaded.write (edit.apply actor loaded) current).Sound steps := by
  refine ⟨?_, ?_, ?_, ?_⟩
  · show ∃ schema, _ ∧ Saved steps current.id schema
    rcases writtenDict_cases loaded.schemaJson (edit.apply actor loaded).schemaJson current.schemaJson with h | h
    · obtain ⟨schema, hdraft, hsaved⟩ := hcurrent.draft
      exact ⟨schema, h.trans hdraft, hsaved⟩
    · obtain ⟨schema, hdraft, hsaved⟩ := applied_draft actor hloaded hedit
      exact ⟨schema, h.trans hdraft, hid ▸ hsaved⟩
  · intro schema hschema
    show Released steps current.id schema
    rcases written_cases loaded.publishedSchema (edit.apply actor loaded).publishedSchema
      current.publishedSchema with h | h
    · exact hcurrent.snapshot schema (h.symm.trans hschema)
    · exact hid ▸ applied_snapshot actor hloaded hedit (h.symm.trans hschema)
  · intro honline
    rcases online_after honline with h | ⟨snapshot, now, rfl⟩
    · exact snapshot_kept edit actor (hcurrent.online h)
    · -- a snapshot that was there already is not written again, but then the row still has one
      by_cases hsame : loaded.publishedSchema = some snapshot
      · refine snapshot_kept (.publish snapshot now) actor (hkept ?_)
        rw [hsame]
        exact nofun
      · have hwritten : (loaded.write ((FormEdit.publish snapshot now).apply actor loaded) current).publishedSchema =
            some snapshot := written_of_ne hsame
        rw [hwritten]
        exact nofun
  · intro origin horigin
    rcases written_cases loaded.allowedOrigins (edit.apply actor loaded).allowedOrigins
      current.allowedOrigins with h | h
    · exact hcurrent.origins origin (h ▸ horigin)
    · exact applied_origins actor hloaded hedit origin (h ▸ horigin)

/-! ## Every run keeps the table sound -/

/-- The rows after a commit: those that were there, each written or not, and a new one under an id of its own. -/
theorem Builder.mem_commit {b : Builder} {call : FormCall} {r : FormRow} (h : r ∈ b.commit call) :
    r ∈ b.rows ∨ (call = .insert r ∧ ∀ q ∈ b.rows, q.id ≠ r.id) ∨
      ∃ loaded edit actor, call = .write loaded edit actor ∧
        ∃ q ∈ b.rows, q.id = loaded.id ∧ r = loaded.write (edit.apply actor loaded) q := by
  cases call with
  | ended => exact .inl h
  | insert row =>
    unfold Builder.commit at h
    dsimp only at h
    split_ifs at h with htaken
    · exact .inl h
    · rcases List.mem_append.mp h with h | h
      · exact .inl h
      · obtain rfl := List.mem_singleton.mp h
        refine .inr (.inl ⟨rfl, fun q hq hid => htaken ?_⟩)
        exact List.any_eq_true.mpr ⟨q, hq, decide_eq_true hid⟩
  | write loaded edit actor =>
    obtain ⟨q, hq, hr⟩ := List.mem_map.mp h
    split_ifs at hr with hid
    · exact .inr (.inr ⟨loaded, edit, actor, rfl, q, hq, hid, hr.symm⟩)
    · exact .inl (hr ▸ hq)

/-- No row is lost or changes its id. -/
theorem Builder.exists_commit {b : Builder} (call : FormCall) {r : FormRow} (h : r ∈ b.rows) :
    ∃ r' ∈ b.commit call, r'.id = r.id := by
  cases call with
  | ended => exact ⟨r, h, rfl⟩
  | insert row =>
    unfold Builder.commit
    dsimp only
    split_ifs
    · exact ⟨r, h, rfl⟩
    · exact ⟨r, List.mem_append_left _ h, rfl⟩
  | write loaded edit actor =>
    refine ⟨_, List.mem_map_of_mem h, ?_⟩
    split_ifs
    · rfl
    · rfl

theorem Builder.ids_commit {b : Builder} (call : FormCall) (h : (b.rows.map FormRow.id).Nodup) :
    ((b.commit call).map FormRow.id).Nodup := by
  cases call with
  | ended => exact h
  | insert row =>
    unfold Builder.commit
    dsimp only
    split_ifs with htaken
    · exact h
    · rw [List.map_append]
      refine List.nodup_append.mpr ⟨h, List.nodup_singleton _, ?_⟩
      rintro _ hid _ hnew rfl
      obtain ⟨q, hq, hqid⟩ := List.mem_map.mp hid
      exact htaken (List.any_eq_true.mpr ⟨q, hq, decide_eq_true (hqid.trans (List.mem_singleton.mp hnew))⟩)
  | write loaded edit actor =>
    have hsame : (b.commit (.write loaded edit actor)).map FormRow.id = b.rows.map FormRow.id := by
      unfold Builder.commit
      rw [List.map_map]
      refine List.map_congr_left fun r _ => ?_
      show FormRow.id (if r.id = loaded.id then _ else r) = r.id
      split_ifs
      · rfl
      · rfl
    rwa [hsame]

/-- A form that has a snapshot keeps one. -/
theorem Builder.snapshots_commit {b : Builder} (call : FormCall) {id : Uuid} (hthere : ∃ r ∈ b.rows, r.id = id)
    (h : ∀ r ∈ b.rows, r.id = id → r.publishedSchema ≠ none) :
    ∀ r ∈ b.commit call, r.id = id → r.publishedSchema ≠ none := by
  intro r hr hid
  rcases Builder.mem_commit hr with hr | ⟨-, hfresh⟩ | ⟨loaded, edit, actor, -, q, hq, -, rfl⟩
  · exact h r hr hid
  · obtain ⟨q, hq, hqid⟩ := hthere
    exact absurd (hqid.trans hid.symm) (hfresh q hq)
  · exact snapshot_kept edit actor (h q hq hid)

theorem Builder.Sound.commit {steps : List BuilderStep} {b : Builder} (hb : b.Sound steps) {k : ℕ} {call : FormCall}
    (hcall : b.calls[k]? = some call) : (Builder.mk (b.commit call) (b.calls.set k .ended)).Sound steps := by
  have hsound := hb.calls call (List.mem_of_getElem? hcall)
  refine ⟨Builder.ids_commit call hb.ids, ?_, ?_⟩
  · intro r hr
    rcases Builder.mem_commit hr with hr | ⟨rfl, -⟩ | ⟨loaded, edit, actor, rfl, q, hq, hid, rfl⟩
    · exact hb.rows r hr
    · exact hsound
    · obtain ⟨hloaded, hedit, -, hkept⟩ := hsound
      exact hloaded.write actor hedit (hb.rows q hq) hid fun h => hkept h q hq hid
  · refine forall_mem_set (fun other hother => ?_) trivial
    cases other with
    | insert row => exact hb.calls _ hother
    | ended => trivial
    | write loaded edit actor =>
      obtain ⟨hloaded, hedit, ⟨q, hq, hid⟩, hkept⟩ := hb.calls _ hother
      obtain ⟨q', hq', hsame⟩ := Builder.exists_commit call hq
      exact ⟨hloaded, hedit, ⟨q', hq', hsame.trans hid⟩, fun h =>
        Builder.snapshots_commit call ⟨q, hq, hid⟩ (hkept h)⟩

/-- What a request opens is sound once the request is among the steps. -/
theorem FormCall.sound_of_opens {steps : List BuilderStep} {tenantId actor : Uuid} {request : FormRequest}
    {call : FormCall} (hb : (after Builder.step Builder.empty steps).Sound steps)
    (hopens : OpensForm (after Builder.step Builder.empty steps).rows actor request call) :
    call.Sound (steps ++ [.call tenantId actor request]) (after Builder.step Builder.empty steps).rows := by
  have hnew : BuilderStep.call tenantId actor request ∈ steps ++ [.call tenantId actor request] := by simp
  have hloaded : ∀ row ∈ (after Builder.step Builder.empty steps).rows, ∀ edit : FormEdit,
      edit.Sound (steps ++ [.call tenantId actor request]) row.id →
        (FormCall.write row edit actor).Sound (steps ++ [.call tenantId actor request])
          (after Builder.step Builder.empty steps).rows := by
    intro row hrow edit hedit
    refine ⟨(hb.rows row hrow).mono _, hedit, ⟨row, hrow, rfl⟩, fun h r hr hid => ?_⟩
    rwa [List.inj_on_of_nodup_map hb.ids hr hrow hid]
  cases hopens with
  | nothing => trivial
  | create hschema hdraft hoffline hnever horigins =>
    refine ⟨⟨_, hdraft, _, hnew, rfl, hschema⟩, ?_, ?_, horigins⟩
    · intro s hs
      rw [hnever] at hs
      cases hs
    · intro honline
      rw [hoffline] at honline
      cases honline
  | update hrow hlive hschema horigins =>
    exact hloaded _ hrow _ ⟨fun s hs => ⟨_, hnew, rfl, hschema s hs⟩, horigins⟩
  | publish hrow hlive hvalid =>
    refine hloaded _ hrow _ ?_
    obtain ⟨draft, hdraft, hsaved⟩ := (hb.rows _ hrow).draft
    obtain ⟨raw, hraw⟩ := hsaved.accepted
    -- the draft is what the validator made of it when it was saved, so the snapshot is the draft
    rw [hdraft, (normal_of_validate hraw).validate] at hvalid
    obtain rfl := Except.ok.inj hvalid
    exact ⟨steps, tenantId, actor, _, [], rfl, hsaved, _, hrow, rfl, hlive, hdraft⟩
  | unpublish hrow hlive => exact hloaded _ hrow _ trivial
  | archive hrow hlive => exact hloaded _ hrow _ trivial

theorem Builder.sound_run (steps : List BuilderStep) : (after Builder.step Builder.empty steps).Sound steps := by
  induction steps using List.reverseRecOn with
  | nil =>
    show Builder.empty.Sound []
    exact ⟨List.nodup_nil, fun row h => absurd h (List.not_mem_nil), fun call h => absurd h (List.not_mem_nil)⟩
  | append_singleton steps st ih =>
    have hmono : (after Builder.step Builder.empty steps).Sound (steps ++ [st]) :=
      ⟨ih.ids, fun r hr => (ih.rows r hr).mono _, fun call hcall => (ih.calls call hcall).mono _⟩
    rw [after_append]
    show ((after Builder.step Builder.empty steps).step st).Sound _
    rcases Builder.step_cases (after Builder.step Builder.empty steps) st with
      ⟨tenantId, actor, request, call, rfl, hopens, h⟩ | ⟨k, call, rfl, hcall, h⟩ | ⟨k, rfl, h⟩ | ⟨h, -⟩
    · rw [h]
      exact ⟨hmono.ids, hmono.rows, forall_mem_concat hmono.calls (FormCall.sound_of_opens ih hopens)⟩
    · rw [h]
      exact hmono.commit hcall
    · rw [h]
      exact ⟨hmono.ids, hmono.rows, forall_mem_set hmono.calls trivial⟩
    · rw [h]
      exact hmono

/-- **What the public surface serves is a draft that somebody saved for that form, as it stood when somebody asked to
publish the form**, whoever edits, publishes, unpublishes or archives it meanwhile; it is valid, and so are the origins. -/
theorem served_is_saved (steps : List BuilderStep) {id : Uuid} {form : Form}
    (h : getPublishedForm (after Builder.step Builder.empty steps).forms id = some form) :
    ∃ schema, form.publishedSchema = some schema ∧ Released steps id schema ∧ schema.WellFormed ∧
      validateFormSchema schema.toDict = .ok schema ∧ ∀ origin ∈ form.allowedOrigins, originProblem origin = none := by
  obtain ⟨hform, honline⟩ := Option.filter_eq_some_iff.mp h
  obtain ⟨row, hrow, rfl⟩ := Option.map_eq_some_iff.mp hform
  have hid := List.find?_some hrow
  rw [decide_eq_true_eq] at hid
  subst hid
  have hsound := (Builder.sound_run steps).rows row (List.mem_of_find?_eq_some hrow)
  obtain ⟨schema, hschema⟩ := Option.ne_none_iff_exists'.mp (hsound.online honline)
  have hreleased := hsound.snapshot schema hschema
  obtain ⟨raw, hraw⟩ := hreleased.saved.accepted
  exact ⟨schema, hschema, hreleased, wellFormed_of_validate hraw, (normal_of_validate hraw).validate, hsound.origins⟩

/-- A form made and published by one person. -/
def publishedRun : List BuilderStep :=
  let made : NewForm := ⟨"Contact", "embedded", contactDraft, none, none, none⟩
  [.call (sampleUuid 't') (sampleUuid 'u') (.create (sampleUuid 'f') made), .commit 0,
    .call (sampleUuid 't') (sampleUuid 'u') (.publish (sampleUuid 'f') 5), .commit 1]

theorem published_run_served :
    getPublishedForm (after Builder.step Builder.empty publishedRun).forms (sampleUuid 'f') = some contactForm := by
  decide +kernel

theorem contact_form_is_saved :
    ∃ schema, contactForm.publishedSchema = some schema ∧ Released publishedRun (sampleUuid 'f') schema ∧
      schema.WellFormed ∧ validateFormSchema schema.toDict = .ok schema ∧
        ∀ origin ∈ contactForm.allowedOrigins, originProblem origin = none :=
  served_is_saved publishedRun published_run_served

/-! ## Archived forms -/

/-- Every archived form is offline. -/
def Builder.ArchivedOffline (b : Builder) : Prop := ∀ r ∈ b.rows, r.deletedAt ≠ none → r.isPublished = false

/-- A commit does not bring a form online that was archived since it was loaded, and does not archive one that came
online since. -/
def Builder.Timely (b : Builder) : BuilderStep → Prop
  | .commit k => ∀ loaded edit actor, b.calls[k]? = some (.write loaded edit actor) → ∀ r ∈ b.rows, r.id = loaded.id →
      match edit with
      | .publish _ _ => loaded.isPublished = false → r.deletedAt = none
      | .archive _ => r.isPublished = true → loaded.isPublished = true
      | _ => True
  | _ => True

/-- Whoever writes a form has seen it unarchived, and whoever adds one adds it offline. -/
structure Builder.Writing (b : Builder) : Prop where
  loaded : ∀ loaded edit actor, .write loaded edit actor ∈ b.calls → loaded.deletedAt = none
  added : ∀ row, .insert row ∈ b.calls → row.isPublished = false

theorem Builder.Writing.step {b : Builder} (h : b.Writing) (st : BuilderStep) : (b.step st).Writing := by
  have hended : ∀ {rows : List FormRow} {k : ℕ}, (Builder.mk rows (b.calls.set k .ended)).Writing := fun {rows k} =>
    ⟨fun loaded edit writer hmem => h.loaded loaded edit writer ((List.mem_or_eq_of_mem_set hmem).resolve_right nofun),
      fun row hmem => h.added row ((List.mem_or_eq_of_mem_set hmem).resolve_right nofun)⟩
  rcases b.step_cases st with ⟨tenantId, actor, request, call, rfl, hopens, heq⟩ | ⟨k, call, rfl, hcall, heq⟩ |
    ⟨k, rfl, heq⟩ | ⟨heq, -⟩
  · rw [heq]
    constructor
    · intro loaded edit writer hmem
      rcases List.mem_append.mp hmem with hmem | hmem
      · exact h.loaded loaded edit writer hmem
      · rw [← List.mem_singleton.mp hmem] at hopens
        cases hopens with
        | update hrow hlive hschema horigins => exact hlive
        | publish hrow hlive hvalid => exact hlive
        | unpublish hrow hlive => exact hlive
        | archive hrow hlive => exact hlive
    · intro row hmem
      rcases List.mem_append.mp hmem with hmem | hmem
      · exact h.added row hmem
      · rw [← List.mem_singleton.mp hmem] at hopens
        cases hopens with
        | create hschema hdraft hoffline hnever horigins => exact hoffline
  · rw [heq]
    exact hended
  · rw [heq]
    exact hended
  · rw [heq]
    exact h

/-- When a row is online and archived after a commit. -/
theorem exposed_write_iff {loaded current : FormRow} (edit : FormEdit) (actor : Uuid) (hlive : loaded.deletedAt = none)
    (hcurrent : current.deletedAt ≠ none → current.isPublished = false) :
    ((loaded.write (edit.apply actor loaded) current).deletedAt ≠ none →
        (loaded.write (edit.apply actor loaded) current).isPublished = false) ↔
      match edit with
      | .publish _ _ => loaded.isPublished = false → current.deletedAt = none
      | .archive _ => current.isPublished = true → loaded.isPublished = true
      | _ => True := by
  cases edit with
  | update name schema origins settings source =>
    refine iff_of_true ?_ trivial
    show written loaded.deletedAt loaded.deletedAt current.deletedAt ≠ none →
      written loaded.isPublished loaded.isPublished current.isPublished = false
    rw [written_same, written_same]
    exact hcurrent
  | unpublish =>
    refine iff_of_true ?_ trivial
    show written loaded.deletedAt loaded.deletedAt current.deletedAt ≠ none →
      written loaded.isPublished false current.isPublished = false
    rw [written_same]
    intro harchived
    rcases written_cases loaded.isPublished false current.isPublished with h | h
    · exact h.trans (hcurrent harchived)
    · exact h
  | publish snapshot now =>
    show (written loaded.deletedAt loaded.deletedAt current.deletedAt ≠ none →
      written loaded.isPublished true current.isPublished = false) ↔ _
    rw [written_same]
    cases hloaded : loaded.isPublished with
    | false =>
      show (current.deletedAt ≠ none → written false true current.isPublished = false) ↔ _
      rw [written_of_ne (by decide)]
      simp
    | true =>
      rw [written_same]
      exact iff_of_true hcurrent nofun
  | archive now =>
    show (written loaded.deletedAt (some now) current.deletedAt ≠ none →
      written loaded.isPublished false current.isPublished = false) ↔ _
    rw [hlive, written_of_ne (by simp)]
    cases hloaded : loaded.isPublished with
    | false =>
      rw [written_same]
      cases current.isPublished <;> simp
    | true =>
      rw [written_of_ne (by decide)]
      simp

theorem Builder.archivedOffline_commit_iff {b : Builder} (hwriting : b.Writing) {k : ℕ} {call : FormCall}
    (hcall : b.calls[k]? = some call) (h : b.ArchivedOffline) :
    (∀ r ∈ b.commit call, r.deletedAt ≠ none → r.isPublished = false) ↔ b.Timely (.commit k) := by
  have hmem : call ∈ b.calls := List.mem_of_getElem? hcall
  cases call with
  | ended => exact iff_of_true h fun loaded edit actor hwrite => absurd (hcall.symm.trans hwrite) nofun
  | insert row =>
    refine iff_of_true (fun r hr => ?_) fun loaded edit actor hwrite => absurd (hcall.symm.trans hwrite) nofun
    rcases Builder.mem_commit hr with hr | ⟨hrow, -⟩ | ⟨loaded, edit, actor, hrow, -⟩
    · exact h r hr
    · cases hrow
      exact fun _ => hwriting.added row hmem
    · cases hrow
  | write loaded edit actor =>
    have hone := fun r hr => exposed_write_iff edit actor (hwriting.loaded loaded edit actor hmem) (h r hr)
    constructor
    · intro hall loaded' edit' actor' hwrite r hr hid
      cases hcall.symm.trans hwrite
      refine (hone r hr).mp (hall _ (List.mem_map.mpr ⟨r, hr, ?_⟩))
      rw [if_pos hid]
    · intro htimely r hr
      rcases Builder.mem_commit hr with hr | ⟨hrow, -⟩ | ⟨loaded', edit', actor', hrow, q, hq, hid, rfl⟩
      · exact h r hr
      · cases hrow
      · cases hrow
        exact (hone q hq).mpr (htimely loaded edit actor hcall q hq hid)

theorem Builder.archivedOffline_step_iff {b : Builder} (hwriting : b.Writing) (st : BuilderStep)
    (h : b.ArchivedOffline) : (b.step st).ArchivedOffline ↔ b.Timely st := by
  rcases b.step_cases st with ⟨tenantId, actor, request, call, rfl, hopens, heq⟩ | ⟨k, call, rfl, hcall, heq⟩ |
    ⟨k, rfl, heq⟩ | ⟨heq, hnone⟩
  · rw [heq]
    exact iff_of_true h trivial
  · rw [heq]
    exact archivedOffline_commit_iff hwriting hcall h
  · rw [heq]
    exact iff_of_true h trivial
  · rw [heq]
    refine iff_of_true h ?_
    cases st with
    | call tenantId actor request => trivial
    | abort k => trivial
    | commit k => exact fun loaded edit actor hwrite => absurd ((hnone k rfl).symm.trans hwrite) nofun

/-- **When every archived form is offline**: in the runs in which no publication is committed over an archive, and no
archive over a publication, that it has not seen.  `_load` takes no lock, so nothing keeps two such calls apart. -/
theorem archived_offline_iff (steps : List BuilderStep) :
    Always Builder.step Builder.ArchivedOffline Builder.empty steps ↔
      Meets Builder.step Builder.Timely Builder.empty steps := by
  refine @always_iff_meets Builder BuilderStep Builder.step Builder.Writing Builder.ArchivedOffline Builder.Timely
    (fun b st hwriting => hwriting.step st) (fun b st hwriting h => Builder.archivedOffline_step_iff hwriting st h) steps
    Builder.empty ?_ fun r hr => absurd hr List.not_mem_nil
  exact ⟨fun loaded edit actor hmem => absurd hmem List.not_mem_nil, fun row hmem => absurd hmem List.not_mem_nil⟩

/-! ## Nobody can take it offline -/

/-- The form is archived and nobody is writing it. -/
structure Builder.Shelved (id : Uuid) (b : Builder) : Prop where
  there : ∃ r ∈ b.rows, r.id = id
  archived : ∀ r ∈ b.rows, r.id = id → r.deletedAt ≠ none
  idle : ∀ loaded edit actor, .write loaded edit actor ∈ b.calls → loaded.id ≠ id

def Builder.named (b : Builder) (id : Uuid) : List FormRow := b.rows.filter fun r => r.id = id

theorem Builder.forms_eq_named (b : Builder) (id : Uuid) : b.forms id = (b.named id).head?.map FormRow.toForm := by
  unfold Builder.forms Builder.named
  rw [List.head?_filter]

theorem Builder.Shelved.commit {id : Uuid} {b : Builder} (h : b.Shelved id) {call : FormCall}
    (hcall : call ∈ b.calls) : (b.commit call).filter (fun r => r.id = id) = b.named id := by
  cases call with
  | ended => rfl
  | insert row =>
    unfold Builder.commit
    dsimp only
    split_ifs with htaken
    · rfl
    · obtain ⟨r, hr, hid⟩ := h.there
      have hother : row.id ≠ id := fun hrow =>
        htaken (List.any_eq_true.mpr ⟨r, hr, decide_eq_true (hid.trans hrow.symm)⟩)
      rw [List.filter_append, List.filter_singleton, decide_eq_false hother]
      exact List.append_nil _
  | write loaded edit actor =>
    have hother := h.idle loaded edit actor hcall
    have hid : ((fun r : FormRow => decide (r.id = id)) ∘ fun r =>
        if r.id = loaded.id then loaded.write (edit.apply actor loaded) r else r) = fun r => decide (r.id = id) := by
      funext r
      show decide (FormRow.id (if r.id = loaded.id then _ else r) = id) = decide (r.id = id)
      split_ifs
      · rfl
      · rfl
    show (b.rows.map _).filter _ = b.rows.filter _
    rw [List.filter_map, hid]
    refine (List.map_congr_left fun r hr => ?_).trans (List.map_id _)
    have hr : r.id = id := of_decide_eq_true (List.mem_filter.mp hr).2
    exact if_neg fun hsame => hother (hsame.symm.trans hr)

theorem Builder.mem_named {b : Builder} {id : Uuid} {r : FormRow} : r ∈ b.named id ↔ r ∈ b.rows ∧ r.id = id := by
  unfold Builder.named
  rw [List.mem_filter, decide_eq_true_eq]

/-- What is shelved does not depend on the other rows. -/
theorem Builder.Shelved.congr {id : Uuid} {b c : Builder} (h : b.Shelved id) (hrows : c.named id = b.named id)
    (hidle : ∀ loaded edit actor, .write loaded edit actor ∈ c.calls → loaded.id ≠ id) : c.Shelved id := by
  refine ⟨?_, fun r hr hid => ?_, hidle⟩
  · obtain ⟨r, hr, hid⟩ := h.there
    have hmem : r ∈ c.named id := hrows ▸ Builder.mem_named.mpr ⟨hr, hid⟩
    exact ⟨r, Builder.mem_named.mp hmem⟩
  · have hmem : r ∈ b.named id := hrows ▸ Builder.mem_named.mpr ⟨hr, hid⟩
    exact h.archived r (Builder.mem_named.mp hmem).1 hid

theorem Builder.Shelved.step {id : Uuid} {b : Builder} (h : b.Shelved id) (st : BuilderStep) :
    (b.step st).Shelved id ∧ (b.step st).named id = b.named id := by
  have hended : ∀ k loaded edit actor, .write loaded edit actor ∈ b.calls.set k .ended → loaded.id ≠ id :=
    fun k loaded edit actor hmem => h.idle loaded edit actor ((List.mem_or_eq_of_mem_set hmem).resolve_right nofun)
  rcases b.step_cases st with ⟨tenantId, actor, request, call, rfl, hopens, heq⟩ | ⟨k, call, rfl, hcall, heq⟩ |
    ⟨k, rfl, heq⟩ | ⟨heq, -⟩
  · rw [heq]
    refine ⟨h.congr rfl fun loaded edit writer hmem => ?_, rfl⟩
    rcases List.mem_append.mp hmem with hmem | hmem
    · exact h.idle loaded edit writer hmem
    · -- a call loads only what is not archived
      rw [← List.mem_singleton.mp hmem] at hopens
      intro hid
      cases hopens with
      | update hrow hlive hschema horigins => exact h.archived _ hrow hid hlive
      | publish hrow hlive hvalid => exact h.archived _ hrow hid hlive
      | unpublish hrow hlive => exact h.archived _ hrow hid hlive
      | archive hrow hlive => exact h.archived _ hrow hid hlive
  · have hsame : (Builder.mk (b.commit call) (b.calls.set k .ended)).named id = b.named id :=
      h.commit (List.mem_of_getElem? hcall)
    rw [heq]
    exact ⟨h.congr hsame (hended k), hsame⟩
  · rw [heq]
    exact ⟨h.congr rfl (hended k), rfl⟩
  · rw [heq]
    exact ⟨h, rfl⟩

/-- **An archived form that nobody is writing never changes again**, so that one that is served is served for good. -/
theorem archived_is_final {b : Builder} {id : Uuid} (hthere : ∃ r ∈ b.rows, r.id = id)
    (harchived : ∀ r ∈ b.rows, r.id = id → r.deletedAt ≠ none)
    (hidle : ∀ loaded edit actor, .write loaded edit actor ∈ b.calls → loaded.id ≠ id) (steps : List BuilderStep) :
    (after Builder.step b steps).named id = b.named id ∧
      getPublishedForm (after Builder.step b steps).forms id = getPublishedForm b.forms id := by
  have hinv := @inv_run Builder BuilderStep Builder.step (fun c => c.Shelved id ∧ c.named id = b.named id)
    (fun c st hc => ⟨(hc.1.step st).1, (hc.1.step st).2.trans hc.2⟩) steps b ⟨⟨hthere, harchived, hidle⟩, rfl⟩
  refine ⟨hinv.2, ?_⟩
  unfold getPublishedForm
  rw [Builder.forms_eq_named, Builder.forms_eq_named, hinv.2]

/-- Somebody publishes a form again while somebody else archives it. -/
def archivedWhilePublished : List BuilderStep :=
  publishedRun ++
    [.call (sampleUuid 't') (sampleUuid 'u') (.unpublish (sampleUuid 'f')), .commit 2,
      .call (sampleUuid 't') (sampleUuid 'u') (.publish (sampleUuid 'f') 8),
      .call (sampleUuid 't') (sampleUuid 'v') (.archive (sampleUuid 'f') 9), .commit 3, .commit 4]

def archivedOnline : Builder := after Builder.step Builder.empty archivedWhilePublished

/-- It is archived and online, and no call is open. -/
theorem archivedOnline_state : archivedOnline.rows.map (fun r => (r.id, r.deletedAt, r.isPublished)) =
      [(sampleUuid 'f', some 9, true)] ∧
    archivedOnline.calls.all (fun call => match call with | .ended => true | _ => false) = true := by
  decide +kernel

/-- Somebody tries to take it offline, edits it, and archives it again. -/
def takenDown : List BuilderStep :=
  [.call (sampleUuid 't') (sampleUuid 'u') (.unpublish (sampleUuid 'f')), .commit 5,
    .call (sampleUuid 't') (sampleUuid 'u') (.archive (sampleUuid 'f') 10), .commit 6]

theorem archived_online_is_final :
    (after Builder.step archivedOnline takenDown).named (sampleUuid 'f') = archivedOnline.named (sampleUuid 'f') ∧
      getPublishedForm (after Builder.step archivedOnline takenDown).forms (sampleUuid 'f') =
        getPublishedForm archivedOnline.forms (sampleUuid 'f') := by
  obtain ⟨hrows, hcalls⟩ := archivedOnline_state
  refine archived_is_final ?_ (fun r hr _ => ?_) (fun loaded edit actor hmem => ?_) takenDown
  · have hmem : (sampleUuid 'f', some 9, true) ∈ archivedOnline.rows.map fun r => (r.id, r.deletedAt, r.isPublished) :=
      hrows ▸ List.mem_singleton_self _
    obtain ⟨r, hr, heq⟩ := List.mem_map.mp hmem
    exact ⟨r, hr, congrArg Prod.fst heq⟩
  · have hmem := List.mem_map_of_mem hr (f := fun r => (r.id, r.deletedAt, r.isPublished))
    rw [hrows] at hmem
    have hone := congrArg (fun t => t.2.1) (List.mem_singleton.mp hmem)
    exact fun hnone => absurd (hone.symm.trans hnone) nofun
  · cases List.all_eq_true.mp hcalls _ hmem

end RevenueOS.Leads
