import RevenueOS.Py.Json
import RevenueOS.Lib.Except
import RevenueOS.Leads.Lifecycle

/-!
# RevenueOS.Leads.Forms — capture forms and their public submissions

`validate_form_schema` (`domain/leads/form_schema.py`) on any draft, and `submit_public_form`
(`application/leads/forms.py`) on any payload.  The schema of a published form is what the validator returned; the
submission reads whether the form is published, its origins and its tenant, and nothing of the schema.

* `wellFormed_of_validate`: what the validator accepts.
* `stored_delivers_iff`: when the payload that is stored has what the form asks for.

Unicode decomposition (`unicodedata.normalize("NFKD", …)`) and SHA-256 are parameters.
-/

namespace RevenueOS.Leads

open RevenueOS.Py RevenueOS.Lib RevenueOS.Workflows

/-! ## The schema of a form -/

/-- `FIELD_TYPES`. -/
def fieldTypes : List String :=
  ["text", "textarea", "email", "phone", "number", "select", "multiselect", "checkbox", "date", "hidden"]

/-- `CONTACT_FIELDS`. -/
def contactFields : List String := ["email", "phone"]

/-- `RESERVED_NAMES`. -/
def reservedNames : List String :=
  ["id", "tenant_id", "owner_id", "status", "score", "created_at", "updated_at", "version"]

/-- `MAX_FIELDS`. -/
def maxFields : ℕ := 60

/-- `MAX_OPTIONS`. -/
def maxOptions : ℕ := 200

/-- `_NAME.match(name)`, on a name without white space at its ends. -/
def isFieldName (name : String) : Bool :=
  match name.toList with
  | [] => false
  | c :: rest =>
    ('a' ≤ c && c ≤ 'z') && rest.length ≤ 49 &&
      rest.all fun d => ('a' ≤ d && d ≤ 'z') || ('0' ≤ d && d ≤ '9') || d == '_'

structure FormField where
  name : String
  type : String
  label : String
  required : Bool
  options : List String
  placeholder : Option String
  helpText : Option String
deriving DecidableEq

/-- What `validate_form_schema` returns. -/
structure FormSchema where
  fields : List FormField
  consentText : Option String
  submitLabel : String
  successMessage : Option String
deriving DecidableEq

/-- A `ValidationError`. -/
structure FormError where
  message : String
  details : Dict

/-- `str.title` of ASCII text; `cased` says that the character before is a letter. -/
def titleChars : Bool → List Char → List Char
  | _, [] => []
  | cased, c :: cs => (if cased then c.toLower else c.toUpper) :: titleChars c.isAlpha cs

/-- `name.replace("_", " ").title()`. -/
def titleOf (name : String) : String := String.ofList (titleChars false (replace name "_" " ").toList)

/-- `text or None`. -/
def textOrNone (text : String) : Option String := if text = "" then none else some text

/-! ## `validate_form_schema` -/

/-- The name of a field, up to `seen.add(name)`. -/
def fieldName (index : ℕ) (seen : List String) (raw : Dict) : Except String String :=
  let name := strip (raw.getD "name" (.str "")).text
  if !isFieldName name then
    .error ("Field " ++ toString index ++ ": " ++ Py.reprStr name ++ " is not a valid name. Use lower case letters, "
      ++ "digits and underscores, starting with a letter.")
  else if reservedNames.contains name then
    .error ("Field " ++ toString index ++ ": " ++ Py.reprStr name ++ " is reserved by the platform.")
  else if seen.contains name then
    .error ("Field " ++ toString index ++ ": " ++ Py.reprStr name ++ " appears more than once.")
  else .ok name

/-- The options of a field. -/
def fieldOptions (name fieldType : String) (options : Json) : Except String (List String) :=
  if fieldType = "select" ∨ fieldType = "multiselect" then
    match options with
    | .arr (option :: rest) =>
      if maxOptions < (option :: rest).length then
        .error ("Field " ++ Py.reprStr name ++ ": at most " ++ toString maxOptions ++ " options.")
      else .ok ((option :: rest).map fun option => slice option.text 120)
    | _ => .error ("Field " ++ Py.reprStr name ++ ": a " ++ fieldType ++ " needs options.")
  else .ok []

/-- What follows `seen.add(name)`. -/
def readField (name : String) (raw : Dict) : Except String FormField :=
  let fieldType := strip (raw.getD "type" (.str "text")).text
  if !fieldTypes.contains fieldType then
    .error ("Field " ++ Py.reprStr name ++ ": " ++ Py.reprStr fieldType ++ " is not a supported field type.")
  else
    match fieldOptions name fieldType ((raw.get "options").or (.arr [])) with
    | .error problem => .error problem
    | .ok options =>
      let required := (raw.getD "required" (.bool false)).truthy
      if fieldType = "hidden" ∧ required = true then
        .error ("Field " ++ Py.reprStr name ++ ": a hidden field cannot be required.")
      else .ok
        { name := name
          type := fieldType
          label := slice ((raw.get "label").or (.str (titleOf name))).text 150
          required := required
          options := options
          placeholder := textOrNone (slice ((raw.get "placeholder").or (.str "")).text 150)
          helpText := textOrNone (slice ((raw.get "help_text").or (.str "")).text 300) }

/-- The accumulators of the loop. -/
structure SchemaReading where
  problems : List String
  normalised : List FormField
  seen : List String

/-- The body of the loop. -/
def SchemaReading.read (s : SchemaReading) (index : ℕ) : Json → SchemaReading
  | .obj raw =>
    match fieldName index s.seen raw with
    | .error problem => { s with problems := s.problems ++ [problem] }
    | .ok name =>
      match readField name raw with
      | .error problem => { s with problems := s.problems ++ [problem], seen := s.seen ++ [name] }
      | .ok field => { s with normalised := s.normalised ++ [field], seen := s.seen ++ [name] }
  | _ => { s with problems := s.problems ++ ["Field " ++ toString index ++ " is not an object."] }

def SchemaReading.readAll : SchemaReading → ℕ → List Json → SchemaReading
  | s, _, [] => s
  | s, index, raw :: raws => (s.read index raw).readAll (index + 1) raws

def invalidForm (problems : List String) : FormError :=
  ⟨"This form definition is not valid.", [("problems", .arr (problems.map .str))]⟩

/-- `validate_form_schema`. -/
def validateFormSchema (schema : Dict) : Except FormError FormSchema :=
  match schema.get "fields" with
  | .arr (field :: rest) =>
    if maxFields < (field :: rest).length then
      .error ⟨"A form may have at most " ++ toString maxFields ++ " fields.",
        [("count", .int (field :: rest).length)]⟩
    else
      let s := (SchemaReading.mk [] [] []).readAll 0 (field :: rest)
      if s.problems ≠ [] then .error (invalidForm s.problems)
      else if !s.seen.any contactFields.contains then
        .error (invalidForm ["A form must capture an email or a phone number, or the leads it "
          ++ "creates cannot be contacted."])
      else .ok
        { fields := s.normalised
          consentText := textOrNone (slice ((schema.get "consent_text").or (.str "")).text 1000)
          submitLabel := slice ((schema.get "submit_label").or (.str "Submit")).text 60
          successMessage := textOrNone (slice ((schema.get "success_message").or (.str "")).text 500) }
  | _ => .error ⟨"A form needs at least one field.", [("field", .str "fields")]⟩

/-! ## What is accepted -/

structure FormField.WellFormed (field : FormField) : Prop where
  name : isFieldName field.name = true
  free : field.name ∉ reservedNames
  type : field.type ∈ fieldTypes
  options : field.type = "select" ∨ field.type = "multiselect" → field.options ≠ [] ∧ field.options.length ≤ maxOptions
  visible : field.type = "hidden" → field.required = false

structure FormSchema.WellFormed (schema : FormSchema) : Prop where
  fields : ∀ field ∈ schema.fields, field.WellFormed
  distinct : (schema.fields.map FormField.name).Nodup
  count : schema.fields.length ≤ maxFields
  contact : ∃ field ∈ schema.fields, field.name ∈ contactFields

theorem fieldName_ok {index : ℕ} {seen : List String} {raw : Dict} {name : String}
    (h : fieldName index seen raw = .ok name) : isFieldName name = true ∧ name ∉ reservedNames ∧ name ∉ seen := by
  unfold fieldName at h
  dsimp only at h
  split_ifs at h with hname hreserved hseen
  cases h
  rw [Bool.not_eq_true', Bool.not_eq_false] at hname
  rw [List.contains_iff_mem] at hreserved hseen
  exact ⟨hname, hreserved, hseen⟩

theorem fieldOptions_ok {name fieldType : String} {json : Json} {options : List String}
    (h : fieldOptions name fieldType json = .ok options) (hselect : fieldType = "select" ∨ fieldType = "multiselect") :
    options ≠ [] ∧ options.length ≤ maxOptions := by
  unfold fieldOptions at h
  rw [if_pos hselect] at h
  split at h
  · split_ifs at h with hmany
    cases h
    refine ⟨List.cons_ne_nil _ _, ?_⟩
    rw [List.length_map]
    omega
  · cases h

theorem readField_ok {name : String} {raw : Dict} {field : FormField} (h : readField name raw = .ok field) :
    field.name = name ∧ field.type ∈ fieldTypes ∧
      (field.type = "select" ∨ field.type = "multiselect" →
        field.options ≠ [] ∧ field.options.length ≤ maxOptions) ∧
      (field.type = "hidden" → field.required = false) := by
  unfold readField at h
  dsimp only at h
  by_cases htype : strip (raw.getD "type" (.str "text")).text ∈ fieldTypes
  · rw [List.contains_iff_mem.mpr htype] at h
    cases hoptions : fieldOptions name (strip (raw.getD "type" (.str "text")).text)
        ((raw.get "options").or (.arr [])) with
    | error problem =>
      rw [hoptions] at h
      cases h
    | ok options =>
      rw [hoptions] at h
      dsimp only at h
      split_ifs at h with _ hhidden
      cases h
      refine ⟨rfl, htype, fieldOptions_ok hoptions, fun hty => ?_⟩
      rw [← Bool.not_eq_true]
      exact fun hrequired => hhidden ⟨hty, hrequired⟩
  · rw [if_pos (by rw [Bool.not_eq_true', ← Bool.not_eq_true, List.contains_iff_mem]; exact htype)] at h
    cases h

/-- A turn of the loop finds a problem or adds a field. -/
theorem SchemaReading.read_cases (s : SchemaReading) (index : ℕ) (raw : Json) :
    (∃ problem seen, s.read index raw = { s with problems := s.problems ++ [problem], seen := seen }) ∨
      ∃ field : FormField, field.WellFormed ∧ field.name ∉ s.seen ∧
        s.read index raw = ⟨s.problems, s.normalised ++ [field], s.seen ++ [field.name]⟩ := by
  unfold SchemaReading.read
  split
  · rename_i raw
    cases hname : fieldName index s.seen raw with
    | error problem => exact Or.inl ⟨problem, s.seen, rfl⟩
    | ok name =>
      obtain ⟨hvalid, hfree, hnew⟩ := fieldName_ok hname
      dsimp only
      cases hfield : readField name raw with
      | error problem => exact Or.inl ⟨problem, s.seen ++ [name], rfl⟩
      | ok field =>
        obtain ⟨rfl, htype, hoptions, hvisible⟩ := readField_ok hfield
        exact Or.inr ⟨field, ⟨hvalid, hfree, htype, hoptions, hvisible⟩, hnew, rfl⟩
  · exact Or.inl ⟨_, s.seen, rfl⟩

/-- What the accumulators are while no problem is found, after that many fields. -/
structure SchemaReading.Good (s : SchemaReading) (count : ℕ) : Prop where
  fields : ∀ field ∈ s.normalised, field.WellFormed
  seen : s.normalised.map FormField.name = s.seen
  distinct : s.seen.Nodup
  count : s.normalised.length = count

theorem SchemaReading.problems_readAll : ∀ (raws : List Json) (s : SchemaReading) (index : ℕ),
    (s.readAll index raws).problems = [] → s.problems = []
  | [], _, _, h => h
  | raw :: raws, s, index, h => by
    have hread := problems_readAll raws _ _ h
    rcases s.read_cases index raw with ⟨problem, seen, heq⟩ | ⟨field, -, -, heq⟩
    · rw [heq] at hread
      exact absurd hread (List.append_ne_nil_of_right_ne_nil _ (List.cons_ne_nil _ _))
    · rw [heq] at hread
      exact hread

theorem SchemaReading.good_readAll : ∀ (raws : List Json) {s : SchemaReading} {count index : ℕ}, s.Good count →
    (s.readAll index raws).problems = [] → (s.readAll index raws).Good (count + raws.length)
  | [], _, _, _, h, _ => h
  | raw :: raws, s, count, index, h, hproblems => by
    have hread : (s.read index raw).problems = [] := problems_readAll raws _ _ hproblems
    have hgood : (s.read index raw).Good (count + 1) := by
      rcases s.read_cases index raw with ⟨problem, seen, heq⟩ | ⟨field, hfield, hnew, heq⟩
      · rw [heq] at hread
        exact absurd hread (List.append_ne_nil_of_right_ne_nil _ (List.cons_ne_nil _ _))
      · rw [heq]
        refine ⟨fun f hf => ?_, ?_, ?_, ?_⟩
        · rcases List.mem_append.mp hf with hf | hf
          · exact h.fields f hf
          · exact List.mem_singleton.mp hf ▸ hfield
        · rw [List.map_append, h.seen]
          rfl
        · exact List.nodup_append.mpr ⟨h.distinct, List.nodup_singleton _, fun a ha b hb hab =>
            hnew (List.mem_singleton.mp hb ▸ hab ▸ ha)⟩
        · rw [List.length_append, h.count]
          rfl
    have hrest := good_readAll raws hgood hproblems
    rw [List.length_cons, Nat.add_comm raws.length, ← Nat.add_assoc]
    exact hrest

theorem SchemaReading.good_start : (SchemaReading.mk [] [] []).Good 0 where
  fields field h := by cases h
  seen := rfl
  distinct := List.nodup_nil
  count := rfl

/-- **What the validator accepts is well formed, with a field for an email or a phone.** -/
theorem wellFormed_of_validate {raw : Dict} {schema : FormSchema} (h : validateFormSchema raw = .ok schema) :
    schema.WellFormed := by
  unfold validateFormSchema at h
  split at h
  · rename_i field rest hraw
    dsimp only at h
    split_ifs at h with hmany hproblems hcontact
    cases h
    have hgood := SchemaReading.good_readAll (field :: rest) SchemaReading.good_start (not_not.mp hproblems)
    refine ⟨hgood.fields, hgood.seen ▸ hgood.distinct, ?_, ?_⟩
    · have hcount := hgood.count
      dsimp only
      omega
    · rw [Bool.not_eq_true', Bool.not_eq_false, List.any_eq_true] at hcontact
      obtain ⟨name, hname, hcontains⟩ := hcontact
      rw [← hgood.seen] at hname
      obtain ⟨f, hf, rfl⟩ := List.mem_map.mp hname
      exact ⟨f, hf, List.contains_iff_mem.mp hcontains⟩
  · cases h

/-! ## `submit_public_form` -/

section Submission

variable (nfkd sha256Hex lower : String → String)

/-- The columns of a form that its public surface reads; `none` is the `{}` of a form that never was published. -/
structure Form where
  tenantId : Uuid
  isPublished : Bool
  publishedSchema : Option FormSchema
  allowedOrigins : List String
deriving DecidableEq

/-- The `LeadSourceEvent` of a submission. -/
structure SubmissionEvent where
  id : Uuid
  tenantId : Uuid
  source : String
  sourceChannel : String
  sourceIdempotencyKey : String
  rawPayload : Dict
  normalized : Dict
  utm : Json
  ipHash : Option String
  userAgent : Option String
  formId : Uuid
  outcome : String

inductive SubmitError where
  | notFound (message : String)
  | forbidden (message : String)
  | python (e : PyError)
deriving DecidableEq

/-- `get_published_form`, on the rows of `forms`. -/
def getPublishedForm (forms : Uuid → Option Form) (formId : Uuid) : Option Form :=
  (forms formId).filter Form.isPublished

/-- `origin_allowed`. -/
def originAllowed (origin : String) (allowed : List String) : Bool := allowed.isEmpty || allowed.contains origin

/-- `{k: v for k, v in payload.items() if k != "anti_abuse_token"}`. -/
def withoutToken (payload : Dict) : Dict := payload.filter fun kv => kv.1 != "anti_abuse_token"

/-- `submit_public_form`, with the id it draws: the row that is inserted. -/
def submitPublicForm (forms : Uuid → Option Form) (eventId formId : Uuid) (payload : Dict) (origin : String)
    (ip userAgent : Option String) : Except SubmitError SubmissionEvent :=
  match getPublishedForm forms formId with
  | none => .error (.notFound "Form not found.")
  | some form =>
    if !originAllowed origin form.allowedOrigins then
      .error (.forbidden "This origin is not permitted to submit the form.")
    else
      match dedupeKey nfkd lower (payload.get "email") (payload.get "phone") (payload.get "first_name") with
      | .error e => .error (.python e)
      | .ok key => .ok
        { id := eventId
          tenantId := form.tenantId
          source := "form:" ++ formId.text
          sourceChannel := "web_form"
          sourceIdempotencyKey := eventId.text
          rawPayload := withoutToken payload
          normalized := [("dedupe_key", (key.map Json.str).getD .null)]
          utm := payload.getD "utm" (.obj [])
          ipHash := (ip.bind textOrNone).map sha256Hex
          userAgent := textOrNone (slice (userAgent.getD "") 500)
          formId := formId
          outcome := "received" }

theorem submit_ok {forms : Uuid → Option Form} {eventId formId : Uuid} {payload : Dict} {origin : String}
    {ip userAgent : Option String} {event : SubmissionEvent}
    (h : submitPublicForm nfkd sha256Hex lower forms eventId formId payload origin ip userAgent = .ok event) :
    (∃ form, getPublishedForm forms formId = some form) ∧ event.rawPayload = withoutToken payload := by
  unfold submitPublicForm at h
  cases hform : getPublishedForm forms formId with
  | none =>
    rw [hform] at h
    cases h
  | some form =>
    rw [hform] at h
    dsimp only at h
    split_ifs at h
    split at h
    · cases h
    · cases h
      exact ⟨⟨form, rfl⟩, rfl⟩

/-! ## What a stored submission has -/

/-- A value that says something: not `None`, and not an empty text, list or object. -/
def hasValue : Json → Bool
  | .null => false
  | .str s => s != ""
  | .arr xs => !xs.isEmpty
  | .obj d => !d.isEmpty
  | _ => true

/-- A payload has a value for every required field of the form, and one for an email or a phone. -/
structure Delivers (schema : FormSchema) (payload : Dict) : Prop where
  required : ∀ field ∈ schema.fields, field.required = true → hasValue (payload.get field.name) = true
  reachable : ∃ name ∈ contactFields, hasValue (payload.get name) = true

/-- The visitor filled in the field. -/
def Posted (payload : Dict) (name : String) : Prop :=
  name ≠ "anti_abuse_token" ∧ hasValue (payload.get name) = true

/-- The visitor filled in every required field, and an email or a phone unless the form requires one of them. -/
structure FilledIn (schema : FormSchema) (payload : Dict) : Prop where
  required : ∀ field ∈ schema.fields, field.required = true → Posted payload field.name
  contact : (∃ field ∈ schema.fields, field.required = true ∧ field.name ∈ contactFields) ∨
    ∃ name ∈ contactFields, Posted payload name

theorem hasValue_withoutToken (payload : Dict) (name : String) :
    hasValue ((withoutToken payload).get name) = true ↔ Posted payload name := by
  unfold Posted withoutToken Dict.get
  by_cases hname : name = "anti_abuse_token"
  · rw [lookup_filter_of_not (fun key => key != "anti_abuse_token") (by rw [hname]; rfl)]
    constructor
    · intro h
      cases h
    · exact fun h => absurd hname h.1
  · rw [lookup_filter_key (fun key => key != "anti_abuse_token") (bne_iff_ne.mpr hname)]
    exact ⟨fun h => ⟨hname, h⟩, fun h => h.2⟩

theorem delivers_withoutToken_iff (schema : FormSchema) (payload : Dict) :
    Delivers schema (withoutToken payload) ↔ FilledIn schema payload := by
  constructor
  · intro h
    refine ⟨fun field hfield hrequired => ?_, Or.inr ?_⟩
    · exact (hasValue_withoutToken payload field.name).mp (h.required field hfield hrequired)
    · obtain ⟨name, hname, hvalue⟩ := h.reachable
      exact ⟨name, hname, (hasValue_withoutToken payload name).mp hvalue⟩
  · intro h
    refine ⟨fun field hfield hrequired => ?_, ?_⟩
    · exact (hasValue_withoutToken payload field.name).mpr (h.required field hfield hrequired)
    · rcases h.contact with ⟨field, hfield, hrequired, hname⟩ | ⟨name, hname, hposted⟩
      · exact ⟨field.name, hname,
          (hasValue_withoutToken payload field.name).mpr (h.required field hfield hrequired)⟩
      · exact ⟨name, hname, (hasValue_withoutToken payload name).mpr hposted⟩

/-- **When a stored submission has what its form asks for.**  Nothing is checked, so it is when the visitor filled
it in. -/
theorem stored_delivers_iff {forms : Uuid → Option Form} {eventId formId : Uuid} {payload : Dict} {origin : String}
    {ip userAgent : Option String} {event : SubmissionEvent}
    (hstored : submitPublicForm nfkd sha256Hex lower forms eventId formId payload origin ip userAgent = .ok event) :
    ∃ form, getPublishedForm forms formId = some form ∧
      ∀ draft schema, validateFormSchema draft = .ok schema → form.publishedSchema = some schema →
        schema.WellFormed ∧ (Delivers schema event.rawPayload ↔ FilledIn schema payload) := by
  obtain ⟨⟨form, hform⟩, hpayload⟩ := submit_ok nfkd sha256Hex lower hstored
  refine ⟨form, hform, fun draft schema haccepted _ => ⟨wellFormed_of_validate haccepted, ?_⟩⟩
  rw [hpayload]
  exact delivers_withoutToken_iff schema payload

end Submission

/-! ## A submission with a name only -/

/-- The draft of a form that requires a name and asks for an email. -/
def contactDraft : Dict :=
  [("fields", .arr [
    .obj [("name", .str "first_name"), ("required", .bool true)],
    .obj [("name", .str "email"), ("type", .str "email")]])]

def contactSchema : FormSchema where
  fields :=
    [{ name := "first_name", type := "text", label := "First Name", required := true, options := [],
        placeholder := none, helpText := none },
      { name := "email", type := "email", label := "Email", required := false, options := [],
        placeholder := none, helpText := none }]
  consentText := none
  submitLabel := "Submit"
  successMessage := none

theorem contactDraft_accepted : validateFormSchema contactDraft = .ok contactSchema := by
  refine eq_ok_of_toOption ?_
  decide +kernel

def contactForm : Form := ⟨sampleUuid 't', true, some contactSchema, []⟩

def contactForms (id : Uuid) : Option Form := if id = sampleUuid 'f' then some contactForm else none

/-- What the API passes on for a visitor who gave a name and the email. -/
def visit (email : Json) : Dict :=
  [("first_name", .str "Asha"), ("last_name", .null), ("email", email), ("phone", .null), ("consent", .bool false),
    ("anti_abuse_token", .str "12345678"), ("utm", .obj [])]

def submitVisit (email : Json) : Except SubmitError SubmissionEvent :=
  submitPublicForm id id Py.lower contactForms (sampleUuid 'e') (sampleUuid 'f') (visit email) "" none none

theorem stored_delivers_iff_visit : ∃ event, submitVisit (.str "asha@example.com") = .ok event ∧
    ∃ form, getPublishedForm contactForms (sampleUuid 'f') = some form ∧
      ∀ draft schema, validateFormSchema draft = .ok schema → form.publishedSchema = some schema →
        schema.WellFormed ∧
          (Delivers schema event.rawPayload ↔ FilledIn schema (visit (.str "asha@example.com"))) :=
  have hstored := eq_ok_get (show (submitVisit (.str "asha@example.com")).toOption.isSome = true by decide +kernel)
  ⟨_, hstored, stored_delivers_iff id id Py.lower hstored⟩

/-- The visitor of an accepted form who gives no email and no phone is stored. -/
theorem unreachable_visit_stored : validateFormSchema contactDraft = .ok contactSchema ∧
    getPublishedForm contactForms (sampleUuid 'f') = some contactForm ∧
    contactForm.publishedSchema = some contactSchema ∧
    ∃ event, submitVisit .null = .ok event ∧ ¬ Delivers contactSchema event.rawPayload := by
  have hstored := eq_ok_get (show (submitVisit .null).toOption.isSome = true by decide +kernel)
  refine ⟨contactDraft_accepted, by decide, rfl, _, hstored, ?_⟩
  rw [(submit_ok id id Py.lower hstored).2]
  intro h
  obtain ⟨name, hname, hvalue⟩ := h.reachable
  rcases List.mem_cons.mp hname with rfl | hname
  · exact absurd hvalue (by decide)
  · rw [List.mem_singleton.mp hname] at hvalue
    exact absurd hvalue (by decide)

end RevenueOS.Leads
