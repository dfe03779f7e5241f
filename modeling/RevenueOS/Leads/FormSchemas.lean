import RevenueOS.Leads.Forms
import RevenueOS.Leads.ImportPlans
import RevenueOS.Lib.Slots
import RevenueOS.Py.Numerals

/-!
# RevenueOS.Leads.FormSchemas — the normal form of a form schema

`publish_form` validates the draft that `create_form` and `update_form` stored, which is what the validator made of it
then.  `FormSchema.toDict` is the dictionary that is stored; a schema is normal if the validator would leave every part
of it as it is, and whatever the validator returns is normal.

* `validate_toDict`: what the validator returned, it returns again.
-/

namespace RevenueOS.Leads

open RevenueOS.Py RevenueOS.Lib

/-! ## The stored dictionary -/

/-- A text or `None`. -/
def jsonOfText : Option String → Json
  | some text => .str text
  | none => .null

/-- An entry of `normalised`. -/
def FormField.toDict (field : FormField) : Dict :=
  [("name", .str field.name), ("type", .str field.type), ("label", .str field.label), ("required", .bool field.required),
    ("options", .arr (field.options.map .str)), ("placeholder", jsonOfText field.placeholder),
    ("help_text", jsonOfText field.helpText)]

/-- The dictionary that `validate_form_schema` returns. -/
def FormSchema.toDict (schema : FormSchema) : Dict :=
  [("fields", .arr (schema.fields.map fun field => .obj field.toDict)), ("consent_text", jsonOfText schema.consentText),
    ("submit_label", .str schema.submitLabel), ("success_message", jsonOfText schema.successMessage)]

section Lookups

variable (field : FormField) (schema : FormSchema)

@[simp] theorem FormField.get_name (dflt : Json) : field.toDict.getD "name" dflt = .str field.name := rfl

@[simp] theorem FormField.get_type (dflt : Json) : field.toDict.getD "type" dflt = .str field.type := rfl

@[simp] theorem FormField.get_label : field.toDict.get "label" = .str field.label := rfl

@[simp] theorem FormField.get_required (dflt : Json) : field.toDict.getD "required" dflt = .bool field.required := rfl

@[simp] theorem FormField.get_options : field.toDict.get "options" = .arr (field.options.map .str) := rfl

@[simp] theorem FormField.get_placeholder : field.toDict.get "placeholder" = jsonOfText field.placeholder := rfl

@[simp] theorem FormField.get_helpText : field.toDict.get "help_text" = jsonOfText field.helpText := rfl

@[simp] theorem FormSchema.get_fields :
    schema.toDict.get "fields" = .arr (schema.fields.map fun field => .obj field.toDict) := rfl

@[simp] theorem FormSchema.get_consentText : schema.toDict.get "consent_text" = jsonOfText schema.consentText := rfl

@[simp] theorem FormSchema.get_submitLabel : schema.toDict.get "submit_label" = .str schema.submitLabel := rfl

@[simp] theorem FormSchema.get_successMessage :
    schema.toDict.get "success_message" = jsonOfText schema.successMessage := rfl

end Lookups

/-! ## Texts that the validator leaves alone -/

/-- A text within its limit. -/
def FitsLimit (limit : ℕ) (text : String) : Prop := text ≠ "" ∧ slice text limit = text

/-- An optional text is absent or within its limit. -/
def FitsOrNone (limit : ℕ) (text : Option String) : Prop := ∀ t, text = some t → FitsLimit limit t

theorem fitsLimit_slice {text : String} (htext : text ≠ "") {limit : ℕ} (hlimit : 0 < limit) :
    FitsLimit limit (slice text limit) := by
  obtain ⟨n, rfl⟩ := Nat.exists_eq_add_of_lt hlimit
  rw [Nat.zero_add]
  refine ⟨cut_ne_empty htext n, ?_⟩
  rw [slice_slice, min_self]

theorem fitsOrNone_textOrNone (text : String) (limit : ℕ) : FitsOrNone limit (textOrNone (slice text limit)) := by
  intro t ht
  unfold textOrNone at ht
  split_ifs at ht with hempty
  cases ht
  refine ⟨hempty, ?_⟩
  rw [slice_slice, min_self]

theorem truthy_str {text : String} (h : text ≠ "") : (Json.str text).truthy = true := by
  show (text != "") = true
  exact bne_iff_ne.mpr h

theorem text_or_str {text : String} (h : text ≠ "") (other : Json) : ((Json.str text).or other).text = text := by
  unfold Json.or
  rw [if_pos (truthy_str h), Json.text_str]

/-- An optional text reads back as itself. -/
theorem textOrNone_jsonOfText {limit : ℕ} {text : Option String} (h : FitsOrNone limit text) :
    textOrNone (slice ((jsonOfText text).or (.str "")).text limit) = text := by
  cases text with
  | none => simp [jsonOfText, Json.or, Json.truthy, slice, textOrNone]
  | some t =>
    obtain ⟨hne, hslice⟩ := h t rfl
    show textOrNone (slice ((Json.str t).or (.str "")).text limit) = some t
    rw [text_or_str hne, hslice]
    exact if_neg hne

theorem floatRepr_ne_empty (q : ℚ) : floatRepr q ≠ "" := by
  unfold floatRepr
  by_cases hq : q = 0
  · rw [if_pos hq]
    decide
  · rw [if_neg hq]
    dsimp only
    intro h
    have hlist := congrArg String.toList h
    rw [String.toList_append, String.toList_ofList] at hlist
    obtain ⟨-, hbody⟩ := List.append_eq_nil_iff.mp hlist
    split_ifs at hbody <;> simp at hbody

/-- What is true says something. -/
theorem text_ne_empty {value : Json} (h : value.truthy = true) : value.text ≠ "" := by
  cases value with
  | null => cases h
  | bool b => cases b <;> decide
  | int n =>
    intro hempty
    obtain ⟨c, rest, hhead, -⟩ := intText_head n
    have hlist : (toString n).toList = "".toList := congrArg String.toList hempty
    rw [hhead] at hlist
    cases hlist
  | float q => exact floatRepr_ne_empty q
  | str s => exact bne_iff_ne.mp h
  | arr xs =>
    intro hempty
    have hlist := congrArg String.toList hempty
    simp only [Json.text, Json.repr, String.toList_append] at hlist
    cases hlist
  | obj d =>
    intro hempty
    have hlist := congrArg String.toList hempty
    simp only [Json.text, Json.repr, String.toList_append] at hlist
    cases hlist

theorem text_or_ne_empty {value other : Json} (h : other.text ≠ "") : (value.or other).text ≠ "" := by
  unfold Json.or
  split_ifs with hv
  · exact text_ne_empty hv
  · exact h

/-! ## The label made of a name -/

theorem splitAux_head (sep : List Char) : ∀ (s acc : List Char), acc ≠ [] →
    ∃ piece rest, splitAux sep 0 acc s = piece :: rest ∧ piece ≠ []
  | [], acc, h => ⟨acc.reverse, [], rfl, fun hrev => h (List.reverse_eq_nil_iff.mp hrev)⟩
  | c :: s, acc, h => by
    unfold splitAux
    split_ifs
    · exact ⟨acc.reverse, _, rfl, fun hrev => h (List.reverse_eq_nil_iff.mp hrev)⟩
    · exact splitAux_head sep s (c :: acc) (List.cons_ne_nil c acc)

theorem join_ne_empty {sep piece : String} (h : piece ≠ "") (rest : List String) : join sep (piece :: rest) ≠ "" := by
  cases rest with
  | nil => exact h
  | cons next rest =>
    intro hempty
    have hlist := congrArg String.toList hempty
    simp only [join, String.toList_append, String.toList_empty, List.append_eq_nil_iff] at hlist
    exact h (String.toList_inj.mp hlist.1.1)

theorem replace_ne_empty {name : String} {c : Char} {rest : List Char} (hname : name.toList = c :: rest)
    (hc : c ≠ '_') : replace name "_" " " ≠ "" := by
  have hsep : "_".toList = ['_'] := rfl
  have hfirst : List.isPrefixOf ['_'] (c :: rest) = false := by simp [List.isPrefixOf, Ne.symm hc]
  obtain ⟨piece, pieces, hsplit, hpiece⟩ := splitAux_head ['_'] rest [c] (List.cons_ne_nil c [])
  have hall : split name "_" = String.ofList piece :: pieces.map String.ofList := by
    unfold split
    rw [hsep, hname, splitAux, hfirst]
    simp only [Bool.false_eq_true, if_false, hsplit, List.map_cons]
  unfold replace
  rw [hall]
  refine join_ne_empty (fun hempty => hpiece ?_) _
  have hlist := congrArg String.toList hempty
  rwa [String.toList_ofList] at hlist

theorem titleOf_ne_empty {name : String} (h : isFieldName name = true) : titleOf name ≠ "" := by
  unfold isFieldName at h
  cases hname : name.toList with
  | nil =>
    rw [hname] at h
    cases h
  | cons c rest =>
    rw [hname] at h
    simp only [Bool.and_eq_true, decide_eq_true_eq] at h
    have hc : c ≠ '_' := by
      rintro rfl
      exact absurd h.1.1.1 (by decide)
    have hne := replace_ne_empty hname hc
    intro hempty
    have hlist := congrArg String.toList hempty
    unfold titleOf at hlist
    rw [String.toList_ofList] at hlist
    cases htext : (replace name "_" " ").toList with
    | nil => exact hne (String.toList_inj.mp htext)
    | cons d ds =>
      rw [htext] at hlist
      cases hlist

theorem notSpace_of_class {c : Char} (h : (('a' ≤ c && c ≤ 'z') || ('0' ≤ c && c ≤ '9') || c == '_') = true) :
    isSpace c = false := by
  have hrange : (97 ≤ c.toNat ∧ c.toNat ≤ 122) ∨ (48 ≤ c.toNat ∧ c.toNat ≤ 57) ∨ c.toNat = 95 := by
    simp only [Bool.or_eq_true, Bool.and_eq_true, decide_eq_true_eq, beq_iff_eq] at h
    rcases h with (⟨hlo, hhi⟩ | ⟨hlo, hhi⟩) | rfl
    · exact .inl ⟨hlo, hhi⟩
    · exact .inr (.inl ⟨hlo, hhi⟩)
    · exact .inr (.inr rfl)
  unfold isSpace
  rw [Bool.eq_false_iff]
  intro hspace
  rw [List.contains_iff_mem] at hspace
  simp only [List.mem_cons, List.not_mem_nil, or_false] at hspace
  omega

theorem strip_fieldName {name : String} (h : isFieldName name = true) : strip name = name := by
  refine strip_of_forall fun c hc => ?_
  unfold isFieldName at h
  cases hname : name.toList with
  | nil =>
    rw [hname] at hc
    cases hc
  | cons d rest =>
    rw [hname] at h hc
    simp only [Bool.and_eq_true, List.all_eq_true] at h
    have hclass : (('a' ≤ c && c ≤ 'z') || ('0' ≤ c && c ≤ '9') || c == '_') = true := by
      rcases List.mem_cons.mp hc with rfl | hc
      · simp [h.1.1.1, h.1.1.2]
      · exact h.2 c hc
    exact notSpace_of_class hclass

/-! ## Normal schemas -/

def FormField.IsSelect (field : FormField) : Prop := field.type = "select" ∨ field.type = "multiselect"

/-- The validator leaves every part of the field as it is. -/
structure FormField.Normal (field : FormField) : Prop where
  name : isFieldName field.name = true
  free : field.name ∉ reservedNames
  type : field.type ∈ fieldTypes
  label : FitsLimit 150 field.label
  choices : field.IsSelect → field.options ≠ [] ∧ field.options.length ≤ maxOptions ∧
    ∀ option ∈ field.options, slice option 120 = option
  plain : ¬ field.IsSelect → field.options = []
  visible : field.type = "hidden" → field.required = false
  placeholder : FitsOrNone 150 field.placeholder
  helpText : FitsOrNone 300 field.helpText

structure FormSchema.Normal (schema : FormSchema) : Prop where
  fields : ∀ field ∈ schema.fields, field.Normal
  distinct : (schema.fields.map FormField.name).Nodup
  count : schema.fields.length ≤ maxFields
  contact : ∃ field ∈ schema.fields, field.name ∈ contactFields
  consentText : FitsOrNone 1000 schema.consentText
  submitLabel : FitsLimit 60 schema.submitLabel
  successMessage : FitsOrNone 500 schema.successMessage

theorem fieldOptions_choices {name fieldType : String} {json : Json} {options : List String}
    (h : fieldOptions name fieldType json = .ok options) :
    (fieldType = "select" ∨ fieldType = "multiselect" → ∀ option ∈ options, slice option 120 = option) ∧
      (¬ (fieldType = "select" ∨ fieldType = "multiselect") → options = []) := by
  unfold fieldOptions at h
  by_cases hselect : fieldType = "select" ∨ fieldType = "multiselect"
  · rw [if_pos hselect] at h
    refine ⟨fun _ option hoption => ?_, fun hnot => absurd hselect hnot⟩
    split at h
    · split_ifs at h with hmany
      cases h
      obtain ⟨raw, -, rfl⟩ := List.mem_map.mp hoption
      rw [slice_slice, min_self]
    · cases h
  · rw [if_neg hselect] at h
    cases h
    exact ⟨fun hsel => absurd hsel hselect, fun _ => rfl⟩

/-- What the validator makes of a field is normal. -/
theorem normal_of_readField {name : String} {raw : Dict} {field : FormField} (hname : isFieldName name = true)
    (hfree : name ∉ reservedNames) (h : readField name raw = .ok field) : field.Normal := by
  obtain ⟨hsame, htype, hoptions, hvisible⟩ := readField_ok h
  unfold readField at h
  dsimp only at h
  generalize strip (raw.getD "type" (.str "text")).text = fieldType at h
  by_cases hunknown : (!fieldTypes.contains fieldType) = true
  · rw [if_pos hunknown] at h
    cases h
  rw [if_neg hunknown] at h
  cases hread : fieldOptions name fieldType ((raw.get "options").or (.arr [])) with
  | error problem =>
    rw [hread] at h
    cases h
  | ok options =>
    obtain ⟨hchoices, hplain⟩ := fieldOptions_choices hread
    rw [hread] at h
    dsimp only at h
    by_cases hhidden : fieldType = "hidden" ∧ (raw.getD "required" (.bool false)).truthy = true
    · rw [if_pos hhidden] at h
      cases h
    rw [if_neg hhidden] at h
    have hfield := Except.ok.inj h
    have hlabel : field.label = slice ((raw.get "label").or (.str (titleOf name))).text 150 := by rw [← hfield]
    have hchosen : field.type = fieldType ∧ field.options = options := by simp only [← hfield, and_self]
    have hplaceholder : ∃ text, field.placeholder = textOrNone (slice text 150) := ⟨_, by rw [← hfield]⟩
    have hhelp : ∃ text, field.helpText = textOrNone (slice text 300) := ⟨_, by rw [← hfield]⟩
    obtain ⟨text, hplaceholder⟩ := hplaceholder
    obtain ⟨help, hhelp⟩ := hhelp
    rw [← hchosen.1, ← hchosen.2] at hchoices hplain
    refine ⟨by rw [hsame, hname], by rwa [hsame], htype, ?_, ?_, hplain, hvisible, ?_, ?_⟩
    · have htitle : (Json.str (titleOf name)).text ≠ "" := by
        rw [Json.text_str]
        exact titleOf_ne_empty hname
      rw [hlabel]
      exact fitsLimit_slice (text_or_ne_empty htitle) (by omega)
    · exact fun hsel => ⟨(hoptions hsel).1, (hoptions hsel).2, hchoices hsel⟩
    · rw [hplaceholder]
      exact fitsOrNone_textOrNone text 150
    · rw [hhelp]
      exact fitsOrNone_textOrNone help 300

theorem SchemaReading.normal_read {s : SchemaReading} {index : ℕ} {raw : Json}
    (h : ∀ field ∈ s.normalised, field.Normal) : ∀ field ∈ (s.read index raw).normalised, field.Normal := by
  unfold SchemaReading.read
  split
  · rename_i raw
    cases hname : fieldName index s.seen raw with
    | error problem => exact h
    | ok name =>
      obtain ⟨hvalid, hfree, -⟩ := fieldName_ok hname
      dsimp only
      cases hfield : readField name raw with
      | error problem => exact h
      | ok field => exact forall_mem_concat h (normal_of_readField hvalid hfree hfield)
  · exact h

theorem SchemaReading.normal_readAll : ∀ (raws : List Json) (s : SchemaReading) (index : ℕ),
    (∀ field ∈ s.normalised, field.Normal) → ∀ field ∈ (s.readAll index raws).normalised, field.Normal
  | [], _, _, h => h
  | raw :: raws, s, index, h => normal_readAll raws (s.read index raw) (index + 1) (normal_read h)

theorem normal_of_validate {raw : Dict} {schema : FormSchema} (h : validateFormSchema raw = .ok schema) :
    schema.Normal := by
  obtain ⟨-, hdistinct, hcount, hcontact⟩ := wellFormed_of_validate h
  unfold validateFormSchema at h
  split at h
  · rename_i field rest hraw
    dsimp only at h
    split_ifs at h with hmany hproblems hseen
    obtain rfl := Except.ok.inj h
    refine ⟨?_, hdistinct, hcount, hcontact, fitsOrNone_textOrNone _ _, ?_, fitsOrNone_textOrNone _ _⟩
    · exact SchemaReading.normal_readAll (field :: rest) _ 0 (by simp)
    · exact fitsLimit_slice (text_or_ne_empty (by decide)) (by omega)
  · cases h

/-! ## A normal schema is accepted as it is -/

theorem strip_fieldType {fieldType : String} (h : fieldType ∈ fieldTypes) : strip fieldType = fieldType := by
  have hall : fieldTypes.all (fun t => strip t == t) = true := by decide
  exact beq_iff_eq.mp (List.all_eq_true.mp hall fieldType h)

theorem FormField.Normal.fieldName {field : FormField} (h : field.Normal) {index : ℕ} {seen : List String}
    (hnew : field.name ∉ seen) : fieldName index seen field.toDict = .ok field.name := by
  have hstrip : strip (field.toDict.getD "name" (.str "")).text = field.name := by
    rw [FormField.get_name, Json.text_str, strip_fieldName h.name]
  have hreserved : reservedNames.contains field.name = false := by
    rw [← Bool.not_eq_true, List.contains_iff_mem]
    exact h.free
  have hseen : seen.contains field.name = false := by
    rw [← Bool.not_eq_true, List.contains_iff_mem]
    exact hnew
  unfold Leads.fieldName
  simp only [hstrip, h.name, hreserved, hseen, Bool.not_true, Bool.false_eq_true, if_false]

theorem FormField.Normal.fieldOptions {field : FormField} (h : field.Normal) :
    fieldOptions field.name field.type ((field.toDict.get "options").or (.arr [])) = .ok field.options := by
  rw [FormField.get_options]
  unfold Leads.fieldOptions
  by_cases hselect : field.type = "select" ∨ field.type = "multiselect"
  · obtain ⟨hne, hcount, hfit⟩ := h.choices hselect
    rw [if_pos hselect]
    cases hoptions : field.options with
    | nil => exact absurd hoptions hne
    | cons option rest =>
      rw [hoptions] at hcount hfit
      have hcut : (List.map Json.str (option :: rest)).map (fun o => slice o.text 120) = option :: rest := by
        rw [List.map_map]
        exact (List.map_congr_left hfit).trans (List.map_id _)
      have hmany : ¬ maxOptions < (List.map Json.str (option :: rest)).length := by
        rw [List.length_map]
        omega
      show (if maxOptions < (List.map Json.str (option :: rest)).length then _ else Except.ok _) = _
      rw [if_neg hmany]
      exact congrArg Except.ok hcut
  · rw [if_neg hselect, h.plain hselect]

theorem FormField.Normal.readField {field : FormField} (h : field.Normal) :
    readField field.name field.toDict = .ok field := by
  have htype : strip (field.toDict.getD "type" (.str "text")).text = field.type := by
    rw [FormField.get_type, Json.text_str, strip_fieldType h.type]
  have hhidden : ¬ (field.type = "hidden" ∧ (field.toDict.getD "required" (.bool false)).truthy = true) := by
    rintro ⟨hhidden, hrequired⟩
    rw [FormField.get_required, Json.truthy, h.visible hhidden] at hrequired
    cases hrequired
  unfold Leads.readField
  simp only [htype, List.contains_iff_mem.mpr h.type, Bool.not_true, Bool.false_eq_true, if_false, h.fieldOptions,
    if_neg hhidden]
  rw [FormField.get_label, text_or_str h.label.1, h.label.2, FormField.get_placeholder, FormField.get_helpText,
    textOrNone_jsonOfText h.placeholder, textOrNone_jsonOfText h.helpText, FormField.get_required]
  rfl

theorem SchemaReading.readAll_toDict : ∀ (fields : List FormField) (s : SchemaReading) (index : ℕ),
    (∀ field ∈ fields, field.Normal) → (s.seen ++ fields.map FormField.name).Nodup →
      s.readAll index (fields.map fun field => .obj field.toDict) =
        ⟨s.problems, s.normalised ++ fields, s.seen ++ fields.map FormField.name⟩
  | [], s, _, _, _ => by simp [SchemaReading.readAll]
  | field :: fields, s, index, hnormal, hdistinct => by
    have hfield := hnormal field (List.mem_cons_self ..)
    have hnew : field.name ∉ s.seen := by
      intro hseen
      exact (List.nodup_append.mp hdistinct).2.2 _ hseen _ (List.mem_cons_self ..) rfl
    have hread : s.read index (.obj field.toDict) =
        ⟨s.problems, s.normalised ++ [field], s.seen ++ [field.name]⟩ := by
      unfold SchemaReading.read
      simp only [hfield.fieldName hnew, hfield.readField]
    have hrest : ((s.seen ++ [field.name]) ++ fields.map FormField.name).Nodup := by
      rw [List.append_assoc]
      exact hdistinct
    rw [List.map_cons, SchemaReading.readAll, hread, readAll_toDict fields ⟨s.problems, s.normalised ++ [field], s.seen ++ [field.name]⟩ (index + 1)
      (fun f hf => hnormal f (List.mem_cons_of_mem _ hf)) hrest]
    simp only [List.append_assoc, List.map_cons, List.singleton_append]

theorem FormSchema.Normal.validate {schema : FormSchema} (h : schema.Normal) :
    validateFormSchema schema.toDict = .ok schema := by
  obtain ⟨contact, hcontact, hname⟩ := h.contact
  unfold validateFormSchema
  rw [FormSchema.get_fields]
  cases hfields : schema.fields with
  | nil =>
    rw [hfields] at hcontact
    cases hcontact
  | cons field rest =>
    have hread := SchemaReading.readAll_toDict (field :: rest) ⟨[], [], []⟩ 0 (hfields ▸ h.fields)
      (hfields ▸ h.distinct)
    have hany : ((field :: rest).map FormField.name).any contactFields.contains = true := by
      rw [hfields] at hcontact
      exact List.any_eq_true.mpr ⟨contact.name, List.mem_map_of_mem hcontact, List.contains_iff_mem.mpr hname⟩
    have hmany : ¬ maxFields < ((field :: rest).map fun f => Json.obj f.toDict).length := by
      rw [List.length_map, ← hfields]
      exact Nat.not_lt.mpr h.count
    simp only [List.map_cons] at hread hmany hany ⊢
    simp only [if_neg hmany, hread, List.nil_append, hany, ne_eq, not_true_eq_false, if_false, Bool.not_true,
      Bool.false_eq_true]
    rw [FormSchema.get_submitLabel, text_or_str h.submitLabel.1, h.submitLabel.2, FormSchema.get_consentText,
      FormSchema.get_successMessage, textOrNone_jsonOfText h.consentText, textOrNone_jsonOfText h.successMessage,
      ← hfields]

/-- **What the validator returned, it returns again**: whoever stores it and validates it later gets the same schema. -/
theorem validate_toDict {raw : Dict} {schema : FormSchema} (h : validateFormSchema raw = .ok schema) :
    validateFormSchema schema.toDict = .ok schema :=
  (normal_of_validate h).validate

theorem contactDraft_again : validateFormSchema contactSchema.toDict = .ok contactSchema :=
  validate_toDict contactDraft_accepted

end RevenueOS.Leads
