import RevenueOS.Leads.Lifecycle
import Mathlib.Data.List.TakeWhile

/-!
# RevenueOS.Leads.Importing — judging the rows of an import

`domain/leads/importing.py` and `neutralise_formula` of `shared/utils/spreadsheet.py`.

`str.lower` is a parameter: the Unicode mapping has a context rule for the final sigma, and all that is used of it
is that it is idempotent.  A cell is what `csv.DictReader` gives: a text, `None` for a missing one, a list for
surplus ones.

* `mem_accepted`: an accepted row is a row of the file that was judged without a reason against it.
-/

namespace RevenueOS.Leads

open RevenueOS.Py

/-! ## Texts -/

/-- A `dict` of texts, in insertion order. -/
abbrev Texts := List (String × String)

namespace Texts

/-- `d.get(k, "")`; the texts a row has are not empty. -/
def get (d : Texts) (k : String) : String := (d.lookup k).getD ""

/-- `d[k] = v`. -/
def set : Texts → String → String → Texts
  | [], k, v => [(k, v)]
  | (k', v') :: d, k, v => if k = k' then (k', v) :: d else (k', v') :: set d k v

/-- `d.pop(k, None)`. -/
def pop (d : Texts) (k : String) : Texts := d.filter (fun kv => kv.1 ≠ k)

theorem set_eq (k v : String) : ∀ d : Texts, d.set k v = Lib.assocSet d k v
  | [] => rfl
  | (k', v') :: d => by rw [set, Lib.assocSet, set_eq k v d]

theorem lookup_set (d : Texts) (k k' v : String) :
    (d.set k v).lookup k' = if k' = k then some v else d.lookup k' := by
  rw [set_eq, Lib.lookup_assocSet]

theorem nodup_set {d : Texts} {k v : String} (h : (d.map (·.1)).Nodup) : ((d.set k v).map (·.1)).Nodup := by
  rw [set_eq]
  exact Lib.nodup_assocSet h

theorem get_set (k k' v : String) (d : Texts) : (d.set k v).get k' = if k' = k then v else d.get k' := by
  unfold get
  rw [lookup_set]
  split_ifs
  · rfl
  · rfl

end Texts

/-- `d[k] = v` for a `dict` of values. -/
def setValue : Dict → String → Json → Dict
  | [], k, v => [(k, v)]
  | (k', v') :: d, k, v => if k = k' then (k', v) :: d else (k', v') :: setValue d k v

theorem setValue_eq (k : String) (v : Json) : ∀ d : Dict, setValue d k v = Lib.assocSet d k v
  | [] => rfl
  | (k', v') :: d => by rw [setValue, Lib.assocSet, setValue_eq k v d]

theorem lookup_setValue (d : Dict) (k k' : String) (v : Json) :
    (setValue d k v).lookup k' = if k' = k then some v else d.lookup k' := by
  rw [setValue_eq, Lib.lookup_assocSet]

theorem nodup_setValue {d : Dict} {k : String} {v : Json} (h : (d.map (·.1)).Nodup) :
    ((setValue d k v).map (·.1)).Nodup := by
  rw [setValue_eq]
  exact Lib.nodup_assocSet h

/-- `re.sub(r"\D", "", value)`: the decimal digits of any script. -/
def digitsOf (value : String) : List Char := value.toList.filter (fun c => (decimalValue? c).isSome)

/-- `normalise_phone_digits`: the last ten digits. -/
def normalisePhoneDigits (value : String) : String :=
  let digits := digitsOf value
  if 10 ≤ digits.length then String.ofList (digits.drop (digits.length - 10)) else String.ofList digits

/-- `FORMULA_PREFIXES`. -/
def formulaPrefixes : List Char := ['=', '+', '-', '@']

/-- `neutralise_formula`. -/
def neutraliseFormula (value : String) : String :=
  match value.toList.dropWhile (fun c => ['\t', '\r', '\n'].contains c) with
  | [] => value
  | c :: rest =>
    if !formulaPrefixes.contains c then value
    else if c == '-' && (rest.take 1).any isDigit then value
    else "'" ++ value

/-- `_EMAIL`: something, an at sign, a label, a dot and at least two more characters; no space and no other at
sign. -/
def isEmail (email : String) : Bool :=
  match email.toList.span (· != '@') with
  | (name, _ :: domain) =>
    let label := domain.takeWhile (· != '.')
    let rest := (domain.dropWhile (· != '.')).drop 1
    !name.isEmpty && !label.isEmpty && 2 ≤ rest.length && !domain.contains '@' &&
      !(name ++ domain).any isSpace
  | (_, []) => false

/-! ## Columns -/

/-- `MAX_ROWS`. -/
def maxRows : ℕ := 10000

/-- `MAX_COLUMNS`. -/
def maxColumns : ℕ := 80

/-- `IMPORTABLE_FIELDS`. -/
def importableFields : List String :=
  ["first_name", "last_name", "email", "phone", "source", "source_channel", "company", "title", "city", "notes",
    "website", "industry", "requirement"]

/-- `CAPTURE_FIELDS`. -/
def captureFields : List String := ["company", "title", "city", "notes", "website", "industry", "requirement"]

/-- `HEADER_ALIASES`. -/
def headerAliases : List (String × String) :=
  [("first name", "first_name"), ("firstname", "first_name"), ("given name", "first_name"),
    ("last name", "last_name"), ("lastname", "last_name"), ("surname", "last_name"), ("full name", "first_name"),
    ("name", "first_name"), ("email", "email"), ("email address", "email"), ("e-mail", "email"), ("mail", "email"),
    ("phone", "phone"), ("phone number", "phone"), ("mobile", "phone"), ("mobile number", "phone"),
    ("contact number", "phone"), ("company", "company"), ("organisation", "company"), ("organization", "company"),
    ("account", "company"), ("title", "title"), ("designation", "title"), ("job title", "title"), ("city", "city"),
    ("location", "city"), ("source", "source"), ("lead source", "source"), ("notes", "notes"),
    ("comments", "notes"), ("business", "company"), ("business name", "company"), ("shop name", "company"),
    ("firm", "company"), ("area", "city"), ("website", "website"), ("site", "website"), ("url", "website"),
    ("web", "website"), ("industry", "industry"), ("category", "industry"), ("business type", "industry"),
    ("sector", "industry"), ("requirement", "requirement"), ("pain", "requirement"), ("problem", "requirement"),
    ("reason", "requirement"), ("why", "requirement"), ("contact person", "first_name"),
    ("owner name", "first_name"), ("contact", "first_name")]

/-- A column mapping: the field each header stands for, if any. -/
abbrev Mapping := List (String × Option String)

def Mapping.set : Mapping → String → Option String → Mapping
  | [], k, v => [(k, v)]
  | (k', v') :: m, k, v => if k = k' then (k', v) :: m else (k', v') :: Mapping.set m k v

section Lower

variable (lower : String → String)

/-- The loop of `suggest_mapping`. -/
def suggestFrom : List String → List String → Mapping → Mapping
  | [], _, mapping => mapping
  | header :: headers, claimed, mapping =>
    let key := replace (lower (strip header)) "_" " "
    let field := replace key " " "_"
    let target := (headerAliases.lookup key).or (if importableFields.contains field then some field else none)
    match target with
    | none => suggestFrom headers claimed (mapping.set header none)
    | some t =>
      if claimed.contains t then suggestFrom headers claimed (mapping.set header none)
      else suggestFrom headers (t :: claimed) (mapping.set header (some t))

/-- `suggest_mapping`. -/
def suggestMapping (headers : List String) : Mapping := suggestFrom lower headers [] []

/-- The loop of `validate_mapping`: what it resolves, the fields it has seen and the problems. -/
def resolveMapping : Mapping → Texts → List String → Texts × List String
  | [], resolved, problems => (resolved, problems)
  | (_, none) :: rest, resolved, problems => resolveMapping rest resolved problems
  | (header, some target) :: rest, resolved, problems =>
    if !importableFields.contains target then
      resolveMapping rest resolved (problems ++ [Py.reprStr target ++ " is not a field an import can set."])
    else if (resolved.map Prod.snd).contains target then
      resolveMapping rest resolved (problems ++ ["Two columns are both mapped to " ++ Py.reprStr target ++ "."])
    else resolveMapping rest (resolved ++ [(header, target)]) problems

/-- `validate_mapping`. -/
def validateMapping (mapping : Mapping) : Except LeadError Texts :=
  if maxColumns < mapping.length then .error (.validation "A file may have at most 80 columns.")
  else
    let (resolved, problems) := resolveMapping mapping [] []
    let seen := resolved.map Prod.snd
    let problems := problems ++
      (if seen.contains "email" || seen.contains "phone" then []
        else ["Map a column to email or phone; leads must be contactable."]) ++
      (if seen.contains "first_name" || seen.contains "company" then []
        else ["Map a column to the contact person or the business name."])
    if problems.isEmpty then .ok resolved else .error (.validation "This column mapping is not usable.")

/-! ## Rows -/

structure AcceptedRow where
  rowNumber : ℕ
  values : Texts
  capture : Dict
  dedupeValue : String

structure RejectedRow where
  rowNumber : ℕ
  reasons : List String
  raw : Dict

structure ImportPlan where
  accepted : List AcceptedRow
  rejected : List RejectedRow

/-- `str(raw.get(header, "") or "").strip()`. -/
def cellText (raw : Dict) (header : String) : String :=
  strip ((raw.getD header (.str "")).or (.str "")).text

/-- The loop over the mapped columns. -/
def readMapped (raw : Dict) : Texts → Texts × Dict → Texts × Dict
  | [], read => read
  | (header, target) :: mapping, (values, capture) =>
    let cell := cellText raw header
    if cell = "" then readMapped raw mapping (values, capture)
    else if captureFields.contains target then
      readMapped raw mapping (values, setValue capture target (.str (neutraliseFormula (slice cell 500))))
    else readMapped raw mapping (values.set target cell, capture)

/-- The loop over the other columns. -/
def readExtra (mapping : Texts) : Dict → Dict → Dict
  | [], extra => extra
  | (header, cell) :: raw, extra =>
    if (mapping.map Prod.fst).contains header || strip (cell.or (.str "")).text = "" then readExtra mapping raw extra
    else readExtra mapping raw (setValue extra (slice header 60) (.str (neutraliseFormula (slice cell.text 500))))

/-- A row before it is compared with the rows above it. -/
structure JudgedRow where
  values : Texts
  capture : Dict
  reasons : List String
  email : String
  phoneDigits : String

/-- `dedupe_value`. -/
def JudgedRow.dedupeValue (row : JudgedRow) : String := if row.email = "" then row.phoneDigits else row.email

/-- The name a row gets: the contact person, else the business. -/
def nameRow (values : Texts) (capture : Dict) : Texts × Dict × List String :=
  let (values, capture) :=
    if values.get "first_name" = "" && (capture.get "company").truthy then
      (values.set "first_name" (slice (capture.get "company").text 120),
        setValue capture "name_is_business" (.bool true))
    else (values, capture)
  if values.get "first_name" = "" then (values, capture, ["no contact person and no business name"])
  else (values.set "first_name" (neutraliseFormula (slice (values.get "first_name") 120)), capture, [])

/-- The email of a row: its values, the address and the reasons against it. -/
def judgeEmail (values : Texts) : Texts × String × List String :=
  let email := lower (values.get "email")
  if values.get "email" = "" then (values, "", [])
  else if !isEmail email || 320 < email.length then
    (values, "", [Py.reprStr email ++ " is not a valid email address"])
  else (values.set "email" email, email, [])

/-- The phone of a row. -/
def judgePhone (values : Texts) : Texts × String × List String :=
  let phone := values.get "phone"
  let digits := normalisePhoneDigits phone
  if phone = "" then (values, "", [])
  else if digits.length < 10 then
    (values.pop "phone", "", [Py.reprStr phone ++ " is not a usable phone number"])
  else (values.set "phone" (slice phone 20), digits, [])

/-- The contact and the source of a row that has its name. -/
def judgeContact (defaultSource : String) (named : Texts × Dict × List String) : JudgedRow :=
  let (values, email, emailReasons) := judgeEmail lower named.1
  let (values, phoneDigits, phoneReasons) := judgePhone values
  let contactReasons := if email = "" ∧ phoneDigits = "" then
    ["no usable email or phone; this lead could not be contacted"] else []
  let source := if (values.lookup "source").isSome then values.get "source" else defaultSource
  { values := values.set "source" (slice source 80)
    capture := named.2.1
    reasons := named.2.2 ++ emailReasons ++ phoneReasons ++ contactReasons
    email := email
    phoneDigits := phoneDigits }

/-- The body of the loop of `plan_import`, up to the comparison with the rows above. -/
def judgeRow (mapping : Texts) (defaultSource : String) (raw : Dict) : JudgedRow :=
  let (values, capture) := readMapped raw mapping ([], [])
  let extra := readExtra mapping raw []
  let capture := if extra.isEmpty then capture else setValue capture "extra" (.obj extra)
  judgeContact lower defaultSource (nameRow values capture)

/-- The reason against a row whose value a row above has. -/
def repeatReasons (seen : List (String × ℕ)) (dedupeValue : String) : List String :=
  if dedupeValue = "" then []
  else
    match seen.lookup dedupeValue with
    | some first => ["duplicate of row " ++ toString first ++ " in this file"]
    | none => []

/-- The loop of `plan_import`; `seen` is `seen_in_file`. -/
def planRows (mapping : Texts) (defaultSource : String) : List Dict → ℕ → List (String × ℕ) → ImportPlan
  | [], _, _ => ⟨[], []⟩
  | raw :: rows, rowNumber, seen =>
    let row := judgeRow lower mapping defaultSource raw
    let reasons := row.reasons ++ repeatReasons seen row.dedupeValue
    if reasons.isEmpty then
      let plan := planRows mapping defaultSource rows (rowNumber + 1) ((row.dedupeValue, rowNumber) :: seen)
      ⟨⟨rowNumber, row.values, row.capture, row.dedupeValue⟩ :: plan.accepted, plan.rejected⟩
    else
      let plan := planRows mapping defaultSource rows (rowNumber + 1) seen
      ⟨plan.accepted, ⟨rowNumber, reasons, raw⟩ :: plan.rejected⟩

/-- `plan_import`. -/
def planImport (rows : List Dict) (mapping : Texts) (defaultSource : String) : Except LeadError ImportPlan :=
  if rows.isEmpty then .error (.validation "This file has no data rows.")
  else if maxRows < rows.length then .error (.validation "An import may carry at most 10000 rows.")
  else .ok (planRows lower mapping defaultSource rows 2 [])

/-! ## What a row is judged by -/

/-- The cell of a row under the column of a field. -/
def fieldCell (mapping : Texts) (raw : Dict) (field : String) : String := (readMapped raw mapping ([], [])).1.get field

theorem nameRow_get (values : Texts) (capture : Dict) {field : String} (h : field ≠ "first_name") :
    (nameRow values capture).1.get field = values.get field := by
  unfold nameRow
  split
  · rename_i values' capture' heq
    have hsame : values'.get field = values.get field := by
      split_ifs at heq
      · obtain ⟨rfl, -⟩ := Prod.mk.inj heq
        rw [Texts.get_set, if_neg h]
      · obtain ⟨rfl, -⟩ := Prod.mk.inj heq
        rfl
    split_ifs
    · exact hsame
    · rw [Texts.get_set, if_neg h, hsame]

variable {lower}

theorem at_of_isEmail {email : String} (h : isEmail email = true) : '@' ∈ email.toList := by
  by_contra hnone
  have hdrop : email.toList.dropWhile (· != '@') = [] := by
    rw [List.dropWhile_eq_nil_iff]
    intro c hc
    rw [bne_iff_ne]
    rintro rfl
    exact hnone hc
  unfold isEmail at h
  rw [List.span_eq_takeWhile_dropWhile, hdrop] at h
  cases h

/-- The comparison form has decimal digits only, at most ten of them. -/
theorem digits_normalisePhoneDigits {value : String} {c : Char} (h : c ∈ (normalisePhoneDigits value).toList) :
    (decimalValue? c).isSome = true := by
  have hmem : c ∈ digitsOf value := by
    unfold normalisePhoneDigits at h
    dsimp only at h
    split_ifs at h
    · rw [String.toList_ofList] at h
      exact List.mem_of_mem_drop h
    · rwa [String.toList_ofList] at h
  exact (List.mem_filter.mp hmem).2

theorem length_normalisePhoneDigits (value : String) :
    (normalisePhoneDigits value).length = min 10 (digitsOf value).length := by
  unfold normalisePhoneDigits
  dsimp only
  split_ifs with h
  · rw [← String.length_toList, String.toList_ofList, List.length_drop]
    omega
  · rw [← String.length_toList, String.toList_ofList]
    omega

/-- An email without a reason against it is the cell in lower case, or missing like the cell. -/
theorem judgeEmail_accepted {values : Texts} (h : (judgeEmail lower values).2.2 = []) :
    (judgeEmail lower values).2.1 = (if values.get "email" = "" then "" else lower (values.get "email")) ∧
      (values.get "email" ≠ "" → '@' ∈ (judgeEmail lower values).2.1.toList) ∧
      (judgeEmail lower values).1.get "email" = (judgeEmail lower values).2.1 ∧
      (judgeEmail lower values).1.get "phone" = values.get "phone" := by
  unfold judgeEmail at h ⊢
  dsimp only at h ⊢
  split_ifs at h ⊢ with hempty hinvalid
  · exact ⟨rfl, fun hne => absurd hempty hne, hempty, rfl⟩
  · refine ⟨rfl, fun _ => ?_, ?_, ?_⟩
    · rw [Bool.or_eq_true, not_or, Bool.not_eq_true', Bool.not_eq_false] at hinvalid
      exact at_of_isEmail hinvalid.1
    · rw [Texts.get_set, if_pos rfl]
    · rw [Texts.get_set, if_neg (by decide)]

/-- A phone without a reason against it is stored cut to twenty characters, and compared by the digits of the
whole cell. -/
theorem judgePhone_accepted {values : Texts} (h : (judgePhone values).2.2 = []) :
    (judgePhone values).2.1 = (if values.get "phone" = "" then "" else normalisePhoneDigits (values.get "phone")) ∧
      (values.get "phone" ≠ "" → 10 ≤ (digitsOf (values.get "phone")).length) ∧
      (judgePhone values).1.get "phone" = slice (values.get "phone") 20 ∧
      (judgePhone values).1.get "email" = values.get "email" := by
  unfold judgePhone at h ⊢
  dsimp only at h ⊢
  split_ifs at h ⊢ with hempty hshort
  · refine ⟨rfl, fun hne => absurd hempty hne, ?_, rfl⟩
    rw [hempty]
    rfl
  · refine ⟨rfl, fun _ => ?_, ?_, ?_⟩
    · rw [length_normalisePhoneDigits] at hshort
      omega
    · rw [Texts.get_set, if_pos rfl]
    · rw [Texts.get_set, if_neg (by decide)]

/-- What an accepted row compares and stores, from the cells of the file. -/
structure Contactable (lower : String → String) (email phone : String) (row : JudgedRow) : Prop where
  email_eq : row.email = if email = "" then "" else lower email
  email_at : email ≠ "" → '@' ∈ row.email.toList
  phoneDigits_eq : row.phoneDigits = if phone = "" then "" else normalisePhoneDigits phone
  phone_ten : phone ≠ "" → 10 ≤ (digitsOf phone).length
  stored_email : row.values.get "email" = row.email
  stored_phone : row.values.get "phone" = slice phone 20
  some_contact : email ≠ "" ∨ phone ≠ ""

theorem judgeContact_accepted {defaultSource : String} {named : Texts × Dict × List String}
    (h : (judgeContact lower defaultSource named).reasons = []) :
    Contactable lower (named.1.get "email") (named.1.get "phone") (judgeContact lower defaultSource named) := by
  unfold judgeContact at h ⊢
  dsimp only at h ⊢
  rw [List.append_eq_nil_iff, List.append_eq_nil_iff, List.append_eq_nil_iff] at h
  obtain ⟨⟨⟨-, hemail⟩, hphone⟩, hcontact⟩ := h
  obtain ⟨hemail_eq, hemail_at, hemail_stored, hphone_kept⟩ := judgeEmail_accepted hemail
  obtain ⟨hdigits_eq, hten, hphone_stored, hemail_kept⟩ := judgePhone_accepted hphone
  rw [hphone_kept] at hdigits_eq hten hphone_stored
  refine ⟨hemail_eq, hemail_at, hdigits_eq, hten, ?_, ?_, ?_⟩
  · dsimp only
    rw [Texts.get_set, if_neg (by decide), hemail_kept, hemail_stored]
  · dsimp only
    rw [Texts.get_set, if_neg (by decide), hphone_stored]
  · by_contra hnone
    rw [not_or, not_not, not_not] at hnone
    rw [hemail_eq, hdigits_eq, if_pos hnone.1, if_pos hnone.2, if_pos ⟨rfl, rfl⟩] at hcontact
    cases hcontact

theorem judgeRow_accepted {mapping : Texts} {defaultSource : String} {raw : Dict}
    (h : (judgeRow lower mapping defaultSource raw).reasons = []) :
    Contactable lower (fieldCell mapping raw "email") (fieldCell mapping raw "phone")
      (judgeRow lower mapping defaultSource raw) := by
  unfold judgeRow at h ⊢
  dsimp only at h ⊢
  have hcontact := judgeContact_accepted h
  rw [nameRow_get _ _ (by decide), nameRow_get _ _ (by decide)] at hcontact
  exact hcontact

/-- The row of the file an accepted row was made from. -/
def AcceptedFrom (lower : String → String) (mapping : Texts) (defaultSource : String) (raw : Dict)
    (row : AcceptedRow) : Prop :=
  (judgeRow lower mapping defaultSource raw).reasons = [] ∧
    row.values = (judgeRow lower mapping defaultSource raw).values ∧
    row.dedupeValue = (judgeRow lower mapping defaultSource raw).dedupeValue

/-- An accepted row is the judgement, without a reason, of the row of the file its number says. -/
theorem accepted_eq {mapping : Texts} {defaultSource : String} {row : AcceptedRow} {rows : List Dict} {rowNumber : ℕ}
    {seen : List (String × ℕ)} (h : row ∈ (planRows lower mapping defaultSource rows rowNumber seen).accepted) :
    ∃ i raw judged, rows[i]? = some raw ∧ judgeRow lower mapping defaultSource raw = judged ∧ judged.reasons = [] ∧
      row = ⟨rowNumber + i, judged.values, judged.capture, judged.dedupeValue⟩ := by
  induction rows generalizing rowNumber seen with
  | nil => exact absurd h List.not_mem_nil
  | cons raw rows ih =>
    -- a later row is found in the rest of the file
    have hlater : ∀ {seen'}, row ∈ (planRows lower mapping defaultSource rows (rowNumber + 1) seen').accepted →
        ∃ i raw' judged, (raw :: rows)[i]? = some raw' ∧ judgeRow lower mapping defaultSource raw' = judged ∧
          judged.reasons = [] ∧ row = ⟨rowNumber + i, judged.values, judged.capture, judged.dedupeValue⟩ := by
      intro seen' hmem
      obtain ⟨i, raw', judged, hraw, hjudged, hreasons, hrow⟩ := ih hmem
      refine ⟨i + 1, raw', judged, hraw, hjudged, hreasons, ?_⟩
      rw [hrow, Nat.add_right_comm]
      rfl
    obtain ⟨judged, hjudged⟩ : ∃ judged, judgeRow lower mapping defaultSource raw = judged := ⟨_, rfl⟩
    unfold planRows at h
    rw [hjudged] at h
    dsimp only at h
    split_ifs at h with hreasons
    · rcases List.mem_cons.mp h with heq | h
      · exact ⟨0, raw, judged, rfl, hjudged, (List.append_eq_nil_iff.mp (List.isEmpty_iff.mp hreasons)).1, heq⟩
      · exact hlater h
    · exact hlater h

/-- Every accepted row was made from the row of the file its number says. -/
theorem mem_accepted {mapping : Texts} {defaultSource : String} {row : AcceptedRow} {rows : List Dict} {rowNumber : ℕ}
    {seen : List (String × ℕ)} (h : row ∈ (planRows lower mapping defaultSource rows rowNumber seen).accepted) :
    ∃ i raw, rows[i]? = some raw ∧ row.rowNumber = rowNumber + i ∧
      AcceptedFrom lower mapping defaultSource raw row := by
  obtain ⟨i, raw, judged, hraw, hjudged, hreasons, rfl⟩ := accepted_eq h
  refine ⟨i, raw, hraw, rfl, ?_⟩
  unfold AcceptedFrom
  rw [hjudged]
  exact ⟨hreasons, rfl, rfl⟩

theorem judgeContact_defaultSource (source source' : String) (named : Texts × Dict × List String) :
    (judgeContact lower source named).reasons = (judgeContact lower source' named).reasons ∧
      (judgeContact lower source named).dedupeValue = (judgeContact lower source' named).dedupeValue := by
  unfold judgeContact JudgedRow.dedupeValue
  dsimp only
  exact ⟨rfl, rfl⟩

theorem judgeRow_defaultSource (mapping : Texts) (source source' : String) (raw : Dict) :
    (judgeRow lower mapping source raw).reasons = (judgeRow lower mapping source' raw).reasons ∧
      (judgeRow lower mapping source raw).dedupeValue = (judgeRow lower mapping source' raw).dedupeValue := by
  unfold judgeRow
  exact judgeContact_defaultSource source source' _

/-- The default source decides neither what is accepted nor what is compared. -/
theorem accepted_defaultSource {mapping : Texts} (source source' : String) (rows : List Dict) (rowNumber : ℕ)
    (seen : List (String × ℕ)) :
    (planRows lower mapping source rows rowNumber seen).accepted.map (fun row => (row.rowNumber, row.dedupeValue)) =
      (planRows lower mapping source' rows rowNumber seen).accepted.map
        (fun row => (row.rowNumber, row.dedupeValue)) := by
  induction rows generalizing rowNumber seen with
  | nil => rfl
  | cons raw rows ih =>
    obtain ⟨hreasons, hvalue⟩ := @judgeRow_defaultSource lower mapping source source' raw
    unfold planRows
    dsimp only
    rw [hreasons, hvalue]
    split_ifs
    · rw [List.map_cons, List.map_cons, ih]
    · exact ih _ _

end Lower

end RevenueOS.Leads
