import RevenueOS.Leads.Importing
import RevenueOS.Lib.Except

/-!
# RevenueOS.Leads.Formulas — formulas in imported text

`looks_like_formula` (`shared/utils/spreadsheet.py`) against the texts that `plan_import` keeps of a row.  The name
and what is captured go through `neutralise_formula`; the last name, the email, the source, the source channel and
the headers of the other columns do not, and `neutralise_formula` leaves alone whatever starts with a minus sign and
a digit.

* `safeText_neutraliseFormula`: what `neutralise_formula` makes safe.
* `formulaSafe_iff`: when an accepted row has no formula in it.
-/

namespace RevenueOS.Leads

open RevenueOS.Py RevenueOS.Lib

/-! ## Formulas -/

/-- `value.lstrip("".join(_CONTROL_LEADS))`. -/
def leadIn (value : String) : List Char := value.toList.dropWhile (fun c => ['\t', '\r', '\n'].contains c)

/-- `looks_like_formula`. -/
def looksLikeFormula (value : String) : Bool :=
  match leadIn value with
  | [] => false
  | c :: _ => formulaPrefixes.contains c

def isDecimal (c : Char) : Bool := (decimalValue? c).isSome

/-- Digits, or digits with a decimal point between them. -/
def isPlainNumber (text : List Char) : Bool :=
  !(text.takeWhile isDecimal).isEmpty &&
    match text.dropWhile isDecimal with
    | [] => true
    | c :: fraction => c == '.' && !fraction.isEmpty && fraction.all isDecimal

/-- A plain negative number: a minus sign and a plain number. -/
def isPlainNegative (value : String) : Bool :=
  match leadIn value with
  | [] => false
  | c :: rest => c == '-' && isPlainNumber rest

/-- No formula, but for plain negative numbers. -/
def safeText (value : String) : Bool := !looksLikeFormula value || isPlainNegative value

/-- The text starts with a minus sign and a digit, so that `neutralise_formula` leaves it alone. -/
def startsNegative (value : String) : Bool :=
  match leadIn value with
  | [] => false
  | c :: rest => c == '-' && (rest.take 1).any isDigit

/-- A text that `neutralise_formula` makes safe. -/
def neutralisable (value : String) : Bool := !startsNegative value || isPlainNegative value

theorem looksLikeFormula_of_startsNegative {value : String} (h : startsNegative value = true) :
    looksLikeFormula value = true := by
  unfold startsNegative at h
  unfold looksLikeFormula
  cases hlead : leadIn value with
  | nil => rw [hlead] at h; cases h
  | cons c rest =>
    rw [hlead] at h
    dsimp only at h ⊢
    rw [Bool.and_eq_true, beq_iff_eq] at h
    rw [h.1]
    rfl

theorem looksLikeFormula_quoted (value : String) : looksLikeFormula ("'" ++ value) = false := by
  have hlead : leadIn ("'" ++ value) = '\'' :: value.toList := by
    unfold leadIn
    rw [String.toList_append]
    rfl
  unfold looksLikeFormula
  rw [hlead]
  rfl

/-- What `neutralise_formula` returns. -/
theorem neutraliseFormula_eq (value : String) : neutraliseFormula value =
    if looksLikeFormula value = true ∧ startsNegative value = false then "'" ++ value else value := by
  unfold neutraliseFormula looksLikeFormula startsNegative
  show (match leadIn value with | [] => value | c :: rest => _) = _
  cases leadIn value with
  | nil => rfl
  | cons c rest =>
    dsimp only
    by_cases hformula : formulaPrefixes.contains c = true
    · by_cases hnegative : (c == '-' && (rest.take 1).any isDigit) = true
      · simp only [hformula, hnegative, Bool.not_true, Bool.false_eq_true, Bool.true_eq_false, and_false, if_false,
          if_true]
      · rw [Bool.not_eq_true] at hnegative
        simp only [hformula, hnegative, Bool.not_true, Bool.false_eq_true, and_self, if_false, if_true]
    · rw [Bool.not_eq_true] at hformula
      simp only [hformula, Bool.not_false, Bool.false_eq_true, false_and, if_false, if_true]

theorem safeText_neutraliseFormula (value : String) : safeText (neutraliseFormula value) = neutralisable value := by
  rw [neutraliseFormula_eq]
  unfold safeText neutralisable
  split_ifs with h
  · rw [looksLikeFormula_quoted, h.2]
    rfl
  · cases hnegative : startsNegative value with
    | true => rw [looksLikeFormula_of_startsNegative hnegative]
    | false =>
      cases hformula : looksLikeFormula value with
      | false => rfl
      | true => exact absurd ⟨hformula, hnegative⟩ h

theorem leadIn_slice (value : String) (n : ℕ) : leadIn (slice value n) = [] ∨
    ∃ c rest, leadIn (slice value n) = c :: rest ∧ leadIn value = c :: rest ++ value.toList.drop n := by
  have hsplit : value.toList = value.toList.take n ++ value.toList.drop n := (List.take_append_drop n _).symm
  unfold leadIn slice
  rw [String.toList_ofList]
  cases hdrop : (value.toList.take n).dropWhile (fun c => ['\t', '\r', '\n'].contains c) with
  | nil => exact Or.inl rfl
  | cons c rest =>
    refine Or.inr ⟨c, rest, rfl, ?_⟩
    rw [hsplit, List.dropWhile_append, hdrop, ← hsplit]
    rfl

/-- A cut text starts as the whole text does. -/
theorem startsNegative_of_slice {value : String} {n : ℕ} (h : startsNegative (slice value n) = true) :
    startsNegative value = true := by
  unfold startsNegative at h ⊢
  rcases leadIn_slice value n with hnil | ⟨c, rest, hcut, hwhole⟩
  · rw [hnil] at h
    cases h
  · rw [hcut] at h
    rw [hwhole]
    dsimp only [List.cons_append] at h ⊢
    cases rest with
    | nil =>
      rw [List.take_nil, List.any_nil, Bool.and_false] at h
      cases h
    | cons d rest => exact h

/-- A text neutralised before it is cut is as safe as one neutralised after. -/
theorem safeText_cut (value : String) (n : ℕ) :
    safeText (neutraliseFormula (slice (neutraliseFormula value) (n + 1))) = neutralisable (slice value (n + 1)) := by
  rw [safeText_neutraliseFormula, neutraliseFormula_eq value]
  split_ifs with h
  · have hquoted : startsNegative (slice ("'" ++ value) (n + 1)) = false := by
      rw [Bool.eq_false_iff]
      intro hnegative
      have hformula := looksLikeFormula_of_startsNegative (startsNegative_of_slice hnegative)
      rw [looksLikeFormula_quoted] at hformula
      cases hformula
    have hcut : startsNegative (slice value (n + 1)) = false := by
      rw [Bool.eq_false_iff]
      intro hnegative
      rw [startsNegative_of_slice hnegative] at h
      cases h.2
    unfold neutralisable
    rw [hquoted, hcut, Bool.not_false, Bool.true_or, Bool.true_or]
  · rfl

theorem slice_slice (value : String) (m n : ℕ) : slice (slice value m) n = slice value (min n m) := by
  unfold slice
  rw [String.toList_ofList, List.take_take]

/-! ## The columns of a row -/

/-- The cell under the column that is mapped to a field. -/
def columnCell (mapping : Texts) (raw : Dict) (field : String) : String :=
  match mapping.find? (fun column => column.2 == field) with
  | some column => cellText raw column.1
  | none => ""

/-- The columns of a row that are mapped to nothing and not blank, each under its header as it is cut. -/
def extraColumns (mapping : Texts) (raw : Dict) : Dict :=
  (raw.filter fun column =>
    !((mapping.map Prod.fst).contains column.1 || strip (column.2.or (.str "")).text = "")).map
      fun column => (slice column.1 60, column.2)

theorem columnCell_cons (header target : String) (mapping : Texts) (raw : Dict) (field : String) :
    columnCell ((header, target) :: mapping) raw field =
      if target = field then cellText raw header else columnCell mapping raw field := by
  unfold columnCell
  rw [List.find?_cons]
  by_cases h : target = field
  · simp [h]
  · rw [beq_false_of_ne h, if_neg h]

theorem columnCell_of_not_mem {mapping : Texts} {field : String} (h : field ∉ mapping.map Prod.snd) (raw : Dict) :
    columnCell mapping raw field = "" := by
  have hnone : mapping.find? (fun column => column.2 == field) = none := by
    rw [List.find?_eq_none]
    intro column hcolumn heq
    exact h (List.mem_map.mpr ⟨column, hcolumn, beq_iff_eq.mp heq⟩)
  unfold columnCell
  rw [hnone]

section Mapped

variable (raw : Dict)

/-- Each target is read from its column; no other column writes it. -/
theorem readMapped_values (field : String) : ∀ {mapping : Texts} (values : Texts) (capture : Dict),
    (mapping.map Prod.snd).Nodup →
      (readMapped raw mapping (values, capture)).1.lookup field =
        if captureFields.contains field = false ∧ columnCell mapping raw field ≠ "" then
          some (columnCell mapping raw field)
        else values.lookup field
  | [], values, capture, _ => by
    rw [columnCell_of_not_mem List.not_mem_nil, if_neg (fun h => h.2 rfl)]
    rfl
  | (header, target) :: mapping, values, capture, hnodup => by
    rw [List.map_cons, List.nodup_cons] at hnodup
    have ih := fun values capture => readMapped_values field values capture hnodup.2
    rw [columnCell_cons]
    unfold readMapped
    dsimp only
    by_cases htarget : target = field
    · subst htarget
      rw [columnCell_of_not_mem hnodup.1] at ih
      rw [if_pos rfl]
      split_ifs with hempty hboth hcaptured hboth hboth
      · exact absurd hempty hboth.2
      · rw [ih, if_neg (fun h => h.2 rfl)]
      · rw [hcaptured] at hboth
        cases hboth.1
      · rw [ih, if_neg (fun h => h.2 rfl)]
      · rw [ih, if_neg (fun h => h.2 rfl), Texts.lookup_set, if_pos rfl]
      · exact absurd ⟨Bool.not_eq_true _ ▸ hcaptured, hempty⟩ hboth
    · rw [if_neg htarget]
      by_cases hempty : cellText raw header = ""
      · rw [if_pos hempty]
        exact ih _ _
      · rw [if_neg hempty]
        by_cases hcaptured : captureFields.contains target = true
        · rw [if_pos hcaptured]
          exact ih _ _
        · rw [if_neg hcaptured, ih, Texts.lookup_set, if_neg (Ne.symm htarget)]

theorem readMapped_getD {mapping : Texts} (hnodup : (mapping.map Prod.snd).Nodup) {field : String}
    (hfield : captureFields.contains field = false) (dflt : String) :
    ((readMapped raw mapping ([], [])).1.lookup field).getD dflt =
      if columnCell mapping raw field = "" then dflt else columnCell mapping raw field := by
  rw [readMapped_values raw field [] [] hnodup]
  by_cases hempty : columnCell mapping raw field = ""
  · rw [if_pos hempty, if_neg (fun h => h.2 hempty)]
    rfl
  · rw [if_neg hempty, if_pos ⟨hfield, hempty⟩]
    rfl

theorem readMapped_get {mapping : Texts} (hnodup : (mapping.map Prod.snd).Nodup) {field : String}
    (hfield : captureFields.contains field = false) :
    (readMapped raw mapping ([], [])).1.get field = columnCell mapping raw field := by
  rw [Texts.get, readMapped_getD raw hnodup hfield]
  split_ifs with hempty
  · exact hempty.symm
  · rfl

theorem readMapped_capture (field : String) : ∀ {mapping : Texts} (values : Texts) (capture : Dict),
    (mapping.map Prod.snd).Nodup →
      (readMapped raw mapping (values, capture)).2.lookup field =
        if captureFields.contains field = true ∧ columnCell mapping raw field ≠ "" then
          some (.str (neutraliseFormula (slice (columnCell mapping raw field) 500)))
        else capture.lookup field
  | [], values, capture, _ => by
    rw [columnCell_of_not_mem List.not_mem_nil, if_neg (fun h => h.2 rfl)]
    rfl
  | (header, target) :: mapping, values, capture, hnodup => by
    rw [List.map_cons, List.nodup_cons] at hnodup
    have ih := fun values capture => readMapped_capture field values capture hnodup.2
    rw [columnCell_cons]
    unfold readMapped
    dsimp only
    by_cases htarget : target = field
    · subst htarget
      rw [columnCell_of_not_mem hnodup.1] at ih
      rw [if_pos rfl]
      split_ifs with hempty hboth hcaptured hboth hboth
      · exact absurd hempty hboth.2
      · rw [ih, if_neg (fun h => h.2 rfl)]
      · rw [ih, if_neg (fun h => h.2 rfl), lookup_setValue, if_pos rfl]
      · exact absurd ⟨hcaptured, hempty⟩ hboth
      · exact absurd hboth.1 hcaptured
      · rw [ih, if_neg (fun h => h.2 rfl)]
    · rw [if_neg htarget]
      by_cases hempty : cellText raw header = ""
      · rw [if_pos hempty]
        exact ih _ _
      · rw [if_neg hempty]
        by_cases hcaptured : captureFields.contains target = true
        · rw [if_pos hcaptured, ih, lookup_setValue, if_neg (Ne.symm htarget)]
        · rw [if_neg hcaptured]
          exact ih _ _

theorem readMapped_nodup : ∀ (mapping values : Texts) (capture : Dict), (values.map (·.1)).Nodup →
    (capture.map (·.1)).Nodup → ((readMapped raw mapping (values, capture)).1.map (·.1)).Nodup ∧
      ((readMapped raw mapping (values, capture)).2.map (·.1)).Nodup
  | [], _, _, hvalues, hcapture => ⟨hvalues, hcapture⟩
  | (header, target) :: mapping, values, capture, hvalues, hcapture => by
    unfold readMapped
    dsimp only
    split_ifs
    · exact readMapped_nodup mapping values capture hvalues hcapture
    · exact readMapped_nodup mapping values _ hvalues (nodup_setValue hcapture)
    · exact readMapped_nodup mapping _ capture (Texts.nodup_set hvalues) hcapture

/-- The other columns are assigned one after the other under their cut headers. -/
theorem readExtra_eq (mapping : Texts) : ∀ (raw extra : Dict), readExtra mapping raw extra =
    ((extraColumns mapping raw).map fun column =>
      (column.1, Json.str (neutraliseFormula (slice column.2.text 500)))).foldl (fun d e => assocSet d e.1 e.2) extra
  | [], _ => rfl
  | (header, cell) :: raw, extra => by
    unfold readExtra extraColumns
    rw [List.filter_cons]
    split_ifs with hskip hkept hkept
    · dsimp only at hkept
      rw [hskip] at hkept
      cases hkept
    · exact readExtra_eq mapping raw extra
    · rw [readExtra_eq mapping raw, setValue_eq]
      rfl
    · dsimp only at hkept
      rw [Bool.not_eq_true] at hskip
      rw [hskip] at hkept
      exact absurd rfl hkept

end Mapped

/-! ## What an accepted row keeps -/

section Judged

variable {lower : String → String}

theorem judgeEmail_lookup {values : Texts} (h : (judgeEmail lower values).2.2 = []) (field : String) :
    (judgeEmail lower values).1.lookup field =
      if field = "email" ∧ values.get "email" ≠ "" then some (lower (values.get "email"))
      else values.lookup field := by
  unfold judgeEmail at h ⊢
  dsimp only at h ⊢
  by_cases hempty : values.get "email" = ""
  · rw [if_pos hempty, if_neg (fun hboth => hboth.2 hempty)]
  · rw [if_neg hempty] at h ⊢
    split_ifs at h with hinvalid
    rw [if_neg hinvalid]
    dsimp only
    rw [Texts.lookup_set]
    by_cases hfield : field = "email"
    · rw [if_pos hfield, if_pos ⟨hfield, hempty⟩]
    · rw [if_neg hfield, if_neg (fun hboth => hfield hboth.1)]

theorem judgePhone_lookup (values : Texts) {field : String} (hfield : field ≠ "phone") :
    (judgePhone values).1.lookup field = values.lookup field := by
  unfold judgePhone
  dsimp only
  split_ifs
  · rfl
  · exact lookup_filter_key (fun key => key ≠ "phone") (decide_eq_true hfield) values
  · rw [Texts.lookup_set, if_neg hfield]

/-- The source is the cell, or the default when the column is blank; whatever the row has of it is cut. -/
theorem judgeContact_lookup {defaultSource : String} {named : Texts × Dict × List String}
    (h : (judgeContact lower defaultSource named).reasons = []) {field : String} (hfield : field ≠ "phone") :
    (judgeContact lower defaultSource named).values.lookup field =
      if field = "source" then some (slice ((named.1.lookup "source").getD defaultSource) 80)
      else if field = "email" ∧ named.1.get "email" ≠ "" then some (lower (named.1.get "email"))
      else named.1.lookup field := by
  unfold judgeContact at h ⊢
  dsimp only at h ⊢
  rw [List.append_eq_nil_iff, List.append_eq_nil_iff, List.append_eq_nil_iff] at h
  have hlookup : ∀ {key : String}, key ≠ "phone" →
      (judgePhone (judgeEmail lower named.1).1).1.lookup key =
        if key = "email" ∧ named.1.get "email" ≠ "" then some (lower (named.1.get "email"))
        else named.1.lookup key := by
    intro key hkey
    rw [judgePhone_lookup _ hkey, judgeEmail_lookup h.1.1.2]
  rw [Texts.lookup_set]
  by_cases hsource : field = "source"
  · have hkept : (judgePhone (judgeEmail lower named.1).1).1.lookup "source" = named.1.lookup "source" := by
      rw [hlookup (by decide), if_neg]
      exact fun hboth => absurd hboth.1 (by decide)
    rw [if_pos hsource, if_pos hsource, Texts.get, hkept]
    cases named.1.lookup "source" with
    | none => rfl
    | some source => rfl
  · rw [if_neg hsource, if_neg hsource, hlookup hfield]

/-- The name of a row that has one: the contact person, else the business. -/
def rowName (values : Texts) (capture : Dict) : String :=
  if values.get "first_name" = "" then slice (capture.get "company").text 120 else values.get "first_name"

theorem nameRow_lookup {values : Texts} {capture : Dict} (h : (nameRow values capture).2.2 = []) (field : String) :
    (nameRow values capture).1.lookup field =
      if field = "first_name" then some (neutraliseFormula (slice (rowName values capture) 120))
      else values.lookup field := by
  unfold nameRow at h ⊢
  unfold rowName
  by_cases hempty : values.get "first_name" = ""
  · by_cases htruthy : (capture.get "company").truthy = true
    · simp only [hempty, htruthy, decide_true, Bool.and_self, if_true, Texts.get_set] at h ⊢
      split_ifs at h with hnone
      rw [if_neg hnone]
      dsimp only
      rw [Texts.lookup_set, Texts.lookup_set]
      split_ifs
      · rfl
      · rfl
    · simp only [hempty, htruthy, Bool.and_false, Bool.false_eq_true, if_false, if_true] at h
      cases h
  · simp only [hempty, decide_false, Bool.false_and, Bool.false_eq_true, if_false] at h ⊢
    rw [Texts.lookup_set]

theorem nameRow_capture (values : Texts) (capture : Dict) {key : String} (hkey : key ≠ "name_is_business") :
    (nameRow values capture).2.1.lookup key = capture.lookup key := by
  unfold nameRow
  by_cases hboth : (decide (values.get "first_name" = "") && (capture.get "company").truthy) = true
  · simp only [hboth, if_true]
    split_ifs
    · rw [lookup_setValue, if_neg hkey]
    · rw [lookup_setValue, if_neg hkey]
  · simp only [hboth, Bool.false_eq_true, if_false]
    split_ifs
    · rfl
    · rfl

theorem nameRow_isBusiness (values : Texts) {capture : Dict} (hnone : capture.lookup "name_is_business" = none)
    {v : Json} (h : (nameRow values capture).2.1.lookup "name_is_business" = some v) : v = .bool true := by
  unfold nameRow at h
  by_cases hboth : (decide (values.get "first_name" = "") && (capture.get "company").truthy) = true
  · simp only [hboth, if_true] at h
    split_ifs at h
    · rw [lookup_setValue, if_pos rfl] at h
      exact (Option.some.inj h).symm
    · rw [lookup_setValue, if_pos rfl] at h
      exact (Option.some.inj h).symm
  · simp only [hboth, Bool.false_eq_true, if_false] at h
    split_ifs at h
    · rw [hnone] at h
      cases h
    · rw [hnone] at h
      cases h

theorem nameRow_nodup {values : Texts} {capture : Dict} (hvalues : (values.map (·.1)).Nodup)
    (hcapture : (capture.map (·.1)).Nodup) :
    ((nameRow values capture).1.map (·.1)).Nodup ∧ ((nameRow values capture).2.1.map (·.1)).Nodup := by
  unfold nameRow
  by_cases hboth : (decide (values.get "first_name" = "") && (capture.get "company").truthy) = true
  · simp only [hboth, if_true]
    split_ifs
    · exact ⟨Texts.nodup_set hvalues, nodup_setValue hcapture⟩
    · exact ⟨Texts.nodup_set (Texts.nodup_set hvalues), nodup_setValue hcapture⟩
  · simp only [hboth, Bool.false_eq_true, if_false]
    split_ifs
    · exact ⟨hvalues, hcapture⟩
    · exact ⟨Texts.nodup_set hvalues, hcapture⟩

theorem judgeContact_nodup (lower : String → String) (defaultSource : String) {named : Texts × Dict × List String}
    (h : (named.1.map (·.1)).Nodup) : ((judgeContact lower defaultSource named).values.map (·.1)).Nodup := by
  have hemail : ((judgeEmail lower named.1).1.map (·.1)).Nodup := by
    unfold judgeEmail
    dsimp only
    split_ifs
    · exact h
    · exact h
    · exact Texts.nodup_set h
  unfold judgeContact
  dsimp only
  refine Texts.nodup_set ?_
  unfold judgePhone
  dsimp only
  split_ifs
  · exact hemail
  · exact List.Nodup.sublist (List.Sublist.map _ List.filter_sublist) hemail
  · exact Texts.nodup_set hemail

/-- What `plan_import` captures of a row before it is named. -/
def rowCapture (mapping : Texts) (raw : Dict) : Dict :=
  let capture := (readMapped raw mapping ([], [])).2
  let extra := readExtra mapping raw []
  if extra.isEmpty then capture else setValue capture "extra" (.obj extra)

theorem judgeRow_eq (lower : String → String) (mapping : Texts) (defaultSource : String) (raw : Dict) :
    judgeRow lower mapping defaultSource raw =
      judgeContact lower defaultSource (nameRow (readMapped raw mapping ([], [])).1 (rowCapture mapping raw)) := rfl

theorem judgeRow_capture (lower : String → String) (mapping : Texts) (defaultSource : String) (raw : Dict) :
    (judgeRow lower mapping defaultSource raw).capture =
      (nameRow (readMapped raw mapping ([], [])).1 (rowCapture mapping raw)).2.1 := by
  rw [judgeRow_eq]
  generalize nameRow (readMapped raw mapping ([], [])).1 (rowCapture mapping raw) = named
  rfl

theorem rowCapture_lookup {mapping : Texts} (hnodup : (mapping.map Prod.snd).Nodup) (raw : Dict) {key : String}
    (hkey : key ≠ "extra") : (rowCapture mapping raw).lookup key =
      if captureFields.contains key = true ∧ columnCell mapping raw key ≠ "" then
        some (.str (neutraliseFormula (slice (columnCell mapping raw key) 500)))
      else none := by
  have hcapture := readMapped_capture raw key [] [] hnodup
  unfold rowCapture
  dsimp only
  split_ifs at hcapture ⊢
  · exact hcapture
  · exact hcapture
  · rw [lookup_setValue, if_neg hkey, hcapture]
  · rw [lookup_setValue, if_neg hkey, hcapture]
    rfl

theorem rowCapture_extra {mapping : Texts} (hnodup : (mapping.map Prod.snd).Nodup) (raw : Dict) :
    (rowCapture mapping raw).lookup "extra" =
      if (readExtra mapping raw []).isEmpty then none else some (.obj (readExtra mapping raw [])) := by
  unfold rowCapture
  dsimp only
  split_ifs
  · rw [readMapped_capture raw "extra" [] [] hnodup, if_neg (fun h => absurd h.1 (by decide))]
    rfl
  · rw [lookup_setValue, if_pos rfl]

theorem rowCapture_nodup (mapping : Texts) (raw : Dict) : ((rowCapture mapping raw).map (·.1)).Nodup := by
  have hcapture := (readMapped_nodup raw mapping [] [] List.nodup_nil List.nodup_nil).2
  unfold rowCapture
  dsimp only
  split_ifs
  · exact hcapture
  · exact nodup_setValue hcapture

theorem judgeRow_nodup (lower : String → String) (mapping : Texts) (defaultSource : String) (raw : Dict) :
    ((judgeRow lower mapping defaultSource raw).values.map (·.1)).Nodup ∧
      ((judgeRow lower mapping defaultSource raw).capture.map (·.1)).Nodup := by
  have hmapped := (readMapped_nodup raw mapping [] [] List.nodup_nil List.nodup_nil).1
  obtain ⟨hvalues, hcapture⟩ := nameRow_nodup hmapped (rowCapture_nodup mapping raw)
  rw [judgeRow_capture, judgeRow_eq]
  exact ⟨judgeContact_nodup lower defaultSource hvalues, hcapture⟩

/-- The name a row is kept under is safe when the name in the file is. -/
theorem safeText_name {mapping : Texts} (hnodup : (mapping.map Prod.snd).Nodup) {raw : Dict}
    (hname : columnCell mapping raw "first_name" ≠ "" ∨ columnCell mapping raw "company" ≠ "") :
    safeText (neutraliseFormula (slice (rowName (readMapped raw mapping ([], [])).1 (rowCapture mapping raw)) 120)) =
      neutralisable (slice (if columnCell mapping raw "first_name" = "" then columnCell mapping raw "company"
        else columnCell mapping raw "first_name") 120) := by
  unfold rowName
  rw [readMapped_get raw hnodup (by decide)]
  by_cases hempty : columnCell mapping raw "first_name" = ""
  · have hcompany := hname.resolve_left (fun h => h hempty)
    have hget : (rowCapture mapping raw).get "company" =
        .str (neutraliseFormula (slice (columnCell mapping raw "company") 500)) := by
      rw [Dict.get, rowCapture_lookup hnodup raw (by decide), if_pos ⟨by decide, hcompany⟩]
      rfl
    rw [if_pos hempty, if_pos hempty, hget]
    show safeText (neutraliseFormula (slice (slice (neutraliseFormula _) 120) 120)) = _
    rw [slice_slice, min_self, safeText_cut, slice_slice]
    rfl
  · rw [if_neg hempty, if_neg hempty, safeText_neutraliseFormula]

end Judged

/-! ## Safe rows -/

/-- The texts of a captured value; the other columns are kept with their headers. -/
def capturedTexts : Json → List String
  | .str text => [text]
  | .obj extra => extra.flatMap fun column => column.1 :: column.2.str?.toList
  | _ => []

/-- The texts of an accepted row, but for the phone. -/
def AcceptedRow.texts (row : AcceptedRow) : List String :=
  (row.values.filter (fun field => field.1 != "phone")).map Prod.snd ++
    row.capture.flatMap fun entry => capturedTexts entry.2

/-- No text of the row is a formula, but for plain negative numbers. -/
def AcceptedRow.FormulaSafe (row : AcceptedRow) : Prop :=
  ∀ text ∈ row.texts, looksLikeFormula text = true → isPlainNegative text = true

/-- The cells and headers of a row of the file of which `plan_import` makes safe text. -/
structure CellsSafe (lower : String → String) (mapping : Texts) (defaultSource : String) (raw : Dict) : Prop where
  name : neutralisable (slice (if columnCell mapping raw "first_name" = "" then columnCell mapping raw "company"
    else columnCell mapping raw "first_name") 120) = true
  last_name : safeText (columnCell mapping raw "last_name") = true
  email : columnCell mapping raw "email" ≠ "" → safeText (lower (columnCell mapping raw "email")) = true
  source : safeText (slice (if columnCell mapping raw "source" = "" then defaultSource
    else columnCell mapping raw "source") 80) = true
  source_channel : safeText (columnCell mapping raw "source_channel") = true
  captured : ∀ field ∈ captureFields, neutralisable (slice (columnCell mapping raw field) 500) = true
  extra : ∀ header cell, (extraColumns mapping raw).reverse.lookup header = some cell →
    safeText header = true ∧ neutralisable (slice cell.text 500) = true

theorem safeText_iff {text : String} :
    safeText text = true ↔ (looksLikeFormula text = true → isPlainNegative text = true) := by
  unfold safeText
  cases looksLikeFormula text with
  | false => simp
  | true => simp

theorem formulaSafe_iff_lookup {row : AcceptedRow} (hvalues : (row.values.map (·.1)).Nodup)
    (hcapture : (row.capture.map (·.1)).Nodup) :
    row.FormulaSafe ↔
      (∀ field text, row.values.lookup field = some text → field ≠ "phone" → safeText text = true) ∧
        ∀ key v, row.capture.lookup key = some v → ∀ text ∈ capturedTexts v, safeText text = true := by
  rw [← forall_mem_iff_lookup hvalues,
    ← @forall_mem_iff_lookup _ _ _ _ (fun _ v => ∀ text ∈ capturedTexts v, safeText text = true) _ hcapture]
  unfold AcceptedRow.FormulaSafe AcceptedRow.texts
  constructor
  · intro h
    refine ⟨fun field hfield hphone => safeText_iff.mpr (h field.2 ?_), fun entry hentry text htext =>
      safeText_iff.mpr (h text ?_)⟩
    · exact List.mem_append_left _ (List.mem_map.mpr
        ⟨field, List.mem_filter.mpr ⟨hfield, bne_iff_ne.mpr hphone⟩, rfl⟩)
    · exact List.mem_append_right _ (List.mem_flatMap.mpr ⟨entry, hentry, htext⟩)
  · rintro ⟨hfields, hentries⟩ text htext
    rcases List.mem_append.mp htext with hmem | hmem
    · obtain ⟨field, hfield, rfl⟩ := List.mem_map.mp hmem
      obtain ⟨hfield, hphone⟩ := List.mem_filter.mp hfield
      exact safeText_iff.mp (hfields field hfield (bne_iff_ne.mp hphone))
    · obtain ⟨entry, hentry, htext⟩ := List.mem_flatMap.mp hmem
      exact safeText_iff.mp (hentries entry hentry text htext)

/-- The extra columns are safe exactly when, under each header, the last cell and the header are. -/
theorem extra_safe_iff (mapping : Texts) (raw : Dict) :
    (∀ text ∈ capturedTexts (.obj (readExtra mapping raw [])), safeText text = true) ↔
      ∀ header cell, (extraColumns mapping raw).reverse.lookup header = some cell →
        safeText header = true ∧ neutralisable (slice cell.text 500) = true := by
  have hnodup : ((readExtra mapping raw []).map (·.1)).Nodup := by
    rw [readExtra_eq]
    exact nodup_foldl_assocSet _ List.nodup_nil
  have hlookup : ∀ header, (readExtra mapping raw []).lookup header =
      ((extraColumns mapping raw).reverse.lookup header).map
        (fun cell => Json.str (neutraliseFormula (slice cell.text 500))) := by
    intro header
    rw [readExtra_eq, lookup_foldl_assocSet, List.lookup_nil, Option.or_none, ← List.map_reverse]
    exact lookup_map_value (fun _ cell => Json.str (neutraliseFormula (slice cell.text 500))) header _
  have hentries : (∀ text ∈ capturedTexts (.obj (readExtra mapping raw [])), safeText text = true) ↔
      ∀ entry ∈ readExtra mapping raw [],
        safeText entry.1 = true ∧ ∀ text, entry.2.str? = some text → safeText text = true := by
    unfold capturedTexts
    simp only [List.mem_flatMap, List.mem_cons, Option.mem_toList]
    constructor
    · intro h entry hentry
      exact ⟨h _ ⟨entry, hentry, Or.inl rfl⟩, fun text htext => h text ⟨entry, hentry, Or.inr htext⟩⟩
    · rintro h text ⟨entry, hentry, rfl | htext⟩
      · exact (h entry hentry).1
      · exact (h entry hentry).2 text htext
  rw [hentries, @forall_mem_iff_lookup _ _ _ _
    (fun header v => safeText header = true ∧ ∀ text, v.str? = some text → safeText text = true) _ hnodup]
  simp only [hlookup, Option.map_eq_some_iff]
  constructor
  · intro h header cell hcell
    obtain ⟨hheader, htext⟩ := h header _ ⟨cell, hcell, rfl⟩
    rw [← safeText_neutraliseFormula]
    exact ⟨hheader, htext _ rfl⟩
  · rintro h header v ⟨cell, hcell, rfl⟩
    obtain ⟨hheader, hkept⟩ := h header cell hcell
    refine ⟨hheader, fun text htext => ?_⟩
    obtain rfl := Option.some.inj htext
    rw [safeText_neutraliseFormula]
    exact hkept

theorem captured_safe_iff {mapping : Texts} (hnodup : (mapping.map Prod.snd).Nodup) (values : Texts) (raw : Dict) :
    (∀ key v, (nameRow values (rowCapture mapping raw)).2.1.lookup key = some v →
        ∀ text ∈ capturedTexts v, safeText text = true) ↔
      (∀ field ∈ captureFields, neutralisable (slice (columnCell mapping raw field) 500) = true) ∧
        ∀ header cell, (extraColumns mapping raw).reverse.lookup header = some cell →
          safeText header = true ∧ neutralisable (slice cell.text 500) = true := by
  rw [← extra_safe_iff]
  constructor
  · intro h
    constructor
    · intro field hfield
      by_cases hempty : columnCell mapping raw field = ""
      · rw [hempty]
        rfl
      · have hextra : field ≠ "extra" := by
          rintro rfl
          exact absurd hfield (by decide)
        have hbusiness : field ≠ "name_is_business" := by
          rintro rfl
          exact absurd hfield (by decide)
        have hlookup := nameRow_capture values (rowCapture mapping raw) hbusiness
        rw [rowCapture_lookup hnodup raw hextra, if_pos ⟨List.contains_iff_mem.mpr hfield, hempty⟩] at hlookup
        rw [← safeText_neutraliseFormula]
        exact h field _ hlookup _ List.mem_cons_self
    · by_cases hnone : (readExtra mapping raw []).isEmpty = true
      · rw [List.isEmpty_iff.mp hnone]
        intro text htext
        cases htext
      · refine h "extra" _ ?_
        rw [nameRow_capture values _ (by decide), rowCapture_extra hnodup, if_neg hnone]
  · rintro ⟨hcaptured, hextra⟩ key v hlookup
    by_cases hbusiness : key = "name_is_business"
    · subst hbusiness
      have hnone : (rowCapture mapping raw).lookup "name_is_business" = none := by
        rw [rowCapture_lookup hnodup raw (by decide), if_neg (fun h => absurd h.1 (by decide))]
      rw [nameRow_isBusiness values hnone hlookup]
      intro text htext
      cases htext
    · rw [nameRow_capture values _ hbusiness] at hlookup
      by_cases hkey : key = "extra"
      · rw [hkey, rowCapture_extra hnodup] at hlookup
        split_ifs at hlookup
        obtain rfl := Option.some.inj hlookup
        exact hextra
      · rw [rowCapture_lookup hnodup raw hkey] at hlookup
        split_ifs at hlookup with hboth
        obtain rfl := Option.some.inj hlookup
        intro text htext
        obtain rfl := List.mem_singleton.mp htext
        rw [safeText_neutraliseFormula]
        exact hcaptured key (List.contains_iff_mem.mp hboth.1)

/-- What the values of a row without a reason against it are, but for the phone. -/
theorem judgeRow_lookup {lower : String → String} {mapping : Texts} (hnodup : (mapping.map Prod.snd).Nodup)
    {defaultSource : String} {raw : Dict} (h : (judgeRow lower mapping defaultSource raw).reasons = [])
    {field : String} (hfield : field ≠ "phone") :
    (judgeRow lower mapping defaultSource raw).values.lookup field =
      if field = "source" then
        some (slice (if columnCell mapping raw "source" = "" then defaultSource
          else columnCell mapping raw "source") 80)
      else if field = "email" ∧ columnCell mapping raw "email" ≠ "" then
        some (lower (columnCell mapping raw "email"))
      else if field = "first_name" then
        some (neutraliseFormula (slice (rowName (readMapped raw mapping ([], [])).1 (rowCapture mapping raw)) 120))
      else if captureFields.contains field = false ∧ columnCell mapping raw field ≠ "" then
        some (columnCell mapping raw field)
      else none := by
  rw [judgeRow_eq] at h ⊢
  have hname : (nameRow (readMapped raw mapping ([], [])).1 (rowCapture mapping raw)).2.2 = [] := by
    unfold judgeContact at h
    dsimp only at h
    rw [List.append_eq_nil_iff, List.append_eq_nil_iff, List.append_eq_nil_iff] at h
    exact h.1.1.1
  rw [judgeContact_lookup h hfield, nameRow_get _ _ (by decide), readMapped_get raw hnodup (by decide),
    nameRow_lookup hname, nameRow_lookup hname, if_neg (show "source" ≠ "first_name" by decide),
    readMapped_getD raw hnodup (by decide), readMapped_values raw field [] [] hnodup]
  rfl

theorem named_of_judgeRow {lower : String → String} {mapping : Texts} (hnodup : (mapping.map Prod.snd).Nodup)
    {defaultSource : String} {raw : Dict} (h : (judgeRow lower mapping defaultSource raw).reasons = []) :
    columnCell mapping raw "first_name" ≠ "" ∨ columnCell mapping raw "company" ≠ "" := by
  by_contra hneither
  rw [not_or, not_not, not_not] at hneither
  rw [judgeRow_eq] at h
  unfold judgeContact at h
  dsimp only at h
  rw [List.append_eq_nil_iff, List.append_eq_nil_iff, List.append_eq_nil_iff] at h
  have hcompany : (rowCapture mapping raw).get "company" = .null := by
    rw [Dict.get, rowCapture_lookup hnodup raw (by decide), if_neg (fun hboth => hboth.2 hneither.2)]
    rfl
  have hname := h.1.1.1
  unfold nameRow at hname
  rw [readMapped_get raw hnodup (by decide), hcompany, hneither.1] at hname
  change (if (readMapped raw mapping ([], [])).1.get "first_name" = "" then _ else _ : Texts × Dict × List String).2.2
    = [] at hname
  rw [readMapped_get raw hnodup (by decide), if_pos hneither.1] at hname
  cases hname

/-- The fields an import can set that are not captured. -/
theorem importable_cases {field : String} (h : field ∈ importableFields)
    (hcaptured : captureFields.contains field = false) (hphone : field ≠ "phone") :
    field = "first_name" ∨ field = "last_name" ∨ field = "email" ∨ field = "source" ∨ field = "source_channel" := by
  unfold importableFields at h
  simp only [List.mem_cons, List.not_mem_nil, or_false] at h
  rcases h with rfl | rfl | rfl | rfl | rfl | rfl | h
  · exact Or.inl rfl
  · exact Or.inr (Or.inl rfl)
  · exact Or.inr (Or.inr (Or.inl rfl))
  · exact absurd rfl hphone
  · exact Or.inr (Or.inr (Or.inr (Or.inl rfl)))
  · exact Or.inr (Or.inr (Or.inr (Or.inr rfl)))
  · have hmem : field ∈ captureFields := by
      unfold captureFields
      simpa only [List.mem_cons, List.not_mem_nil, or_false] using h
    rw [List.contains_iff_mem.mpr hmem] at hcaptured
    cases hcaptured

theorem values_safe_iff {lower : String → String} {mapping : Texts} (hnodup : (mapping.map Prod.snd).Nodup)
    (himportable : ∀ field ∈ mapping.map Prod.snd, field ∈ importableFields) {defaultSource : String} {raw : Dict}
    (h : (judgeRow lower mapping defaultSource raw).reasons = []) :
    (∀ field text, (judgeRow lower mapping defaultSource raw).values.lookup field = some text → field ≠ "phone" →
        safeText text = true) ↔
      neutralisable (slice (if columnCell mapping raw "first_name" = "" then columnCell mapping raw "company"
        else columnCell mapping raw "first_name") 120) = true ∧
      safeText (columnCell mapping raw "last_name") = true ∧
      (columnCell mapping raw "email" ≠ "" → safeText (lower (columnCell mapping raw "email")) = true) ∧
      safeText (slice (if columnCell mapping raw "source" = "" then defaultSource
        else columnCell mapping raw "source") 80) = true ∧
      safeText (columnCell mapping raw "source_channel") = true := by
  have hlookup := fun {field : String} => @judgeRow_lookup lower mapping hnodup defaultSource raw h field
  have hname := safeText_name hnodup (named_of_judgeRow hnodup h)
  constructor
  · intro hall
    -- a column that is kept as it stands
    have hplain : ∀ {field : String}, field ≠ "phone" → field ≠ "source" → field ≠ "email" → field ≠ "first_name" →
        captureFields.contains field = false → safeText (columnCell mapping raw field) = true := by
      intro field hphone hsource hemail hfirst hcaptured
      by_cases hempty : columnCell mapping raw field = ""
      · rw [hempty]
        rfl
      · refine hall field _ ?_ hphone
        rw [hlookup hphone, if_neg hsource, if_neg (fun hboth => hemail hboth.1), if_neg hfirst,
          if_pos ⟨hcaptured, hempty⟩]
    refine ⟨?_, hplain (by decide) (by decide) (by decide) (by decide) (by decide), fun hemail => ?_, ?_,
      hplain (by decide) (by decide) (by decide) (by decide) (by decide)⟩
    · rw [← hname]
      refine hall "first_name" _ ?_ (by decide)
      rw [hlookup (by decide), if_neg (by decide), if_neg (fun hboth => absurd hboth.1 (by decide)), if_pos rfl]
    · refine hall "email" _ ?_ (by decide)
      rw [hlookup (by decide), if_neg (by decide), if_pos ⟨rfl, hemail⟩]
    · refine hall "source" _ ?_ (by decide)
      rw [hlookup (by decide), if_pos rfl]
  · rintro ⟨hfirst, hlast, hemail, hsource, hchannel⟩ field text htext hphone
    rw [hlookup hphone] at htext
    by_cases his_source : field = "source"
    · rw [if_pos his_source] at htext
      rw [← Option.some.inj htext]
      exact hsource
    rw [if_neg his_source] at htext
    by_cases his_email : field = "email" ∧ columnCell mapping raw "email" ≠ ""
    · rw [if_pos his_email] at htext
      rw [← Option.some.inj htext]
      exact hemail his_email.2
    rw [if_neg his_email] at htext
    by_cases his_first : field = "first_name"
    · rw [if_pos his_first] at htext
      rw [← Option.some.inj htext, hname]
      exact hfirst
    rw [if_neg his_first] at htext
    split_ifs at htext with hkept
    have hmapped : field ∈ mapping.map Prod.snd := by
      by_contra hnone
      exact hkept.2 (columnCell_of_not_mem hnone raw)
    rw [← Option.some.inj htext]
    rcases importable_cases (himportable field hmapped) hkept.1 hphone with hfield | hfield | hfield | hfield | hfield
    · exact absurd hfield his_first
    · rw [hfield]
      exact hlast
    · exact absurd ⟨hfield, hfield ▸ hkept.2⟩ his_email
    · exact absurd hfield his_source
    · rw [hfield]
      exact hchannel

/-! ## Validated mappings -/

theorem resolveMapping_targets : ∀ (m : Mapping) (resolved : Texts) (problems : List String),
    (resolved.map Prod.snd).Nodup → (∀ field ∈ resolved.map Prod.snd, field ∈ importableFields) →
      ((resolveMapping m resolved problems).1.map Prod.snd).Nodup ∧
        ∀ field ∈ (resolveMapping m resolved problems).1.map Prod.snd, field ∈ importableFields
  | [], _, _, hnodup, himportable => ⟨hnodup, himportable⟩
  | (_, none) :: m, resolved, problems, hnodup, himportable =>
    resolveMapping_targets m resolved problems hnodup himportable
  | (header, some target) :: m, resolved, problems, hnodup, himportable => by
    unfold resolveMapping
    split_ifs with hfield hseen
    · exact resolveMapping_targets m resolved _ hnodup himportable
    · exact resolveMapping_targets m resolved _ hnodup himportable
    · have htargets : (resolved ++ [(header, target)]).map Prod.snd = resolved.map Prod.snd ++ [target] := by
        rw [List.map_append]
        rfl
      rw [Bool.not_eq_true', Bool.not_eq_false] at hfield
      rw [List.contains_iff_mem] at hseen hfield
      refine resolveMapping_targets m _ problems ?_ ?_
      · rw [htargets, List.nodup_append]
        refine ⟨hnodup, by simp, fun a ha b hb => ?_⟩
        obtain rfl := List.mem_singleton.mp hb
        rintro rfl
        exact hseen ha
      · rw [htargets]
        intro field hmem
        rcases List.mem_append.mp hmem with hmem | hmem
        · exact himportable field hmem
        · obtain rfl := List.mem_singleton.mp hmem
          exact hfield

/-- A validated mapping has distinct targets, and only fields an import can set. -/
theorem targets_of_validateMapping {m : Mapping} {mapping : Texts} (h : validateMapping m = .ok mapping) :
    (mapping.map Prod.snd).Nodup ∧ ∀ field ∈ mapping.map Prod.snd, field ∈ importableFields := by
  unfold validateMapping at h
  split_ifs at h
  dsimp only at h
  obtain rfl := eq_of_ite_ok h
  exact resolveMapping_targets m [] [] List.nodup_nil (fun field hmem => absurd hmem List.not_mem_nil)

/-! ## Imports -/

theorem judged_formulaSafe_iff {lower : String → String} {mapping : Texts} (hnodup : (mapping.map Prod.snd).Nodup)
    (himportable : ∀ field ∈ mapping.map Prod.snd, field ∈ importableFields) {defaultSource : String} {raw : Dict}
    (h : (judgeRow lower mapping defaultSource raw).reasons = []) {row : AcceptedRow}
    (hvalues : row.values = (judgeRow lower mapping defaultSource raw).values)
    (hcapture : row.capture = (judgeRow lower mapping defaultSource raw).capture) :
    row.FormulaSafe ↔ CellsSafe lower mapping defaultSource raw := by
  have hkeys := judgeRow_nodup lower mapping defaultSource raw
  rw [← hvalues, ← hcapture] at hkeys
  rw [formulaSafe_iff_lookup hkeys.1 hkeys.2, hvalues, hcapture, values_safe_iff hnodup himportable h,
    judgeRow_capture, captured_safe_iff hnodup]
  constructor
  · rintro ⟨⟨hname, hlast, hemail, hsource, hchannel⟩, hcaptured, hextra⟩
    exact ⟨hname, hlast, hemail, hsource, hchannel, hcaptured, hextra⟩
  · rintro ⟨hname, hlast, hemail, hsource, hchannel, hcaptured, hextra⟩
    exact ⟨⟨hname, hlast, hemail, hsource, hchannel⟩, hcaptured, hextra⟩

/-- **When an accepted row has no formula in it.** -/
theorem formulaSafe_iff (lower : String → String) (rows : List Dict) {m : Mapping} {mapping : Texts}
    (hmapping : validateMapping m = .ok mapping) (defaultSource : String) {plan : ImportPlan}
    (hplan : planImport lower rows mapping defaultSource = .ok plan) {row : AcceptedRow} (hrow : row ∈ plan.accepted) :
    ∃ i raw, rows[i]? = some raw ∧ row.rowNumber = i + 2 ∧
      (row.FormulaSafe ↔ CellsSafe lower mapping defaultSource raw) := by
  obtain ⟨hnodup, himportable⟩ := targets_of_validateMapping hmapping
  have hplanned : planRows lower mapping defaultSource rows 2 [] = plan := by
    unfold planImport at hplan
    split_ifs at hplan
    exact Except.ok.inj hplan
  rw [← hplanned] at hrow
  obtain ⟨i, raw, judged, hraw, hjudged, hreasons, hrow⟩ := accepted_eq hrow
  rw [← hjudged] at hreasons hrow
  refine ⟨i, raw, hraw, ?_, judged_formulaSafe_iff hnodup himportable hreasons ?_ ?_⟩
  · rw [hrow]
    exact Nat.add_comm 2 i
  · rw [hrow]
  · rw [hrow]

/-- A column for each field that is kept as it stands, one for the notes and one that is mapped to nothing. -/
def sampleColumns : Mapping :=
  [("Name", some "first_name"), ("Surname", some "last_name"), ("Email", some "email"), ("Source", some "source"),
    ("Channel", some "source_channel"), ("Notes", some "notes")]

def sampleTargets : Texts :=
  [("Name", "first_name"), ("Surname", "last_name"), ("Email", "email"), ("Source", "source"),
    ("Channel", "source_channel"), ("Notes", "notes")]

theorem validateMapping_sampleColumns : validateMapping sampleColumns = .ok sampleTargets := by
  exact eq_ok_of_toOption (by decide +kernel)

/-- A row whose name and notes are formulas, with a negative number in a column of its own. -/
def quotedRow : Dict :=
  [("Name", .str "=1+1"), ("Surname", .str "Rao"), ("Email", .str "asha@stores.in"), ("Source", .str "fair"),
    ("Channel", .str ""), ("Notes", .str "@SUM(A1)"), ("Balance", .str "-500.50")]

theorem cellsSafe_quotedRow : CellsSafe Py.lower sampleTargets "csv_import" quotedRow where
  name := by decide +kernel
  last_name := by decide +kernel
  email _ := by decide +kernel
  source := by decide +kernel
  source_channel := by decide +kernel
  captured := by decide +kernel
  extra header cell h := by
    have hcolumns : (extraColumns sampleTargets quotedRow).reverse = [("Balance", .str "-500.50")] := rfl
    rw [hcolumns, List.lookup_cons] at h
    split at h
    · rename_i heq
      rw [beq_iff_eq.mp heq, ← Option.some.inj h]
      exact ⟨by decide +kernel, by decide +kernel⟩
    · cases h

theorem formulaSafe_quotedRow : ∃ plan row, planImport Py.lower [quotedRow] sampleTargets "csv_import" = .ok plan ∧
    row ∈ plan.accepted ∧ row.FormulaSafe := by
  have haccepted : (planImport Py.lower [quotedRow] sampleTargets "csv_import").toOption.map
      (fun plan => plan.accepted.length) = some 1 := by decide +kernel
  obtain ⟨plan, hplan, hlength⟩ := Option.map_eq_some_iff.mp haccepted
  obtain ⟨row, hrow⟩ := List.length_eq_one_iff.mp hlength
  have hmem : row ∈ plan.accepted := by
    rw [hrow]
    exact List.mem_singleton_self row
  obtain ⟨i, raw, hraw, -, hiff⟩ := formulaSafe_iff Py.lower [quotedRow] validateMapping_sampleColumns "csv_import"
    (eq_ok_of_toOption hplan) hmem
  rw [List.mem_singleton.mp (List.mem_of_getElem? hraw)] at hiff
  exact ⟨plan, row, eq_ok_of_toOption hplan, hmem, hiff.mpr cellsSafe_quotedRow⟩

/-- A row with a formula in every text that is not made safe. -/
def formulaRow : Dict :=
  [("Name", .str "Asha"), ("Surname", .str "=cmd|x"), ("Email", .str "=1+1@stores.in"), ("Source", .str "@SUM(A1)"),
    ("Channel", .str "+1+1"), ("Notes", .str "-1+HYPERLINK(A1)"), ("=1+2", .str "x")]

/-- The row is accepted, and these formulas are kept. -/
theorem formulas_kept : validateMapping sampleColumns = .ok sampleTargets ∧
    ∃ plan row, planImport Py.lower [formulaRow] sampleTargets "csv_import" = .ok plan ∧ row ∈ plan.accepted ∧
      (row.texts.filter fun text => !safeText text) =
        ["=cmd|x", "=1+1@stores.in", "@SUM(A1)", "+1+1", "-1+HYPERLINK(A1)", "=1+2"] ∧ ¬row.FormulaSafe := by
  have hkept : (planImport Py.lower [formulaRow] sampleTargets "csv_import").toOption.map
      (fun plan => plan.accepted.map fun row => row.texts.filter fun text => !safeText text) =
    some [["=cmd|x", "=1+1@stores.in", "@SUM(A1)", "+1+1", "-1+HYPERLINK(A1)", "=1+2"]] := by decide +kernel
  obtain ⟨plan, hplan, htexts⟩ := Option.map_eq_some_iff.mp hkept
  obtain ⟨row, hrow, hleads⟩ := List.mem_map.mp (htexts ▸ List.mem_singleton_self _)
  refine ⟨validateMapping_sampleColumns, plan, row, eq_ok_of_toOption hplan, hrow, hleads, fun hsafe => ?_⟩
  have hmem : "=cmd|x" ∈ row.texts.filter fun text => !safeText text := by
    rw [hleads]
    exact List.mem_cons_self
  obtain ⟨hmem, -⟩ := List.mem_filter.mp hmem
  exact absurd (hsafe "=cmd|x" hmem (by decide +kernel)) (by decide +kernel)

end RevenueOS.Leads
