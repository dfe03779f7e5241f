import RevenueOS.Leads.Formulas

/-!
# RevenueOS.Leads.ImportPlans — what a file makes of `plan_import`

The rows that `plan_import` (`domain/leads/importing.py`) accepts, told from the cells of the file.  A row is usable if
it can be named and contacted, and it is known by its email or, without one, by its phone.  The loop keeps every usable
row that is the first under what it is known by.

* `reasons_eq_nil_iff`: the rows against which there is no reason of their own.
* `mem_accepted_iff`: the rows that are accepted.
* `noTwins_iff`: when no two of them share an email or a phone.
* `partitioned_iff`: when every one of them can be contacted, with what holds of every plan.
-/

namespace RevenueOS.Leads

open RevenueOS.Py RevenueOS.Lib

/-! ## Cells -/

section Cells

variable (lower : String → String) (mapping : Texts) (raw : Dict)

/-- The row can be named and contacted. -/
structure UsableRow : Prop where
  named : columnCell mapping raw "first_name" ≠ "" ∨ columnCell mapping raw "company" ≠ ""
  email : columnCell mapping raw "email" = "" ∨
    isEmail (lower (columnCell mapping raw "email")) = true ∧ (lower (columnCell mapping raw "email")).length ≤ 320
  phone : columnCell mapping raw "phone" = "" ∨ 10 ≤ (digitsOf (columnCell mapping raw "phone")).length
  contact : columnCell mapping raw "email" ≠ "" ∨ columnCell mapping raw "phone" ≠ ""

/-- What a row is known by: its email, else the last digits of its phone. -/
def knownBy : String :=
  if columnCell mapping raw "email" = "" then normalisePhoneDigits (columnCell mapping raw "phone")
  else lower (columnCell mapping raw "email")

end Cells

theorem cut_ne_empty {text : String} (h : text ≠ "") (n : ℕ) : slice text (n + 1) ≠ "" := by
  intro hempty
  refine h (String.toList_inj.mp ?_)
  have hlist := congrArg String.toList hempty
  unfold slice at hlist
  rw [String.toList_ofList] at hlist
  cases htext : text.toList with
  | nil => rfl
  | cons c rest =>
    rw [htext] at hlist
    cases hlist

theorem neutraliseFormula_ne_empty {text : String} (h : text ≠ "") : neutraliseFormula text ≠ "" := by
  rw [neutraliseFormula_eq]
  split_ifs
  · intro hempty
    have hlist := congrArg String.toList hempty
    rw [String.toList_append] at hlist
    cases hlist
  · exact h

section Judged

variable {lower : String → String} {mapping : Texts} {defaultSource : String} {raw : Dict}

/-! ## One row -/

/-- A row without a contact person and without a business has no name. -/
theorem nameRow_reasons_iff (hnodup : (mapping.map Prod.snd).Nodup) (raw : Dict) :
    (nameRow (readMapped raw mapping ([], [])).1 (rowCapture mapping raw)).2.2 = [] ↔
      columnCell mapping raw "first_name" ≠ "" ∨ columnCell mapping raw "company" ≠ "" := by
  have hfirst := @readMapped_get raw mapping hnodup "first_name" (by decide)
  have hcompany := @rowCapture_lookup mapping hnodup raw "company" (by decide)
  unfold nameRow
  by_cases hempty : columnCell mapping raw "first_name" = ""
  · rw [hempty] at hfirst
    by_cases hnone : columnCell mapping raw "company" = ""
    · rw [if_neg fun hboth => hboth.2 hnone] at hcompany
      have hfalsy : ((rowCapture mapping raw).get "company").truthy = false := by
        rw [Dict.get, hcompany]
        rfl
      simp [hfirst, hfalsy, hempty, hnone]
    · rw [if_pos ⟨by decide, hnone⟩] at hcompany
      have hkept := neutraliseFormula_ne_empty (cut_ne_empty hnone 499)
      have hget : (rowCapture mapping raw).get "company" =
          .str (neutraliseFormula (slice (columnCell mapping raw "company") 500)) := by
        rw [Dict.get, hcompany]
        rfl
      have htruthy : ((rowCapture mapping raw).get "company").truthy = true := by
        rw [hget]
        simpa [Json.truthy] using hkept
      have hname : slice ((rowCapture mapping raw).get "company").text 120 ≠ "" := by
        rw [hget]
        exact cut_ne_empty hkept 119
      simp [hfirst, htruthy, hnone, Texts.get_set, hname]
  · simp [hfirst, hempty]

theorem judgeEmail_reasons_iff {values : Texts} : (judgeEmail lower values).2.2 = [] ↔
    values.get "email" = "" ∨
      isEmail (lower (values.get "email")) = true ∧ (lower (values.get "email")).length ≤ 320 := by
  unfold judgeEmail
  dsimp only
  by_cases hempty : values.get "email" = ""
  · simp [hempty]
  · by_cases hvalid : isEmail (lower (values.get "email")) = true
    · by_cases hlong : 320 < (lower (values.get "email")).length
      · simp [hempty, hvalid, hlong]
      · simp [hempty, hvalid, hlong, Nat.le_of_not_lt hlong]
    · simp [hempty, hvalid]

theorem judgePhone_reasons_iff {values : Texts} : (judgePhone values).2.2 = [] ↔
    values.get "phone" = "" ∨ 10 ≤ (digitsOf (values.get "phone")).length := by
  unfold judgePhone
  dsimp only
  rw [length_normalisePhoneDigits]
  by_cases hempty : values.get "phone" = ""
  · simp [hempty]
  · by_cases hshort : min 10 (digitsOf (values.get "phone")).length < 10
    · rw [if_neg hempty, if_pos hshort]
      simp [hempty]
      omega
    · rw [if_neg hempty, if_neg hshort]
      simp [hempty]
      omega

theorem normalisePhoneDigits_ne_empty {phone : String} (h : 10 ≤ (digitsOf phone).length) :
    normalisePhoneDigits phone ≠ "" := by
  intro hempty
  have hlength := length_normalisePhoneDigits phone
  rw [hempty] at hlength
  change 0 = _ at hlength
  omega

theorem judgeContact_reasons_iff {named : Texts × Dict × List String} :
    (judgeContact lower defaultSource named).reasons = [] ↔
      named.2.2 = [] ∧ (judgeEmail lower named.1).2.2 = [] ∧
        (named.1.get "phone" = "" ∨ 10 ≤ (digitsOf (named.1.get "phone")).length) ∧
        (named.1.get "email" ≠ "" ∨ named.1.get "phone" ≠ "") := by
  constructor
  · intro h
    have hcontact := judgeContact_accepted h
    unfold judgeContact at h
    dsimp only at h
    rw [List.append_eq_nil_iff, List.append_eq_nil_iff, List.append_eq_nil_iff] at h
    refine ⟨h.1.1.1, h.1.1.2, ?_, hcontact.some_contact⟩
    by_cases hphone : named.1.get "phone" = ""
    · exact .inl hphone
    · exact .inr (hcontact.phone_ten hphone)
  · rintro ⟨hname, hemail, hphone, hcontact⟩
    obtain ⟨hemail_eq, hemail_at, -, hkept⟩ := judgeEmail_accepted hemail
    have hphoneReasons : (judgePhone (judgeEmail lower named.1).1).2.2 = [] := by
      rw [judgePhone_reasons_iff, hkept]
      exact hphone
    obtain ⟨hdigits_eq, -, -, -⟩ := judgePhone_accepted hphoneReasons
    rw [hkept] at hdigits_eq
    unfold judgeContact
    dsimp only
    rw [hname, hemail, hphoneReasons, if_neg]
    · rfl
    · rintro ⟨hnoEmail, hnoPhone⟩
      rcases hcontact with hne | hne
      · have hat := hemail_at hne
        rw [hnoEmail] at hat
        exact absurd hat List.not_mem_nil
      · rw [hdigits_eq, if_neg hne] at hnoPhone
        exact normalisePhoneDigits_ne_empty (hphone.resolve_left hne) hnoPhone

/-- **The rows against which there is no reason of their own** are the usable ones. -/
theorem reasons_eq_nil_iff (hnodup : (mapping.map Prod.snd).Nodup) (defaultSource : String) (raw : Dict) :
    (judgeRow lower mapping defaultSource raw).reasons = [] ↔ UsableRow lower mapping raw := by
  have hcell : ∀ {field : String}, captureFields.contains field = false → field ≠ "first_name" →
      (nameRow (readMapped raw mapping ([], [])).1 (rowCapture mapping raw)).1.get field =
        columnCell mapping raw field := by
    intro field hfield hname
    rw [nameRow_get _ _ hname, readMapped_get raw hnodup hfield]
  rw [judgeRow_eq, judgeContact_reasons_iff, nameRow_reasons_iff hnodup, judgeEmail_reasons_iff,
    @hcell "email" (by decide) (by decide), @hcell "phone" (by decide) (by decide)]
  constructor
  · rintro ⟨hnamed, hemail, hphone, hcontact⟩
    exact ⟨hnamed, hemail, hphone, hcontact⟩
  · rintro ⟨hnamed, hemail, hphone, hcontact⟩
    exact ⟨hnamed, hemail, hphone, hcontact⟩

/-- What a usable row keeps of its cells. -/
structure KeptCells (lower : String → String) (mapping : Texts) (raw : Dict) (row : JudgedRow) : Prop where
  named : row.values.get "first_name" ≠ ""
  email : row.values.get "email" =
    if columnCell mapping raw "email" = "" then "" else lower (columnCell mapping raw "email")
  phone : row.values.get "phone" = slice (columnCell mapping raw "phone") 20
  dedupeValue : row.dedupeValue = knownBy lower mapping raw

theorem keptCells (hnodup : (mapping.map Prod.snd).Nodup) (h : UsableRow lower mapping raw) :
    KeptCells lower mapping raw (judgeRow lower mapping defaultSource raw) := by
  have hreasons := (reasons_eq_nil_iff hnodup defaultSource raw).mpr h
  have hcontact := judgeRow_accepted hreasons
  have hcell : ∀ {field : String}, captureFields.contains field = false →
      fieldCell mapping raw field = columnCell mapping raw field := fun hfield => readMapped_get raw hnodup hfield
  rw [@hcell "email" (by decide), @hcell "phone" (by decide)] at hcontact
  have hemail := hcontact.email_eq
  refine ⟨?_, hcontact.stored_email.trans hemail, hcontact.stored_phone, ?_⟩
  · -- the contact person, else the business
    have hname := (nameRow_reasons_iff hnodup raw).mpr h.named
    have hlookup : (judgeRow lower mapping defaultSource raw).values.lookup "first_name" =
        some (neutraliseFormula
          (slice (rowName (readMapped raw mapping ([], [])).1 (rowCapture mapping raw)) 120)) := by
      rw [judgeRow_eq] at hreasons ⊢
      rw [judgeContact_lookup hreasons (by decide), if_neg (by decide), if_neg fun hboth => absurd hboth.1 (by decide),
        nameRow_lookup hname, if_pos rfl]
    rw [Texts.get, hlookup, Option.getD_some]
    refine neutraliseFormula_ne_empty (cut_ne_empty ?_ 119)
    unfold rowName
    rw [readMapped_get raw hnodup (by decide)]
    split_ifs with hempty
    · have hcompany := h.named.resolve_left fun hne => hne hempty
      rw [Dict.get, rowCapture_lookup hnodup raw (by decide), if_pos ⟨by decide, hcompany⟩]
      exact cut_ne_empty (neutraliseFormula_ne_empty (cut_ne_empty hcompany 499)) 119
    · exact hempty
  · unfold JudgedRow.dedupeValue knownBy
    by_cases hempty : columnCell mapping raw "email" = ""
    · have hphone := h.contact.resolve_left fun hne => hne hempty
      rw [hemail, if_pos hempty, if_pos rfl, if_pos hempty, hcontact.phoneDigits_eq, if_neg hphone]
    · have hat := hcontact.email_at hempty
      have hne : (judgeRow lower mapping defaultSource raw).email ≠ "" := by
        intro heq
        rw [heq] at hat
        exact absurd hat List.not_mem_nil
      rw [if_neg hne, if_neg hempty, hemail, if_neg hempty]

theorem knownBy_ne_empty (h : UsableRow lower mapping raw) : knownBy lower mapping raw ≠ "" := by
  unfold knownBy
  split_ifs with hempty
  · exact normalisePhoneDigits_ne_empty (h.phone.resolve_left (h.contact.resolve_left fun hne => hne hempty))
  · intro heq
    have hvalid := (h.email.resolve_left hempty).1
    rw [heq] at hvalid
    cases hvalid

/-! ## The loop -/

variable (lower mapping) in
/-- The row is usable, and no usable row above it is known by the same. -/
structure FirstUsable (rows : List Dict) (i : ℕ) (raw : Dict) : Prop where
  row : rows[i]? = some raw
  usable : UsableRow lower mapping raw
  first : ∀ j < i, ∀ above, rows[j]? = some above → UsableRow lower mapping above →
    knownBy lower mapping above ≠ knownBy lower mapping raw

theorem firstUsable_zero_iff {head : Dict} {rest : List Dict} :
    FirstUsable lower mapping (head :: rest) 0 raw ↔ head = raw ∧ UsableRow lower mapping raw := by
  constructor
  · intro h
    exact ⟨Option.some.inj h.row, h.usable⟩
  · rintro ⟨rfl, husable⟩
    exact ⟨rfl, husable, fun j hj => absurd hj (Nat.not_lt_zero j)⟩

/-- The first under a name in the rest of a file, if the row above is not known by the same. -/
theorem firstUsable_succ_iff {head : Dict} {rest : List Dict} {i : ℕ} :
    FirstUsable lower mapping (head :: rest) (i + 1) raw ↔ FirstUsable lower mapping rest i raw ∧
      (UsableRow lower mapping head → knownBy lower mapping head ≠ knownBy lower mapping raw) := by
  constructor
  · intro h
    exact ⟨⟨h.row, h.usable, fun j hj => h.first (j + 1) (by omega)⟩, h.first 0 (by omega) head rfl⟩
  · rintro ⟨h, hhead⟩
    refine ⟨h.row, h.usable, fun j hj above habove husable => ?_⟩
    cases j with
    | zero =>
      obtain rfl := Option.some.inj habove
      exact hhead husable
    | succ j => exact h.first j (by omega) above habove husable

variable (lower mapping defaultSource) in
/-- What a row becomes when it is accepted. -/
def acceptedRow (rowNumber : ℕ) (raw : Dict) : AcceptedRow :=
  let row := judgeRow lower mapping defaultSource raw
  ⟨rowNumber, row.values, row.capture, row.dedupeValue⟩

@[simp] theorem acceptedRow_rowNumber (rowNumber : ℕ) (raw : Dict) :
    (acceptedRow lower mapping defaultSource rowNumber raw).rowNumber = rowNumber := rfl

@[simp] theorem acceptedRow_values (rowNumber : ℕ) (raw : Dict) :
    (acceptedRow lower mapping defaultSource rowNumber raw).values =
      (judgeRow lower mapping defaultSource raw).values := by
  rw [acceptedRow]

@[simp] theorem acceptedRow_dedupeValue (rowNumber : ℕ) (raw : Dict) :
    (acceptedRow lower mapping defaultSource rowNumber raw).dedupeValue =
      (judgeRow lower mapping defaultSource raw).dedupeValue := by
  rw [acceptedRow]

section Loop

variable (hnodup : (mapping.map Prod.snd).Nodup) {rows : List Dict} {rowNumber : ℕ} {seen : List (String × ℕ)}

include hnodup

/-- A usable row that is not known yet is accepted. -/
theorem planRows_of_new (h : UsableRow lower mapping raw) (hnew : seen.lookup (knownBy lower mapping raw) = none) :
    planRows lower mapping defaultSource (raw :: rows) rowNumber seen =
      let plan := planRows lower mapping defaultSource rows (rowNumber + 1)
        ((knownBy lower mapping raw, rowNumber) :: seen)
      ⟨acceptedRow lower mapping defaultSource rowNumber raw :: plan.accepted, plan.rejected⟩ := by
  have hreasons := (reasons_eq_nil_iff hnodup defaultSource raw).mpr h
  have hvalue := (@keptCells lower mapping defaultSource raw hnodup h).dedupeValue
  have hrepeat : repeatReasons seen (knownBy lower mapping raw) = [] := by
    unfold repeatReasons
    rw [hnew]
    split_ifs <;> rfl
  conv_lhs => unfold planRows
  unfold acceptedRow
  dsimp only
  rw [hreasons, hvalue, hrepeat, List.append_nil, if_pos List.isEmpty_nil]

/-- Any other row is rejected with a reason. -/
theorem planRows_of_not (h : ¬(UsableRow lower mapping raw ∧ seen.lookup (knownBy lower mapping raw) = none)) :
    ∃ reasons, reasons ≠ [] ∧ planRows lower mapping defaultSource (raw :: rows) rowNumber seen =
      let plan := planRows lower mapping defaultSource rows (rowNumber + 1) seen
      ⟨plan.accepted, ⟨rowNumber, reasons, raw⟩ :: plan.rejected⟩ := by
  have hne : (judgeRow lower mapping defaultSource raw).reasons ++
      repeatReasons seen (judgeRow lower mapping defaultSource raw).dedupeValue ≠ [] := by
    rw [Ne, List.append_eq_nil_iff, reasons_eq_nil_iff hnodup]
    rintro ⟨husable, hrepeat⟩
    rw [(@keptCells lower mapping defaultSource raw hnodup husable).dedupeValue, repeatReasons,
      if_neg (knownBy_ne_empty husable)] at hrepeat
    split at hrepeat
    · cases hrepeat
    · rename_i hnew
      exact h ⟨husable, hnew⟩
  refine ⟨_, hne, ?_⟩
  conv_lhs => unfold planRows
  dsimp only
  rw [if_neg fun hempty => hne (List.isEmpty_iff.mp hempty)]

/-- What holds of every plan, by the two ways in which a row is added to it. -/
theorem planRows_induction {P : List Dict → ℕ → List (String × ℕ) → ImportPlan → Prop}
    (nil : ∀ n known, P [] n known ⟨[], []⟩)
    (accept : ∀ head rest n known plan, UsableRow lower mapping head →
      known.lookup (knownBy lower mapping head) = none → P rest (n + 1) ((knownBy lower mapping head, n) :: known) plan →
        P (head :: rest) n known ⟨acceptedRow lower mapping defaultSource n head :: plan.accepted, plan.rejected⟩)
    (reject : ∀ head rest n known plan reasons,
      ¬(UsableRow lower mapping head ∧ known.lookup (knownBy lower mapping head) = none) → reasons ≠ [] →
        P rest (n + 1) known plan → P (head :: rest) n known ⟨plan.accepted, ⟨n, reasons, head⟩ :: plan.rejected⟩) :
    P rows rowNumber seen (planRows lower mapping defaultSource rows rowNumber seen) := by
  induction rows generalizing rowNumber seen with
  | nil => exact nil rowNumber seen
  | cons head rest ih =>
    by_cases hhead : UsableRow lower mapping head ∧ seen.lookup (knownBy lower mapping head) = none
    · rw [planRows_of_new hnodup hhead.1 hhead.2]
      exact accept head rest rowNumber seen _ hhead.1 hhead.2 ih
    · obtain ⟨reasons, hreasons, hplan⟩ :=
        @planRows_of_not lower mapping defaultSource head hnodup rest rowNumber seen hhead
      rw [hplan]
      exact reject head rest rowNumber seen _ reasons hhead hreasons ih

/-- The accepted rows of the rest of a file, when some are known already. -/
theorem mem_accepted_seen_iff {row : AcceptedRow} :
    row ∈ (planRows lower mapping defaultSource rows rowNumber seen).accepted ↔
      ∃ i raw, FirstUsable lower mapping rows i raw ∧ seen.lookup (knownBy lower mapping raw) = none ∧
        row = acceptedRow lower mapping defaultSource (rowNumber + i) raw := by
  have hshift : ∀ n i : ℕ, n + 1 + i = n + (i + 1) := by omega
  refine planRows_induction hnodup (P := fun rows n known plan => row ∈ plan.accepted ↔
    ∃ i raw, FirstUsable lower mapping rows i raw ∧ known.lookup (knownBy lower mapping raw) = none ∧
      row = acceptedRow lower mapping defaultSource (n + i) raw) (fun n known => ?_)
    (fun head rest n known plan hhead hnew ih => ?_) (fun head rest n known plan reasons hhead _ ih => ?_)
  · exact iff_of_false List.not_mem_nil (fun ⟨_, _, hfirst, _⟩ => nomatch hfirst.row)
  · rw [List.mem_cons, ih]
    constructor
    · rintro (rfl | ⟨i, raw, hfirst, hseen, rfl⟩)
      · exact ⟨0, head, firstUsable_zero_iff.mpr ⟨rfl, hhead⟩, hnew, rfl⟩
      · rw [List.lookup_cons] at hseen
        split at hseen
        · cases hseen
        · rename_i hother
          have hne : knownBy lower mapping head ≠ knownBy lower mapping raw := by
            intro hsame
            simp [hsame] at hother
          exact ⟨i + 1, raw, firstUsable_succ_iff.mpr ⟨hfirst, fun _ => hne⟩, hseen, by rw [hshift]⟩
    · rintro ⟨i, raw, hfirst, hseen, rfl⟩
      cases i with
      | zero =>
        obtain ⟨rfl, -⟩ := firstUsable_zero_iff.mp hfirst
        exact .inl rfl
      | succ i =>
        obtain ⟨hrest, hne⟩ := firstUsable_succ_iff.mp hfirst
        refine .inr ⟨i, raw, hrest, ?_, by rw [hshift]⟩
        rw [List.lookup_cons, beq_false_of_ne (Ne.symm (hne hhead))]
        exact hseen
  · rw [ih]
    constructor
    · rintro ⟨i, raw, hfirst, hseen, rfl⟩
      -- a usable row that is known already is not the first
      have hne : UsableRow lower mapping head → knownBy lower mapping head ≠ knownBy lower mapping raw :=
        fun husable hsame => hhead ⟨husable, (congrArg (List.lookup · known) hsame).trans hseen⟩
      exact ⟨i + 1, raw, firstUsable_succ_iff.mpr ⟨hfirst, hne⟩, hseen, by rw [hshift]⟩
    · rintro ⟨i, raw, hfirst, hseen, rfl⟩
      cases i with
      | zero =>
        obtain ⟨rfl, husable⟩ := firstUsable_zero_iff.mp hfirst
        exact absurd ⟨husable, hseen⟩ hhead
      | succ i => exact ⟨i, raw, (firstUsable_succ_iff.mp hfirst).1, hseen, by rw [hshift]⟩

/-- **The accepted rows** are the usable ones that are the first under what they are known by. -/
theorem mem_accepted_iff {row : AcceptedRow} :
    row ∈ (planRows lower mapping defaultSource rows rowNumber []).accepted ↔
      ∃ i raw, FirstUsable lower mapping rows i raw ∧
        row = acceptedRow lower mapping defaultSource (rowNumber + i) raw := by
  rw [mem_accepted_seen_iff hnodup]
  refine exists₂_congr fun i raw => and_congr_right fun _ => ?_
  exact ⟨fun h => h.2, fun h => ⟨rfl, h⟩⟩

theorem rowNumber_of_mem_accepted {row : AcceptedRow}
    (h : row ∈ (planRows lower mapping defaultSource rows rowNumber seen).accepted) : rowNumber ≤ row.rowNumber := by
  obtain ⟨i, raw, -, -, rfl⟩ := (mem_accepted_seen_iff hnodup).mp h
  exact Nat.le_add_right _ _

/-- Every row has its number once, and both lists go down the file. -/
theorem numbers_planRows :
    (((planRows lower mapping defaultSource rows rowNumber seen).accepted.map AcceptedRow.rowNumber ++
      (planRows lower mapping defaultSource rows rowNumber seen).rejected.map RejectedRow.rowNumber).Perm
        (List.range' rowNumber rows.length)) ∧
    ((planRows lower mapping defaultSource rows rowNumber seen).accepted.map AcceptedRow.rowNumber).Sublist
      (List.range' rowNumber rows.length) ∧
    ((planRows lower mapping defaultSource rows rowNumber seen).rejected.map RejectedRow.rowNumber).Sublist
      (List.range' rowNumber rows.length) := by
  refine planRows_induction hnodup (P := fun rows n _ plan =>
    (plan.accepted.map AcceptedRow.rowNumber ++ plan.rejected.map RejectedRow.rowNumber).Perm
      (List.range' n rows.length) ∧
    (plan.accepted.map AcceptedRow.rowNumber).Sublist (List.range' n rows.length) ∧
    (plan.rejected.map RejectedRow.rowNumber).Sublist (List.range' n rows.length)) (fun n known => ?_)
    (fun head rest n known plan _ _ ih => ?_) (fun head rest n known plan reasons _ _ ih => ?_)
  · exact ⟨.nil, .slnil, .slnil⟩
  · obtain ⟨hperm, haccepted, hrejected⟩ := ih
    rw [List.length_cons, List.range'_succ, List.map_cons, List.cons_append]
    exact ⟨hperm.cons _, haccepted.cons_cons _, hrejected.cons _⟩
  · obtain ⟨hperm, haccepted, hrejected⟩ := ih
    rw [List.length_cons, List.range'_succ, List.map_cons]
    exact ⟨List.perm_middle.trans (hperm.cons _), haccepted.cons _, hrejected.cons_cons _⟩

theorem reasons_of_mem_rejected :
    ∀ row ∈ (planRows lower mapping defaultSource rows rowNumber seen).rejected, row.reasons ≠ [] := by
  refine planRows_induction hnodup (P := fun _ _ _ plan => ∀ row ∈ plan.rejected, row.reasons ≠ [])
    (fun n known row hrow => absurd hrow List.not_mem_nil) (fun head rest n known plan _ _ ih => ih)
    (fun head rest n known plan reasons _ hreasons ih row hrow => ?_)
  rcases List.mem_cons.mp hrow with rfl | hrow
  · exact hreasons
  · exact ih row hrow

/-- No two accepted rows have one value, and none has one that was known. -/
theorem nodup_dedupeValue :
    ((planRows lower mapping defaultSource rows rowNumber seen).accepted.map AcceptedRow.dedupeValue).Nodup ∧
    ∀ row ∈ (planRows lower mapping defaultSource rows rowNumber seen).accepted,
      seen.lookup row.dedupeValue = none := by
  refine planRows_induction hnodup (P := fun _ _ known plan => (plan.accepted.map AcceptedRow.dedupeValue).Nodup ∧
    ∀ row ∈ plan.accepted, known.lookup row.dedupeValue = none) (fun n known => ?_)
    (fun head rest n known plan hhead hnew ih => ?_) (fun head rest n known plan reasons _ _ ih => ih)
  · exact ⟨List.nodup_nil, fun row hrow => absurd hrow List.not_mem_nil⟩
  · obtain ⟨hdistinct, hunknown⟩ := ih
    have hvalue := (@keptCells lower mapping defaultSource head hnodup hhead).dedupeValue
    refine ⟨?_, fun row hrow => ?_⟩
    · rw [List.map_cons, List.nodup_cons, acceptedRow_dedupeValue, hvalue]
      refine ⟨fun hmem => ?_, hdistinct⟩
      obtain ⟨row, hrow, hsame⟩ := List.mem_map.mp hmem
      have hknown := hunknown row hrow
      rw [hsame, List.lookup_cons_self] at hknown
      cases hknown
    · rcases List.mem_cons.mp hrow with rfl | hrow
      · rw [acceptedRow_dedupeValue, hvalue]
        exact hnew
      · have hknown := hunknown row hrow
        rw [List.lookup_cons] at hknown
        split at hknown
        · cases hknown
        · exact hknown

/-- What is accepted of the first rows does not depend on the rows after them. -/
theorem accepted_take (k : ℕ) : (planRows lower mapping defaultSource (rows.take k) rowNumber seen).accepted =
    (planRows lower mapping defaultSource rows rowNumber seen).accepted.filter
      fun row => row.rowNumber < rowNumber + k := by
  induction rows generalizing rowNumber seen k with
  | nil =>
    rw [List.take_nil]
    rfl
  | cons head rows ih =>
    cases k with
    | zero =>
      refine (List.filter_eq_nil_iff.mpr fun row hrow => ?_).symm
      have hnumber := rowNumber_of_mem_accepted hnodup hrow
      simpa using hnumber
    | succ k =>
      have hshift : (fun row : AcceptedRow => decide (row.rowNumber < rowNumber + (k + 1))) =
          fun row => decide (row.rowNumber < rowNumber + 1 + k) := by
        funext row
        rw [Nat.add_right_comm, Nat.add_assoc]
      rw [List.take_succ_cons, hshift]
      by_cases hhead : UsableRow lower mapping head ∧ seen.lookup (knownBy lower mapping head) = none
      · rw [planRows_of_new hnodup hhead.1 hhead.2, planRows_of_new hnodup hhead.1 hhead.2]
        dsimp only
        rw [ih, List.filter_cons, if_pos]
        rw [acceptedRow_rowNumber, decide_eq_true_eq]
        omega
      · obtain ⟨reasons, -, hplan⟩ :=
          @planRows_of_not lower mapping defaultSource head hnodup rows rowNumber seen hhead
        obtain ⟨reasons', -, hplan'⟩ :=
          @planRows_of_not lower mapping defaultSource head hnodup (rows.take k) rowNumber seen hhead
        rw [hplan, hplan']
        exact ih k

end Loop

/-! ## Twins -/

/-- The last ten digits of a phone that has them. -/
def tenDigits (phone : String) : Option String :=
  if 10 ≤ (digitsOf phone).length then some (normalisePhoneDigits phone) else none

/-- The phone of an accepted row: as the file has it, or as it is kept. -/
inductive PhoneReading where
  | written | kept

namespace PhoneReading

variable (mapping) in
/-- The phone of the accepted row, among the rows of the file. -/
def ofRow (rows : List Dict) (row : AcceptedRow) : PhoneReading → String
  | written => columnCell mapping (rows.getD (row.rowNumber - 2) []) "phone"
  | kept => row.values.get "phone"

/-- The phone, from the cell. -/
def ofCell (cell : String) : PhoneReading → String
  | written => cell
  | kept => slice cell 20

end PhoneReading

variable (mapping) in
/-- No two accepted rows share an email, and no two share a phone. -/
structure NoTwins (reading : PhoneReading) (rows : List Dict) (plan : ImportPlan) : Prop where
  emails : ∀ a ∈ plan.accepted, ∀ b ∈ plan.accepted, a.values.get "email" ≠ "" →
    a.values.get "email" = b.values.get "email" → a.rowNumber = b.rowNumber
  phones : ∀ a ∈ plan.accepted, ∀ b ∈ plan.accepted, ∀ ten, tenDigits (reading.ofRow mapping rows a) = some ten →
    tenDigits (reading.ofRow mapping rows b) = some ten → a.rowNumber = b.rowNumber

theorem ofRow_acceptedRow (hnodup : (mapping.map Prod.snd).Nodup) {rows : List Dict} {i : ℕ}
    (h : FirstUsable lower mapping rows i raw) (reading : PhoneReading) :
    reading.ofRow mapping rows (acceptedRow lower mapping defaultSource (2 + i) raw) =
      reading.ofCell (columnCell mapping raw "phone") := by
  cases reading with
  | written =>
    show columnCell mapping (rows.getD (2 + i - 2) []) "phone" = _
    rw [Nat.add_sub_cancel_left, List.getD_eq_getElem?_getD, h.row]
    rfl
  | kept =>
    unfold PhoneReading.ofRow PhoneReading.ofCell
    rw [acceptedRow_values, (keptCells hnodup h.usable).phone]

/-- Two rows known by one thing are one. -/
theorem FirstUsable.eq_of_knownBy {rows : List Dict} {i j : ℕ} {raw raw' : Dict}
    (h : FirstUsable lower mapping rows i raw) (h' : FirstUsable lower mapping rows j raw')
    (hsame : knownBy lower mapping raw = knownBy lower mapping raw') : i = j := by
  rcases Nat.lt_trichotomy i j with hlt | heq | hgt
  · exact absurd hsame (h'.first i hlt raw h.row h.usable)
  · exact heq
  · exact absurd hsame.symm (h.first j hgt raw' h'.row h'.usable)

theorem plan_of_planImport {rows : List Dict} {plan : ImportPlan}
    (h : planImport lower rows mapping defaultSource = .ok plan) :
    plan = planRows lower mapping defaultSource rows 2 [] := by
  unfold planImport at h
  split_ifs at h
  exact (Except.ok.inj h).symm

/-- **When no two accepted rows are twins**, whichever way their phones are read. -/
theorem noTwins_iff (reading : PhoneReading) {m : Mapping} (hmapping : validateMapping m = .ok mapping)
    {rows : List Dict} {plan : ImportPlan} (hplan : planImport lower rows mapping defaultSource = .ok plan) :
    NoTwins mapping reading rows plan ↔
      ∀ i raw j raw', FirstUsable lower mapping rows i raw → FirstUsable lower mapping rows j raw' →
        ∀ ten, tenDigits (reading.ofCell (columnCell mapping raw "phone")) = some ten →
          tenDigits (reading.ofCell (columnCell mapping raw' "phone")) = some ten → i = j := by
  have hnodup := (targets_of_validateMapping hmapping).1
  rw [plan_of_planImport hplan]
  constructor
  · intro h i raw j raw' hi hj ten hten hten'
    have hnumber := h.phones _ ((mem_accepted_iff hnodup).mpr ⟨i, raw, hi, rfl⟩) _
      ((mem_accepted_iff hnodup).mpr ⟨j, raw', hj, rfl⟩) ten
      (by rw [ofRow_acceptedRow hnodup hi, hten]) (by rw [ofRow_acceptedRow hnodup hj, hten'])
    exact Nat.add_left_cancel hnumber
  · intro h
    refine ⟨fun a ha b hb hemail hsame => ?_, fun a ha b hb ten hten hten' => ?_⟩
    · obtain ⟨i, raw, hi, rfl⟩ := (mem_accepted_iff hnodup).mp ha
      obtain ⟨j, raw', hj, rfl⟩ := (mem_accepted_iff hnodup).mp hb
      have hstored := (@keptCells lower mapping defaultSource raw hnodup hi.usable).email
      have hstored' := (@keptCells lower mapping defaultSource raw' hnodup hj.usable).email
      rw [acceptedRow_values] at hemail hsame
      rw [acceptedRow_values] at hsame
      rw [← hsame] at hstored'
      split_ifs at hstored with hempty
      · exact absurd hstored hemail
      · split_ifs at hstored' with hempty'
        · exact absurd hstored' hemail
        · have hknown : knownBy lower mapping raw = knownBy lower mapping raw' := by
            unfold knownBy
            rw [if_neg hempty, if_neg hempty', ← hstored, ← hstored']
          exact congrArg (2 + ·) (hi.eq_of_knownBy hj hknown)
    · obtain ⟨i, raw, hi, rfl⟩ := (mem_accepted_iff hnodup).mp ha
      obtain ⟨j, raw', hj, rfl⟩ := (mem_accepted_iff hnodup).mp hb
      rw [ofRow_acceptedRow hnodup hi] at hten
      rw [ofRow_acceptedRow hnodup hj] at hten'
      exact congrArg (2 + ·) (h i raw j raw' hi hj ten hten hten')

/-! ## Partitions -/

variable (lower mapping defaultSource) in
/-- What a plan is to be: each row once, accepted or rejected for a reason, and an accepted row can be named and
contacted, is no repetition and does not depend on the rows below it. -/
structure Partitioned (rows : List Dict) (plan : ImportPlan) : Prop where
  numbers : (plan.accepted.map AcceptedRow.rowNumber ++ plan.rejected.map RejectedRow.rowNumber).Perm
    (List.range' 2 rows.length)
  accepted_increasing : (plan.accepted.map AcceptedRow.rowNumber).Pairwise (· < ·)
  rejected_increasing : (plan.rejected.map RejectedRow.rowNumber).Pairwise (· < ·)
  reasons : ∀ row ∈ plan.rejected, row.reasons ≠ []
  named : ∀ row ∈ plan.accepted, row.values.get "first_name" ≠ ""
  contactable : ∀ row ∈ plan.accepted,
    isEmail (row.values.get "email") = true ∧ (row.values.get "email").length ≤ 320 ∨
      10 ≤ (digitsOf (row.values.get "phone")).length
  distinct : (plan.accepted.map AcceptedRow.dedupeValue).Nodup
  settled : ∀ k, 0 < k → ∃ plan', planImport lower (rows.take k) mapping defaultSource = .ok plan' ∧
    plan'.accepted = plan.accepted.filter fun row => row.rowNumber < 2 + k

theorem planImport_eq {rows : List Dict} (hne : rows ≠ []) (hmax : rows.length ≤ maxRows) :
    planImport lower rows mapping defaultSource = .ok (planRows lower mapping defaultSource rows 2 []) := by
  unfold planImport
  rw [if_neg fun hempty => hne (List.isEmpty_iff.mp hempty), if_neg (Nat.not_lt.mpr hmax)]

/-- **When a plan partitions the file** with accepted rows that can be contacted: each of them that has no email
keeps the digits of its phone in the twenty characters that are kept of it. -/
theorem partitioned_iff {m : Mapping} (hmapping : validateMapping m = .ok mapping) (defaultSource : String)
    {rows : List Dict} (hne : rows ≠ []) (hmax : rows.length ≤ maxRows) :
    ∃ plan, planImport lower rows mapping defaultSource = .ok plan ∧
      (Partitioned lower mapping defaultSource rows plan ↔
        ∀ i raw, FirstUsable lower mapping rows i raw → columnCell mapping raw "email" = "" →
          10 ≤ (digitsOf (slice (columnCell mapping raw "phone") 20)).length) := by
  have hnodup := (targets_of_validateMapping hmapping).1
  refine ⟨_, planImport_eq hne hmax, fun h i raw hfirst hempty => ?_, fun h => ?_⟩
  · have hcells := @keptCells lower mapping defaultSource raw hnodup hfirst.usable
    have hcontact := h.contactable _ ((mem_accepted_iff hnodup).mpr ⟨i, raw, hfirst, rfl⟩)
    rw [acceptedRow_values, hcells.email, if_pos hempty, hcells.phone] at hcontact
    exact hcontact.resolve_left fun hemail => absurd hemail.1 (by decide)
  · obtain ⟨hperm, haccepted, hrejected⟩ := @numbers_planRows lower mapping defaultSource hnodup rows 2 []
    refine ⟨hperm, List.Pairwise.sublist haccepted List.pairwise_lt_range',
      List.Pairwise.sublist hrejected List.pairwise_lt_range',
      reasons_of_mem_rejected hnodup, fun row hrow => ?_, fun row hrow => ?_,
      (nodup_dedupeValue hnodup).1, fun k hk => ?_⟩
    · obtain ⟨i, raw, hfirst, rfl⟩ := (mem_accepted_iff hnodup).mp hrow
      rw [acceptedRow_values]
      exact (keptCells hnodup hfirst.usable).named
    · obtain ⟨i, raw, hfirst, rfl⟩ := (mem_accepted_iff hnodup).mp hrow
      have hcells := @keptCells lower mapping defaultSource raw hnodup hfirst.usable
      rw [acceptedRow_values, hcells.email, hcells.phone]
      by_cases hempty : columnCell mapping raw "email" = ""
      · exact .inr (h i raw hfirst hempty)
      · rw [if_neg hempty]
        exact .inl (hfirst.usable.email.resolve_left hempty)
    · have htake : rows.take k ≠ [] := by
        rw [Ne, List.take_eq_nil_iff]
        rintro (hzero | hnil)
        · omega
        · exact hne hnil
      have hlength : (rows.take k).length ≤ maxRows := (List.length_take_le' k rows).trans hmax
      exact ⟨_, planImport_eq htake hlength, accepted_take hnodup k⟩

end Judged

/-! ## Files -/

def contactColumns : Mapping := [("Name", some "first_name"), ("Email", some "email"), ("Phone", some "phone")]

def contactTargets : Texts := [("Name", "first_name"), ("Email", "email"), ("Phone", "phone")]

theorem validateMapping_contactColumns : validateMapping contactColumns = .ok contactTargets := by
  exact eq_ok_of_toOption (by decide +kernel)

def contactRow (name email phone : String) : Dict :=
  [("Name", .str name), ("Email", .str email), ("Phone", .str phone)]

theorem noTwins_two_phones : ∃ plan,
    planImport Py.lower [contactRow "Asha" "asha@stores.in" "9845012201", contactRow "Ravi" "" "9845012202"]
        contactTargets "csv_import" = .ok plan ∧
      NoTwins contactTargets .written
        [contactRow "Asha" "asha@stores.in" "9845012201", contactRow "Ravi" "" "9845012202"] plan := by
  have hplan := @planImport_eq Py.lower contactTargets "csv_import"
    [contactRow "Asha" "asha@stores.in" "9845012201", contactRow "Ravi" "" "9845012202"] (by simp) (by decide)
  refine ⟨_, hplan, (noTwins_iff .written validateMapping_contactColumns hplan).mpr ?_⟩
  rintro (_ | _ | i) raw (_ | _ | j) raw' hi hj ten hten hten'
  · rfl
  · rw [← Option.some.inj hi.row] at hten
    rw [← Option.some.inj hj.row, ← hten] at hten'
    exact absurd hten' (by decide +kernel)
  · exact absurd hj.row nofun
  · rw [← Option.some.inj hi.row] at hten
    rw [← Option.some.inj hj.row, ← hten] at hten'
    exact absurd hten' (by decide +kernel)
  · rfl
  · exact absurd hj.row nofun
  · exact absurd hi.row nofun
  · exact absurd hi.row nofun
  · exact absurd hi.row nofun

/-- Two rows with one phone, each with an email: both are accepted. -/
theorem twins_accepted : ∃ plan,
    planImport Py.lower [contactRow "Asha" "asha@stores.in" "9845012201",
      contactRow "Ravi" "ravi@stores.in" "9845012201"]
        contactTargets "csv_import" = .ok plan ∧
      ∀ reading, ¬NoTwins contactTargets reading
        [contactRow "Asha" "asha@stores.in" "9845012201", contactRow "Ravi" "ravi@stores.in" "9845012201"] plan := by
  have haccepted : ((planImport Py.lower [contactRow "Asha" "asha@stores.in" "9845012201",
      contactRow "Ravi" "ravi@stores.in" "9845012201"] contactTargets "csv_import").toOption.map fun plan =>
        plan.accepted.map fun row => (row.rowNumber, row.values.get "phone")) =
      some [(2, "9845012201"), (3, "9845012201")] := by decide +kernel
  obtain ⟨plan, hplan, hrows⟩ := Option.map_eq_some_iff.mp haccepted
  refine ⟨plan, eq_ok_of_toOption hplan, fun reading h => ?_⟩
  obtain ⟨a, ha, hrow⟩ := List.mem_map.mp (hrows ▸ List.mem_cons_self : (2, "9845012201") ∈ _)
  obtain ⟨b, hb, hrow'⟩ := List.mem_map.mp (hrows ▸ List.mem_cons_of_mem _ List.mem_cons_self : (3, "9845012201") ∈ _)
  obtain ⟨hnumber, hphone⟩ := Prod.mk.inj hrow
  obtain ⟨hnumber', hphone'⟩ := Prod.mk.inj hrow'
  have hsame := h.phones a ha b hb "9845012201" ?_ ?_
  · omega
  · cases reading with
    | written => rw [PhoneReading.ofRow, hnumber]; decide +kernel
    | kept => rw [PhoneReading.ofRow, hphone]; decide +kernel
  · cases reading with
    | written => rw [PhoneReading.ofRow, hnumber']; decide +kernel
    | kept => rw [PhoneReading.ofRow, hphone']; decide +kernel

theorem partitioned_two_phones : ∃ plan,
    planImport Py.lower [contactRow "Asha" "asha@stores.in" "9845012201", contactRow "Ravi" "" "9845012202"]
        contactTargets "csv_import" = .ok plan ∧
      Partitioned Py.lower contactTargets "csv_import"
        [contactRow "Asha" "asha@stores.in" "9845012201", contactRow "Ravi" "" "9845012202"] plan := by
  obtain ⟨plan, hplan, hiff⟩ := @partitioned_iff Py.lower contactTargets contactColumns validateMapping_contactColumns
    "csv_import" [contactRow "Asha" "asha@stores.in" "9845012201", contactRow "Ravi" "" "9845012202"] (by simp)
      (by decide)
  refine ⟨plan, hplan, hiff.mpr ?_⟩
  rintro (_ | _ | i) raw hfirst hempty
  · rw [← Option.some.inj hfirst.row]
    decide +kernel
  · rw [← Option.some.inj hfirst.row]
    decide +kernel
  · exact absurd hfirst.row nofun

/-- A row that is accepted for a phone of which nothing is kept. -/
theorem phone_cut_away : ∃ plan,
    planImport Py.lower [contactRow "Asha" "" "call me maybe please 9845012201"] contactTargets "csv_import" =
        .ok plan ∧
      (plan.accepted.map fun row => (row.values.get "email", row.values.get "phone")) =
        [("", "call me maybe please")] ∧
      ¬Partitioned Py.lower contactTargets "csv_import" [contactRow "Asha" "" "call me maybe please 9845012201"]
        plan := by
  have haccepted : ((planImport Py.lower [contactRow "Asha" "" "call me maybe please 9845012201"] contactTargets
      "csv_import").toOption.map fun plan => plan.accepted.map fun row =>
        (row.values.get "email", row.values.get "phone")) = some [("", "call me maybe please")] := by decide +kernel
  obtain ⟨plan, hplan, hrows⟩ := Option.map_eq_some_iff.mp haccepted
  refine ⟨plan, eq_ok_of_toOption hplan, hrows, fun h => ?_⟩
  obtain ⟨row, hmem, hrow⟩ := List.mem_map.mp (hrows ▸ List.mem_cons_self : ("", "call me maybe please") ∈ _)
  obtain ⟨hemail, hphone⟩ := Prod.mk.inj hrow
  have hcontact := h.contactable row hmem
  rw [hemail, hphone] at hcontact
  revert hcontact
  decide +kernel

end RevenueOS.Leads
