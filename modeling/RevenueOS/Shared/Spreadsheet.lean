import RevenueOS.Leads.Formulas

/-!
# RevenueOS.Shared.Spreadsheet — `neutralise_formula` on any text

`shared/utils/spreadsheet.py`.  The exemption for negative numbers looks at one character behind the minus sign, and
behind tabs and line breaks that it does not take away.

* `neutralise_defuses_iff`: the texts that are defused.
-/

namespace RevenueOS.Shared

open RevenueOS.Py RevenueOS.Leads

/-- A minus sign followed only by a decimal numeral. -/
def isNegativeNumber (value : String) : Bool :=
  match value.toList with
  | c :: rest => c == '-' && isPlainNumber rest
  | [] => false

example : isNegativeNumber "-500.25" = true := by decide +kernel

/-- What `neutralise_formula` is to do: it adds one quote or nothing, leaves a formula only where a negative number
stands, does not touch a text that is no formula, and does nothing to what it returned. -/
structure Defused (value : String) : Prop where
  quoted : neutraliseFormula value = value ∨ neutraliseFormula value = "'" ++ value
  safe : looksLikeFormula (neutraliseFormula value) = true → isNegativeNumber value = true
  untouched : looksLikeFormula value = false → neutraliseFormula value = value
  idempotent : neutraliseFormula (neutraliseFormula value) = neutraliseFormula value

theorem neutraliseFormula_quoted (value : String) : neutraliseFormula ("'" ++ value) = "'" ++ value := by
  rw [neutraliseFormula_eq, looksLikeFormula_quoted]
  exact if_neg fun h => absurd h.1 Bool.false_ne_true

theorem neutraliseFormula_cases (value : String) :
    neutraliseFormula value = value ∨ neutraliseFormula value = "'" ++ value := by
  rw [neutraliseFormula_eq]
  split_ifs
  · exact .inr rfl
  · exact .inl rfl

/-- A formula is left exactly behind a minus sign and a digit. -/
theorem looksLikeFormula_neutraliseFormula (value : String) :
    looksLikeFormula (neutraliseFormula value) = startsNegative value := by
  rw [neutraliseFormula_eq]
  cases hnegative : startsNegative value with
  | true => rw [if_neg fun h => Bool.noConfusion h.2, looksLikeFormula_of_startsNegative hnegative]
  | false =>
    cases hformula : looksLikeFormula value with
    | true => rw [if_pos ⟨rfl, rfl⟩, looksLikeFormula_quoted]
    | false => rw [if_neg fun h => absurd h.1 Bool.false_ne_true, hformula]

/-- **A text is defused exactly if** it does not start with a minus sign and a digit, behind tabs and line breaks, or
is a negative number as a whole. -/
theorem neutralise_defuses_iff (value : String) :
    Defused value ↔ (startsNegative value = true → isNegativeNumber value = true) := by
  constructor
  · intro h hnegative
    exact h.safe ((looksLikeFormula_neutraliseFormula value).trans hnegative)
  · intro h
    refine ⟨neutraliseFormula_cases value, fun hformula => ?_, fun hformula => ?_, ?_⟩
    · exact h ((looksLikeFormula_neutraliseFormula value).symm.trans hformula)
    · rw [neutraliseFormula_eq, hformula]
      exact if_neg fun h => absurd h.1 Bool.false_ne_true
    · rcases neutraliseFormula_cases value with heq | heq
      · rw [heq, heq]
      · rw [heq, neutraliseFormula_quoted]

/-- A formula behind a negative number is kept as it is. -/
theorem negativeFormula_kept : neutraliseFormula "-1+HYPERLINK(A1)" = "-1+HYPERLINK(A1)" ∧
    looksLikeFormula "-1+HYPERLINK(A1)" = true ∧ ¬Defused "-1+HYPERLINK(A1)" := by
  have hkept : neutraliseFormula "-1+HYPERLINK(A1)" = "-1+HYPERLINK(A1)" := by decide +kernel
  have hformula : looksLikeFormula "-1+HYPERLINK(A1)" = true := by decide +kernel
  refine ⟨hkept, hformula, fun h => ?_⟩
  have hnumber := h.safe (by rw [hkept]; exact hformula)
  revert hnumber
  decide +kernel

end RevenueOS.Shared
