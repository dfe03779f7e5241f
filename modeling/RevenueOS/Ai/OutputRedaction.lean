import RevenueOS.Ai.GuardPatterns

/-!
# RevenueOS.Ai.OutputRedaction — restricted identifiers in what a model returns

`redact_output_pii` of `domain/ai/guards.py`: one pattern after the other is replaced.

* `search_redacted`: a replacement removes what its pattern matches, and adds nothing that a pattern matches.
* `redaction_complete`: so nothing restricted is left, and redacting again changes nothing.
-/

namespace RevenueOS.Ai

open RevenueOS.Lib RevenueOS.Lib.Regex

/-- `f"[{label.upper()}_REDACTED]"`, for a label in ASCII. -/
def redactedToken (label : String) : String :=
  "[" ++ String.ofList (label.toList.map Char.toUpper) ++ "_REDACTED]"

section Redaction

variable (isAlnum : Char → Bool)

/-- One round of the loop of `redact_output_pii`. -/
def redactStep (acc : String × List String) (pattern : String × String) : String × List String :=
  if reSearch isAlnum pattern.1 false acc.1 then
    (reSub isAlnum pattern.1 false (redactedToken pattern.2) acc.1, acc.2 ++ [pattern.2])
  else acc

/-- `redact_output_pii`. -/
def redactOutputPii (text : String) : String × List String := blockedIdentifiers.foldl (redactStep isAlnum) (text, [])

end Redaction

/-- The characters between the brackets. -/
theorem redactedToken_isToken : ∀ p ∈ blockedIdentifiers, IsToken (redactedToken p.2).toList := by
  have hchars : ∀ p ∈ blockedIdentifiers, ((String.ofList (p.2.toList.map Char.toUpper) ++ "_REDACTED").toList.all
      fun c => decide (c ∈ letters)) = true := by decide +kernel
  intro p hp
  refine ⟨_, ?_, List.all_iff_forall_prop.mp (hchars p hp)⟩
  unfold redactedToken
  simp

section Redaction

variable {isAlnum : Char → Bool} (hascii : AsciiAlnum isAlnum)
include hascii

/-- **A replacement** removes what its pattern matches, and adds nothing that a pattern matches. -/
theorem search_redacted {p q : String × String} (hp : p ∈ blockedIdentifiers) (hq : q ∈ blockedIdentifiers)
    {text : String} (h : q = p ∨ reSearch isAlnum q.1 false text = false) :
    reSearch isAlnum q.1 false (reSub isAlnum p.1 false (redactedToken p.2) text) = false := by
  obtain ⟨r, hr, hframed, -⟩ := blocked_framed hascii hp
  obtain ⟨s, hs, hframed', hclean⟩ := blocked_framed hascii hq
  unfold reSearch reSub at *
  rw [hs] at h ⊢
  rw [hr]
  dsimp only at h ⊢
  have hjoined := joined_intercalate (redactedToken_isToken p hp)
    (split_ne_nil (a := alphabet isAlnum false) (r := r) text.toList)
  rw [String.toList_ofList, sub_eq_intercalate, search_joined hclean hjoined, List.any_eq_false]
  intro g hg hmatch
  rcases h with rfl | h
  · obtain rfl : r = s := Option.some.inj (hr.symm.trans hs)
    rw [search_gap_self hframed hg] at hmatch
    cases hmatch
  · rw [search_of_gap hframed hframed' hg hmatch] at h
    cases h

/-- What a pattern does not match before the loop it does not match after it. -/
theorem redacted_of_foldl : ∀ {patterns : List (String × String)} {acc : String × List String},
    (∀ p ∈ patterns, p ∈ blockedIdentifiers) → ∀ q ∈ blockedIdentifiers,
      q ∈ patterns ∨ reSearch isAlnum q.1 false acc.1 = false →
        reSearch isAlnum q.1 false (patterns.foldl (redactStep isAlnum) acc).1 = false
  | [], acc, _, q, _, h => h.resolve_left List.not_mem_nil
  | p :: patterns, acc, hpatterns, q, hq, h => by
    have hp := hpatterns p List.mem_cons_self
    refine redacted_of_foldl (fun p' hp' => hpatterns p' (List.mem_cons_of_mem p hp')) q hq ?_
    have hstep : q = p ∨ reSearch isAlnum q.1 false acc.1 = false →
        reSearch isAlnum q.1 false (redactStep isAlnum acc p).1 = false := by
      intro h
      unfold redactStep
      split_ifs with hfound
      · exact search_redacted hascii hp hq h
      · rcases h with rfl | h
        · exact (Bool.not_eq_true _).mp hfound
        · exact h
    rcases h with h | h
    · rcases List.mem_cons.mp h with rfl | h
      · exact .inr (hstep (.inl rfl))
      · exact .inl h
    · exact .inr (hstep (.inr h))

omit hascii in
theorem foldl_redactStep_of_clean : ∀ {patterns : List (String × String)} {acc : String × List String},
    (∀ p ∈ patterns, reSearch isAlnum p.1 false acc.1 = false) → patterns.foldl (redactStep isAlnum) acc = acc
  | [], _, _ => rfl
  | p :: patterns, acc, h => by
    have hstep : redactStep isAlnum acc p = acc := by
      unfold redactStep
      rw [if_neg (by rw [h p List.mem_cons_self]; exact Bool.false_ne_true)]
    rw [List.foldl_cons, hstep]
    exact foldl_redactStep_of_clean fun p' hp' => h p' (List.mem_cons_of_mem p hp')

/-- **Redaction is complete**: no restricted identifier is left, and redacting again changes nothing. -/
theorem redaction_complete (text : String) :
    (∀ p ∈ blockedIdentifiers, reSearch isAlnum p.1 false (redactOutputPii isAlnum text).1 = false) ∧
      redactOutputPii isAlnum (redactOutputPii isAlnum text).1 = ((redactOutputPii isAlnum text).1, []) := by
  have hclean : ∀ p ∈ blockedIdentifiers, reSearch isAlnum p.1 false (redactOutputPii isAlnum text).1 = false := by
    intro p hp
    unfold redactOutputPii
    exact redacted_of_foldl hascii (fun _ hq => hq) p hp (.inl hp)
  refine ⟨hclean, ?_⟩
  generalize (redactOutputPii isAlnum text).1 = redacted at hclean
  unfold redactOutputPii
  exact foldl_redactStep_of_clean hclean

end Redaction

/-- A card number and a PAN. -/
theorem redaction_complete_card :
    redactOutputPii Char.isAlphanum "Card 4111111111111111, PAN ABCDE1234F" =
        ("Card [CARD_REDACTED], PAN [PAN_REDACTED]", ["pan", "card"]) ∧
      (∀ p ∈ blockedIdentifiers, reSearch Char.isAlphanum p.1 false
        (redactOutputPii Char.isAlphanum "Card 4111111111111111, PAN ABCDE1234F").1 = false) ∧
      redactOutputPii Char.isAlphanum (redactOutputPii Char.isAlphanum "Card 4111111111111111, PAN ABCDE1234F").1 =
        ((redactOutputPii Char.isAlphanum "Card 4111111111111111, PAN ABCDE1234F").1, []) :=
  ⟨by decide +kernel, redaction_complete asciiAlnum_isAlphanum "Card 4111111111111111, PAN ABCDE1234F"⟩

end RevenueOS.Ai
