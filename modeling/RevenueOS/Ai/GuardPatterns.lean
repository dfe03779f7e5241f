import RevenueOS.Ai.Guards
import RevenueOS.Lib.RegexSplit
import Mathlib.Data.Bool.AllAny

/-!
# RevenueOS.Ai.GuardPatterns — what the guards' patterns match

Facts about the tables of `domain/ai/guards.py`, read off the patterns.  A restricted identifier is a word, or begins
and ends with one, between boundaries; no pattern that is replaced reaches over a bracket, and none matches in the
letters that a replacement or a mark is made of.

* `blocked_framed`, `minimise_clean`, `neutralised_clean`: these facts for each table.
* `Joined`: a text with replacements in it; `search_joined` and `sub_joined` take it apart.

`str.isalnum` is a parameter; it is known on ASCII.
-/

namespace RevenueOS.Ai

open RevenueOS.Lib RevenueOS.Lib.Regex

/-- `str.isalnum` on ASCII. -/
def AsciiAlnum (isAlnum : Char → Bool) : Prop := ∀ c, c.toNat < 128 → isAlnum c = c.isAlphanum

theorem asciiAlnum_isAlphanum : AsciiAlnum Char.isAlphanum := fun _ _ => rfl

/-! ## Checks on patterns -/

/-- The brackets of the replacements and of the marks. -/
def brackets : List Char := ['[', ']', '<', '>']

/-- The letters between the brackets. -/
def letters : List Char := '_' :: (List.range 26).flatMap fun k => [Char.ofNat (65 + k), Char.ofNat (97 + k)]

def tokenChars : List Char := brackets ++ letters

/-- No character of a list is of an item. -/
def excludes (ignoreCase : Bool) (chars : List Char) (item : Item) : Bool :=
  chars.all fun c => !item.holds (alphabet Char.isAlphanum ignoreCase) c

/-- All characters of an item are letters of words. -/
def asciiWord : Item → Bool
  | .range lo hi =>
    hi.toNat < 128 && (List.range 128).all fun n => !(lo.toNat ≤ n && n ≤ hi.toNat) || (Char.ofNat n).isAlphanum
  | .word => true
  | .space => false

def framedCheck (r : Regex) : Bool :=
  r.opens && r.closes && !r.nullable && r.heads asciiWord && r.lasts asciiWord

def cleanCheck (ignoreCase : Bool) (r : Regex) : Bool :=
  !r.nullable && r.every (excludes ignoreCase brackets) && r.requires (excludes ignoreCase tokenChars)

/-- The matches of a pattern do not reach over a bracket, and none lies in the text of a replacement or a mark. -/
structure Clean (a : Alphabet) (r : Regex) : Prop where
  nonempty : r.nullable = false
  separates : ∀ c ∈ brackets, Separates a r c
  spares : ∀ text : List Char, (∀ c ∈ text, c ∈ tokenChars) → search a r text = false

theorem ascii_tokenChars : ∀ c ∈ tokenChars, c.toNat < 128 := List.all_iff_forall_prop.mp (by decide)

theorem mem_tokenChars {c : Char} (h : c ∈ brackets) : c ∈ tokenChars := List.mem_append_left _ h

section Alnum

variable {isAlnum : Char → Bool} (hascii : AsciiAlnum isAlnum) {ignoreCase : Bool} {r : Regex}
include hascii

theorem holds_ascii {c : Char} (hc : c.toNat < 128) (item : Item) :
    item.holds (alphabet isAlnum ignoreCase) c = item.holds (alphabet Char.isAlphanum ignoreCase) c := by
  cases item with
  | range lo hi => rfl
  | word => exact congrArg (· || c == '_') (hascii c hc)
  | space => rfl

theorem not_holds_of_excludes {chars : List Char} {item : Item} (h : excludes ignoreCase chars item = true) {c : Char}
    (hc : c ∈ chars) (hlow : c.toNat < 128) : item.holds (alphabet isAlnum ignoreCase) c = false := by
  rw [holds_ascii hascii hlow]
  exact (Bool.not_eq_true' _).mp (List.all_eq_true.mp h c hc)

theorem isWord_of_asciiWord {item : Item} {c : Char} (h : asciiWord item = true)
    (hholds : item.holds (alphabet isAlnum false) c = true) : (alphabet isAlnum false).isWord c = true := by
  cases item with
  | range lo hi =>
    obtain ⟨hhigh, hall⟩ := Bool.and_eq_true_iff.mp h
    have hhigh := of_decide_eq_true hhigh
    have hrange : (lo ≤ c && c ≤ hi) = true := by
      have hany : [c].any (fun d => lo ≤ d && d ≤ hi) = true := hholds
      rwa [List.any_cons, List.any_nil, Bool.or_false] at hany
    obtain ⟨hlo, hhi⟩ := Bool.and_eq_true_iff.mp hrange
    have hlo : lo.toNat ≤ c.toNat := of_decide_eq_true hlo
    have hhi : c.toNat ≤ hi.toNat := of_decide_eq_true hhi
    have hn := List.all_eq_true.mp hall c.toNat (List.mem_range.mpr (by omega))
    rw [decide_eq_true hlo, decide_eq_true hhi, Char.ofNat_toNat, Bool.and_self, Bool.not_true, Bool.false_or] at hn
    show (isAlnum c || c == '_') = true
    rw [hascii c (by omega), hn, Bool.true_or]
  | word => exact hholds
  | space => cases h

theorem framed_of_check (h : framedCheck r = true) : Framed (alphabet isAlnum false) r :=
  framed_of_syntax (fun _ _ => isWord_of_asciiWord hascii) h

theorem clean_of_check (h : cleanCheck ignoreCase r = true) : Clean (alphabet isAlnum ignoreCase) r := by
  obtain ⟨h, hrequires⟩ := Bool.and_eq_true_iff.mp h
  obtain ⟨hsome, hevery⟩ := Bool.and_eq_true_iff.mp h
  refine ⟨(Bool.not_eq_true' _).mp hsome, fun c hc => ⟨?_, ?_⟩, fun text htext => ?_⟩
  · refine every_mono (fun item hitem => ?_) hevery
    rw [not_holds_of_excludes hascii hitem hc (ascii_tokenChars c (mem_tokenChars hc))]
    rfl
  · have hbrackets : ∀ c ∈ brackets, (c.isAlphanum || c == '_') = false := List.all_iff_forall_prop.mp (by decide)
    show (isAlnum c || c == '_') = false
    rw [hascii c (ascii_tokenChars c (mem_tokenChars hc))]
    exact hbrackets c hc
  · refine search_of_requires (P := fun c => c ∉ tokenChars) (fun item c hitem hholds hc => ?_) hrequires
      fun c hc hnot => hnot (htext c hc)
    rw [not_holds_of_excludes hascii hitem hc (ascii_tokenChars c hc)] at hholds
    cases hholds

end Alnum

/-! ## The tables -/

theorem blocked_check : ∀ p ∈ blockedIdentifiers,
    ((Regex.parse p.1).any fun r => framedCheck r && cleanCheck false r) = true := by
  decide +kernel

theorem minimise_check : ∀ p ∈ minimisePatterns, (Regex.parse p.1).any (cleanCheck false) = true := by
  decide +kernel

theorem neutralised_check : (Regex.parse neutralisedPattern).any (cleanCheck true) = true := by
  decide +kernel

section Tables

variable {isAlnum : Char → Bool} (hascii : AsciiAlnum isAlnum)
include hascii

/-- **A restricted identifier** is a word, or begins and ends with one, between boundaries. -/
theorem blocked_framed {p : String × String} (hp : p ∈ blockedIdentifiers) :
    ∃ r, Regex.parse p.1 = some r ∧ Framed (alphabet isAlnum false) r ∧ Clean (alphabet isAlnum false) r := by
  obtain ⟨r, hr, hcheck⟩ := Option.any_eq_true _ _ |>.mp (blocked_check p hp)
  obtain ⟨hframed, hclean⟩ := Bool.and_eq_true_iff.mp hcheck
  exact ⟨r, hr, framed_of_check hascii hframed, clean_of_check hascii hclean⟩

theorem minimise_clean {p : String × String × String} (hp : p ∈ minimisePatterns) :
    ∃ r, Regex.parse p.1 = some r ∧ Clean (alphabet isAlnum false) r := by
  obtain ⟨r, hr, hcheck⟩ := Option.any_eq_true _ _ |>.mp (minimise_check p hp)
  exact ⟨r, hr, clean_of_check hascii hcheck⟩

theorem neutralised_clean :
    ∃ r, Regex.parse neutralisedPattern = some r ∧ Clean (alphabet isAlnum true) r := by
  obtain ⟨r, hr, hcheck⟩ := Option.any_eq_true _ _ |>.mp neutralised_check
  exact ⟨r, hr, clean_of_check hascii hcheck⟩

end Tables

/-! ## Texts with replacements -/

/-- A replacement: a word in square brackets. -/
def IsToken (token : List Char) : Prop := ∃ inner, token = '[' :: (inner ++ [']']) ∧ ∀ c ∈ inner, c ∈ letters

/-- A text made of parts with replacements between them. -/
inductive Joined : List (List Char) → List Char → Prop where
  | one (g : List Char) : Joined [g] g
  | cons {g token rest : List Char} {gs : List (List Char)} : IsToken token → Joined gs rest →
      Joined (g :: gs) (g ++ (token ++ rest))

theorem joined_intercalate {token : List Char} (htoken : IsToken token) :
    ∀ {gs : List (List Char)}, gs ≠ [] → Joined gs (token.intercalate gs)
  | [], h => absurd rfl h
  | [g], _ => List.intercalate_singleton ▸ .one g
  | g :: g' :: gs, _ => by
    rw [List.intercalate_cons_cons, List.append_assoc]
    exact .cons htoken (joined_intercalate htoken (List.cons_ne_nil g' gs))

theorem Joined.append {gs hs : List (List Char)} {x y token : List Char} (hx : Joined gs x) (hy : Joined hs y)
    (htoken : IsToken token) : Joined (gs ++ hs) (x ++ (token ++ y)) := by
  induction hx with
  | one g => exact .cons htoken hy
  | cons htoken' _ ih =>
    rw [List.append_assoc, List.append_assoc]
    exact .cons htoken' ih

section Clean

variable {a : Alphabet} {r : Regex} (hr : Clean a r)
include hr

theorem Clean.spares_letters {inner : List Char} (hinner : ∀ c ∈ inner, c ∈ letters) : search a r inner = false :=
  hr.spares inner fun c hc => List.mem_append_right brackets (hinner c hc)

/-- A search passes over a replacement. -/
theorem search_append_token {token : List Char} (htoken : IsToken token) (x y : List Char) :
    search a r (x ++ (token ++ y)) = (search a r x || search a r y) := by
  obtain ⟨inner, rfl, hinner⟩ := htoken
  have happend : x ++ ('[' :: (inner ++ [']']) ++ y) = x ++ '[' :: (inner ++ ']' :: y) := by simp
  rw [happend, search_append_cons (hr.separates '[' (by decide)), search_append_cons (hr.separates ']' (by decide)),
    hr.spares_letters hinner, Bool.false_or]

/-- And so does what is replaced. -/
theorem sub_append_token {token : List Char} (htoken : IsToken token) (replacement x y : List Char) :
    sub a r replacement (x ++ (token ++ y)) = sub a r replacement x ++ (token ++ sub a r replacement y) := by
  obtain ⟨inner, rfl, hinner⟩ := htoken
  have happend : x ++ ('[' :: (inner ++ [']']) ++ y) = x ++ '[' :: (inner ++ ']' :: y) := by simp
  rw [happend, sub_append_cons (hr.separates '[' (by decide)) hr.nonempty,
    sub_append_cons (hr.separates ']' (by decide)) hr.nonempty, sub_of_search_eq_false _ (hr.spares_letters hinner)]
  simp

/-- **A search in a text with replacements** is one in its parts. -/
theorem search_joined {gs : List (List Char)} {text : List Char} (h : Joined gs text) :
    search a r text = gs.any (search a r) := by
  induction h with
  | one g => rw [List.any_cons, List.any_nil, Bool.or_false]
  | cons htoken _ ih => rw [search_append_token hr htoken, ih, List.any_cons]

/-- **What is replaced in it** is replaced in its parts. -/
theorem sub_joined {token : List Char} (htoken : IsToken token) {gs : List (List Char)} {text : List Char}
    (h : Joined gs text) : Joined (gs.flatMap (split a r)) (sub a r token text) := by
  have hone : ∀ g, Joined (split a r g) (sub a r token g) := by
    intro g
    rw [sub_eq_intercalate]
    exact joined_intercalate htoken (split_ne_nil g)
  induction h with
  | one g =>
    rw [List.flatMap_cons, List.flatMap_nil, List.append_nil]
    exact hone g
  | @cons g token' rest gs htoken' _ ih =>
    rw [sub_append_token hr htoken', List.flatMap_cons]
    exact (hone g).append ih htoken'

end Clean

end RevenueOS.Ai
