import RevenueOS.Communications.Ingest
import RevenueOS.Leads.Importing
import RevenueOS.Py.Numerals

/-!
# RevenueOS.Communications.PhoneKeys — the keys that numbers are compared by

`normalise_phone_digits` of the importer and `_match_key` of the WhatsApp matcher against `normalize_phone`.  The last
keeps ASCII digits, and reads `00` as `+`; the first keeps the decimal digits of every script, the second all that is
a digit; neither knows of `00`.

* `normalizePhone_spells`: what a normalised number keeps of a text, and that it is normal.
* `phone_keys_agree_iff`: two spellings of a number have its keys exactly if the last ten digits of both are ASCII, or
  a number of eight or nine digits is dialled with `+`, by ASCII decimals and fewer than ten digits in all.
-/

namespace RevenueOS.Communications

open RevenueOS.Py RevenueOS.Leads

/-! ## What a normalised number keeps -/

/-- `_NON_DIGIT.sub("", text)`. -/
def dialled (text : String) : List Char := text.toList.filter fun c => ('0' ≤ c && c ≤ '9') || c == '+'

/-- `normalize_phone` on what follows a plus sign. -/
def international (digits : List Char) : Option (List Char) :=
  if ['9', '1'].isPrefixOf digits then
    if isIndiaMobile (String.ofList (digits.drop 2)) then some ('+' :: '9' :: '1' :: digits.drop 2) else none
  else if !(8 ≤ digits.length && digits.length ≤ 15) || !isDigitStr (String.ofList digits) then none
  else some ('+' :: digits)

/-- On digits without one. -/
def domestic (cs : List Char) : Option (List Char) :=
  let cs := if ['0'].isPrefixOf cs then cs.drop 1 else cs
  let cs := if ['9', '1'].isPrefixOf cs ∧ cs.length = 12 then cs.drop 2 else cs
  if isIndiaMobile (String.ofList cs) then some ('+' :: '9' :: '1' :: cs) else none

def normalizeDialled (cs : List Char) : Option (List Char) :=
  let cs := if ['0', '0'].isPrefixOf cs then '+' :: cs.drop 2 else cs
  if ['+'].isPrefixOf cs then international (cs.drop 1) else domestic cs

theorem filter_dropWhile {p q : Char → Bool} (h : ∀ c, p c = true → q c = false) :
    ∀ cs : List Char, (cs.dropWhile p).filter q = cs.filter q
  | [] => rfl
  | c :: cs => by
    by_cases hp : p c = true
    · rw [List.dropWhile_cons_of_pos hp, filter_dropWhile h cs, List.filter_cons_of_neg (by simp [h c hp])]
    · rw [List.dropWhile_cons_of_neg hp]

/-- Spaces are not dialled. -/
theorem dialled_strip (raw : String) :
    (strip raw).toList.filter (fun c => ('0' ≤ c && c ≤ '9') || c == '+') = dialled raw := by
  have hspace : ∀ c : Char, isSpace c = true → (('0' ≤ c && c ≤ '9') || c == '+') = false := by
    intro c hc
    by_contra hdialled
    have hor : isAsciiDigit c = true ∨ c = '+' := by
      rw [Bool.not_eq_false, Bool.or_eq_true, beq_iff_eq] at hdialled
      exact hdialled
    rcases hor with hdigit | rfl
    · rw [not_isSpace_of_isDigit ((isDigit_of_ascii (.inl hdigit)).trans hdigit)] at hc
      cases hc
    · exact absurd hc (by decide)
  unfold strip stripWith dialled
  rw [String.toList_ofList, List.filter_reverse, filter_dropWhile hspace, List.filter_reverse, List.reverse_reverse,
    filter_dropWhile hspace]

theorem ofList_drop (cs : List Char) (n : ℕ) : ((String.ofList cs).drop n).toString = String.ofList (cs.drop n) := by
  refine String.toList_inj.mp ?_
  simp

theorem normalizePhone_eq (raw : String) : normalizePhone raw = (normalizeDialled (dialled raw)).map String.ofList := by
  unfold normalizePhone normalizeDialled international domestic
  rw [dialled_strip]
  generalize dialled raw = cs
  have hplus : ∀ cs : List Char, "+" ++ String.ofList cs = String.ofList ('+' :: cs) := fun cs =>
    String.toList_inj.mp (by simp)
  have hindia : ∀ cs : List Char, "+91" ++ String.ofList cs = String.ofList ('+' :: '9' :: '1' :: cs) := fun cs =>
    String.toList_inj.mp (by simp)
  have hite : ∀ (p : Prop) [Decidable p] (cs ds : List Char),
      (if p then String.ofList cs else String.ofList ds) = String.ofList (if p then cs else ds) := fun p _ cs ds => by
    split_ifs
    · rfl
    · rfl
  have hmap : ∀ (p : Prop) [Decidable p] (x y : Option (List Char)),
      (if p then x else y).map String.ofList = if p then x.map String.ofList else y.map String.ofList :=
    fun p _ x y => by
      split_ifs
      · rfl
      · rfl
  simp only [startsWith, String.toList_ofList, ofList_drop, hplus, hindia, hite, hmap, Option.map_some, Option.map_none,
    String.length_ofList]
  rfl

/-- The digits of a number, and how a text of digits and plus signs spells them. -/
inductive Spells (cs : List Char) : List Char → Prop where
  | plus {ds : List Char} : cs = '+' :: ds → Spells cs ds
  | zeros {ds : List Char} : cs = '0' :: '0' :: ds → Spells cs ds
  | national {trunk ten : List Char} : trunk ∈ [[], ['0'], ['9', '1'], ['0', '9', '1']] → cs = trunk ++ ten →
    ten.take 1 ≠ ['0'] → Spells cs ('9' :: '1' :: ten)

/-- A number as it is normalised. -/
structure IsNumber (ds : List Char) : Prop where
  digits : ∀ c ∈ ds, isAsciiDigit c = true
  long : 8 ≤ ds.length
  normal : normalizeDialled ('+' :: ds) = some ('+' :: ds)

/-- An Indian mobile number: ten digits. -/
theorem isIndiaMobile_digits {cs : List Char} (h : isIndiaMobile (String.ofList cs) = true) :
    cs.length = 10 ∧ (∀ c ∈ cs, isAsciiDigit c = true) ∧ cs.take 1 ≠ ['0'] := by
  unfold isIndiaMobile at h
  rw [String.toList_ofList] at h
  cases cs with
  | nil => cases h
  | cons c rest =>
    simp only [Bool.and_eq_true, decide_eq_true_eq, beq_iff_eq, List.all_eq_true] at h
    obtain ⟨⟨⟨hlow, hhigh⟩, hlength⟩, hrest⟩ := h
    refine ⟨by rw [List.length_cons, hlength], fun d hd => ?_, fun heq => ?_⟩
    · unfold isAsciiDigit
      rw [Bool.and_eq_true, decide_eq_true_iff, decide_eq_true_iff]
      rcases List.mem_cons.mp hd with rfl | hd
      · exact ⟨le_trans (by decide) hlow, hhigh⟩
      · exact hrest d hd
    · obtain rfl : c = '0' := by simpa using heq
      exact absurd hlow (by decide)

theorem isNumber_india {ten : List Char} (h : isIndiaMobile (String.ofList ten) = true) :
    IsNumber ('9' :: '1' :: ten) := by
  obtain ⟨hlength, hdigits, -⟩ := isIndiaMobile_digits h
  refine ⟨fun c hc => ?_, by simp [hlength], ?_⟩
  · rcases List.mem_cons.mp hc with rfl | hc
    · rfl
    · rcases List.mem_cons.mp hc with rfl | hc
      · rfl
      · exact hdigits c hc
  · simp [normalizeDialled, international, h]

theorem international_spells {digits xs : List Char} (hdigits : ∀ c ∈ digits, isAsciiDigit c = true ∨ c = '+')
    (h : international digits = some xs) : xs = '+' :: digits ∧ IsNumber digits := by
  have hsame : normalizeDialled ('+' :: digits) = international digits := by simp [normalizeDialled]
  unfold international at h hsame
  split_ifs at h hsame with hindia hmobile hrefused
  · obtain ⟨ten, rfl⟩ := List.isPrefixOf_iff_prefix.mp hindia
    exact ⟨(Option.some.inj h).symm, isNumber_india hmobile⟩
  · rw [Bool.or_eq_true, not_or, Bool.not_eq_true, Bool.not_eq_true, Bool.not_eq_false', Bool.not_eq_false',
      Bool.and_eq_true, decide_eq_true_iff, decide_eq_true_iff] at hrefused
    obtain ⟨⟨hlong, -⟩, hall⟩ := hrefused
    unfold isDigitStr at hall
    rw [String.toList_ofList, Bool.and_eq_true, List.all_eq_true] at hall
    refine ⟨(Option.some.inj h).symm, fun c hc => ?_, hlong, hsame⟩
    rw [← isDigit_of_ascii (hdigits c hc)]
    exact hall.2 c hc

theorem domestic_spells {cs xs : List Char} (h : domestic cs = some xs) :
    ∃ ds, xs = '+' :: ds ∧ IsNumber ds ∧ Spells cs ds := by
  obtain ⟨trunk, rest, htrunk, rfl, hdrop⟩ : ∃ trunk rest, trunk ∈ [[], ['0']] ∧ cs = trunk ++ rest ∧
      (if ['0'].isPrefixOf cs then cs.drop 1 else cs) = rest := by
    by_cases hzero : ['0'].isPrefixOf cs = true
    · obtain ⟨rest, rfl⟩ := List.isPrefixOf_iff_prefix.mp hzero
      exact ⟨['0'], rest, by simp, rfl, by simp⟩
    · exact ⟨[], cs, by simp, rfl, if_neg hzero⟩
  obtain ⟨country, ten, hcountry, rfl, hnational⟩ : ∃ country ten, country ∈ [[], ['9', '1']] ∧
      rest = country ++ ten ∧ (if ['9', '1'].isPrefixOf rest ∧ rest.length = 12 then rest.drop 2 else rest) = ten := by
    by_cases hindia : ['9', '1'].isPrefixOf rest = true ∧ rest.length = 12
    · obtain ⟨ten, rfl⟩ := List.isPrefixOf_iff_prefix.mp hindia.1
      exact ⟨['9', '1'], ten, by simp, rfl, if_pos hindia⟩
    · exact ⟨[], rest, by simp, rfl, if_neg hindia⟩
  unfold domestic at h
  rw [hdrop] at h
  dsimp only at h
  rw [hnational] at h
  split_ifs at h with hmobile
  refine ⟨_, (Option.some.inj h).symm, isNumber_india hmobile, @Spells.national _ (trunk ++ country) _ ?_ ?_ ?_⟩
  · simp only [List.mem_cons, List.not_mem_nil, or_false] at htrunk hcountry
    rcases htrunk with rfl | rfl <;> rcases hcountry with rfl | rfl <;> decide
  · rw [List.append_assoc]
  · exact (isIndiaMobile_digits hmobile).2.2

/-- What `normalize_phone` returns for digits and plus signs. -/
theorem normalizeDialled_spells {cs xs : List Char} (hcs : ∀ c ∈ cs, isAsciiDigit c = true ∨ c = '+')
    (h : normalizeDialled cs = some xs) : ∃ ds, xs = '+' :: ds ∧ IsNumber ds ∧ Spells cs ds := by
  unfold normalizeDialled at h
  dsimp only at h
  by_cases hzeros : ['0', '0'].isPrefixOf cs = true
  · obtain ⟨ds, rfl⟩ := List.isPrefixOf_iff_prefix.mp hzeros
    rw [if_pos hzeros] at h
    obtain ⟨hxs, hnumber⟩ := international_spells (fun c hc => hcs c (.tail _ (.tail _ hc))) h
    exact ⟨ds, hxs, hnumber, .zeros rfl⟩
  · rw [if_neg hzeros] at h
    split_ifs at h with hplus
    · obtain ⟨ds, rfl⟩ := List.isPrefixOf_iff_prefix.mp hplus
      obtain ⟨hxs, hnumber⟩ := international_spells (fun c hc => hcs c (.tail _ hc)) h
      exact ⟨ds, hxs, hnumber, .plus rfl⟩
    · exact domestic_spells h

theorem dialled_ofList {ds : List Char} (h : ∀ c ∈ ds, isAsciiDigit c = true) :
    dialled (String.ofList ('+' :: ds)) = '+' :: ds := by
  unfold dialled
  rw [String.toList_ofList, List.filter_eq_self]
  intro c hc
  rw [Bool.or_eq_true, beq_iff_eq]
  rcases List.mem_cons.mp hc with rfl | hc
  · exact .inr rfl
  · exact .inl (h c hc)

/-- **Normalising keeps a number**: what it returns is normal, and spelled by the text. -/
theorem normalizePhone_spells {raw phone : String} (h : normalizePhone raw = some phone) :
    ∃ ds, phone = String.ofList ('+' :: ds) ∧ IsNumber ds ∧ Spells (dialled raw) ds ∧
      normalizePhone phone = some phone := by
  rw [normalizePhone_eq, Option.map_eq_some_iff] at h
  obtain ⟨xs, hxs, rfl⟩ := h
  have hdialled : ∀ c ∈ dialled raw, isAsciiDigit c = true ∨ c = '+' := by
    intro c hc
    have hkept := (List.mem_filter.mp hc).2
    rw [Bool.or_eq_true, beq_iff_eq] at hkept
    exact hkept
  obtain ⟨ds, rfl, hnumber, hspells⟩ := normalizeDialled_spells hdialled hxs
  refine ⟨ds, rfl, hnumber, hspells, ?_⟩
  rw [normalizePhone_eq, dialled_ofList hnumber.digits, hnumber.normal, Option.map_some]

/-! ## The keys -/

/-- The importer and the matcher have one key for two texts. -/
def SameKeys (a b : String) : Prop := normalisePhoneDigits a = normalisePhoneDigits b ∧ matchKey a = matchKey b

/-- Digits of any script, as `str.isdigit` has them. -/
def anyDigits (text : String) : List Char := text.toList.filter isDigit

/-- The text is dialled with `00` before the number. -/
def HasZeros (text : String) : Prop := ['0', '0'].isPrefixOf (dialled text) = true

/-- How many ASCII digits a text has, not counting a `00` before the number. -/
def numberLength (text : String) : ℕ :=
  (asciiDigits text).length - if ['0', '0'].isPrefixOf (dialled text) then 2 else 0

/-- The last ten digits are ASCII; or the number is shorter, the text has no other digits that count, and no `00`. -/
def OneKey (text : String) : Prop :=
  if 10 ≤ numberLength text then ∀ c ∈ lastDigits (anyDigits text), isAsciiDigit c = true
  else ¬HasZeros text ∧ (∀ c ∈ digitsOf text, isAsciiDigit c = true) ∧ (anyDigits text).length < 10

theorem isSome_decimalValue_of_ascii {c : Char} (h : isAsciiDigit c = true) : (decimalValue? c).isSome = true := by
  unfold isAsciiDigit at h
  rw [Bool.and_eq_true, decide_eq_true_iff, decide_eq_true_iff] at h
  have hlow : 48 ≤ c.toNat := h.1
  have hhigh : c.toNat ≤ 57 := h.2
  unfold decimalValue? decimalZeros
  rw [Option.isSome_map, List.find?_cons_of_pos]
  · rfl
  · simp only [Bool.and_eq_true, decide_eq_true_iff]
    omega

/-- The decimal digits among the digits, and the ASCII digits among those. -/
theorem digitsOf_eq (text : String) : digitsOf text = (anyDigits text).filter fun c => (decimalValue? c).isSome := by
  unfold digitsOf anyDigits
  rw [List.filter_filter]
  refine List.filter_congr fun c _ => ?_
  unfold isDigit
  cases (decimalValue? c).isSome with
  | true => rfl
  | false => rfl

theorem asciiDigits_eq (text : String) : asciiDigits text = (digitsOf text).filter isAsciiDigit := by
  unfold asciiDigits digitsOf
  rw [List.filter_filter]
  refine List.filter_congr fun c _ => ?_
  cases h : isAsciiDigit c with
  | true => rw [isSome_decimalValue_of_ascii h, Bool.and_self]
  | false => rfl

theorem asciiDigits_dialled (text : String) : asciiDigits text = (dialled text).filter isAsciiDigit := by
  unfold asciiDigits dialled
  rw [List.filter_filter]
  refine List.filter_congr fun c _ => ?_
  unfold isAsciiDigit
  cases ('0' ≤ c && c ≤ '9' : Bool) with
  | true => rfl
  | false => rfl

theorem length_lastDigits {cs : List Char} (h : 10 ≤ cs.length) : (lastDigits cs).length = 10 := by
  unfold lastDigits matchDigits
  rw [List.length_drop]
  omega

theorem lastDigits_short {cs : List Char} (h : cs.length ≤ 10) : lastDigits cs = cs := by
  unfold lastDigits matchDigits
  rw [Nat.sub_eq_zero_of_le h, List.drop_zero]

theorem lastDigits_append {cs ds : List Char} (h : 10 ≤ ds.length) : lastDigits (cs ++ ds) = lastDigits ds := by
  unfold lastDigits matchDigits
  rw [List.length_append, List.drop_append, List.drop_of_length_le (by omega), List.nil_append]
  congr 1
  omega

/-- Ten last digits of a kind are the last ten of the kind. -/
theorem lastDigits_filter {p : Char → Bool} {cs : List Char} (hlong : 10 ≤ cs.length)
    (h : ∀ c ∈ lastDigits cs, p c = true) : lastDigits (cs.filter p) = lastDigits cs := by
  have hsplit : cs = cs.take (cs.length - 10) ++ lastDigits cs := (List.take_append_drop _ cs).symm
  have hlength := length_lastDigits hlong
  have hself : (lastDigits cs).filter p = lastDigits cs := List.filter_eq_self.mpr h
  conv_lhs => rw [hsplit, List.filter_append, hself]
  rw [lastDigits_append (by omega), lastDigits_short (by omega)]

theorem normalisePhoneDigits_eq (text : String) :
    normalisePhoneDigits text = String.ofList (lastDigits (digitsOf text)) := by
  unfold normalisePhoneDigits
  dsimp only
  split_ifs with hlong
  · rfl
  · rw [lastDigits_short (by omega)]

theorem matchKey_eq_none {text : String} : matchKey text = none ↔ (anyDigits text).length < 10 := by
  unfold matchKey anyDigits matchDigits
  dsimp only
  split_ifs with hlong
  · simpa using hlong
  · simpa using hlong

theorem matchKey_eq_some {text : String} {key : List Char} :
    matchKey text = some key ↔ 10 ≤ (anyDigits text).length ∧ lastDigits (anyDigits text) = key := by
  unfold matchKey anyDigits matchDigits
  dsimp only
  split_ifs with hlong
  · rw [Option.some_inj, iff_and_self]
    exact fun _ => hlong
  · simp [hlong]

/-- A normal number has its own digits, and no others. -/
theorem IsNumber.digits_eq {ds : List Char} (h : IsNumber ds) :
    anyDigits (String.ofList ('+' :: ds)) = ds ∧ digitsOf (String.ofList ('+' :: ds)) = ds := by
  have hany : anyDigits (String.ofList ('+' :: ds)) = ds := by
    unfold anyDigits
    rw [String.toList_ofList, List.filter_cons_of_neg (by decide), List.filter_eq_self]
    exact fun c hc => (isDigit_of_ascii (.inl (h.digits c hc))).trans (h.digits c hc)
  refine ⟨hany, ?_⟩
  rw [digitsOf_eq, hany, List.filter_eq_self]
  exact fun c hc => isSome_decimalValue_of_ascii (h.digits c hc)

theorem IsNumber.length_india {ten : List Char} (h : IsNumber ('9' :: '1' :: ten)) : ten.length = 10 := by
  have hnormal := h.normal
  rw [show normalizeDialled ('+' :: '9' :: '1' :: ten) =
    if isIndiaMobile (String.ofList ten) then some ('+' :: '9' :: '1' :: ten) else none from rfl] at hnormal
  split_ifs at hnormal with hmobile
  exact (isIndiaMobile_digits hmobile).1

theorem filter_digits {ds : List Char} (h : ∀ c ∈ ds, isAsciiDigit c = true) : ds.filter isAsciiDigit = ds :=
  List.filter_eq_self.mpr h

/-- The ASCII digits of a text that spells a number end in the number's last ten. -/
theorem Spells.lastDigits_eq {raw : String} {ds : List Char} (h : Spells (dialled raw) ds) (hnumber : IsNumber ds)
    (hlong : 10 ≤ ds.length) : lastDigits (asciiDigits raw) = lastDigits ds := by
  rw [asciiDigits_dialled]
  cases h with
  | plus hspelled => rw [hspelled, List.filter_cons_of_neg (by decide), filter_digits hnumber.digits]
  | zeros hspelled =>
    rw [hspelled, List.filter_cons_of_pos (by decide), List.filter_cons_of_pos (by decide),
      filter_digits hnumber.digits]
    exact @lastDigits_append ['0', '0'] _ hlong
  | @national trunk ten htrunk hspelled hzero =>
    have hten := hnumber.length_india
    have hdigits : ten.filter isAsciiDigit = ten := filter_digits fun c hc => hnumber.digits c (.tail _ (.tail _ hc))
    rw [hspelled, List.filter_append, hdigits, lastDigits_append hten.ge]
    exact (@lastDigits_append ['9', '1'] _ hten.ge).symm

theorem not_hasZeros_national {raw : String} {trunk ten : List Char}
    (htrunk : trunk ∈ [[], ['0'], ['9', '1'], ['0', '9', '1']]) (hspelled : dialled raw = trunk ++ ten)
    (hzero : ten.take 1 ≠ ['0']) : ¬HasZeros raw := by
  unfold HasZeros
  simp only [List.mem_cons, List.not_mem_nil, or_false] at htrunk
  rw [hspelled]
  cases ten with
  | nil => rcases htrunk with rfl | rfl | rfl | rfl <;> simp
  | cons c ten =>
    have hc : c ≠ '0' := fun heq => hzero (by rw [heq]; rfl)
    rcases htrunk with rfl | rfl | rfl | rfl <;> simp [hc.symm]

theorem Spells.zeros_of_hasZeros {raw : String} {ds : List Char} (h : Spells (dialled raw) ds) (hzeros : HasZeros raw) :
    dialled raw = '0' :: '0' :: ds := by
  cases h with
  | plus hspelled =>
    unfold HasZeros at hzeros
    rw [hspelled] at hzeros
    cases hzeros
  | zeros hspelled => exact hspelled
  | national htrunk hspelled hzero => exact absurd hzeros (not_hasZeros_national htrunk hspelled hzero)

/-- How many digits a spelled number has: its own, or ten at least. -/
theorem Spells.numberLength_iff {raw : String} {ds : List Char} (h : Spells (dialled raw) ds) (hnumber : IsNumber ds) :
    10 ≤ numberLength raw ↔ 10 ≤ ds.length := by
  unfold numberLength
  rw [asciiDigits_dialled]
  cases h with
  | plus hspelled =>
    have hnot : ¬ ['0', '0'].isPrefixOf (dialled raw) = true := by
      rw [hspelled]
      exact Bool.false_ne_true
    rw [if_neg hnot, hspelled, List.filter_cons_of_neg (by decide), filter_digits hnumber.digits, Nat.sub_zero]
  | zeros hspelled =>
    have hzeros : ['0', '0'].isPrefixOf (dialled raw) = true := by
      rw [hspelled]
      rfl
    rw [if_pos hzeros, hspelled, List.filter_cons_of_pos (by decide),
      List.filter_cons_of_pos (by decide), filter_digits hnumber.digits]
    simp
  | @national trunk ten htrunk hspelled hzero =>
    have hten := hnumber.length_india
    have hdigits : ten.filter isAsciiDigit = ten := filter_digits fun c hc => hnumber.digits c (.tail _ (.tail _ hc))
    have hnot : ¬ ['0', '0'].isPrefixOf (dialled raw) = true := not_hasZeros_national htrunk hspelled hzero
    rw [if_neg hnot, hspelled, List.filter_append, hdigits, List.length_append]
    simp only [List.length_cons]
    omega

/-- **A spelling has the keys of its number** exactly if it has one key. -/
theorem Spells.sameKeys_iff {raw : String} {ds : List Char} (h : Spells (dialled raw) ds) (hnumber : IsNumber ds) :
    SameKeys raw (String.ofList ('+' :: ds)) ↔ OneKey raw := by
  obtain ⟨hany, hdecimal⟩ := hnumber.digits_eq
  have hfewer : (digitsOf raw).length ≤ (anyDigits raw).length := by
    rw [digitsOf_eq]
    exact List.length_filter_le _ _
  have hfewest : (asciiDigits raw).length ≤ (digitsOf raw).length := by
    rw [asciiDigits_eq]
    exact List.length_filter_le _ _
  unfold SameKeys OneKey
  rw [normalisePhoneDigits_eq, normalisePhoneDigits_eq, hdecimal, String.ofList_inj,
    if_congr (h.numberLength_iff hnumber) rfl rfl]
  by_cases hlong : 10 ≤ ds.length
  · have hkey : matchKey (String.ofList ('+' :: ds)) = some (lastDigits ds) :=
      matchKey_eq_some.mpr ⟨hany.symm ▸ hlong, by rw [hany]⟩
    have hlonger : 10 ≤ (digitsOf raw).length := by
      have hnumbers := (h.numberLength_iff hnumber).mpr hlong
      unfold numberLength at hnumbers
      omega
    have hlongest : 10 ≤ (anyDigits raw).length := hlonger.trans hfewer
    rw [if_pos hlong, hkey, matchKey_eq_some]
    constructor
    · rintro ⟨-, -, hlast⟩ c hc
      rw [hlast] at hc
      exact hnumber.digits c (List.mem_of_mem_drop hc)
    · intro hascii
      have hdecimals : lastDigits (digitsOf raw) = lastDigits (anyDigits raw) := by
        rw [digitsOf_eq]
        exact lastDigits_filter hlongest fun c hc => isSome_decimalValue_of_ascii (hascii c hc)
      have hasciis : lastDigits (asciiDigits raw) = lastDigits (anyDigits raw) := by
        rw [asciiDigits_eq, lastDigits_filter hlonger fun c hc => hascii c (hdecimals ▸ hc), hdecimals]
      have hnumber_key := h.lastDigits_eq hnumber hlong
      exact ⟨by rw [hdecimals, ← hasciis, hnumber_key], hlongest, by rw [← hasciis, hnumber_key]⟩
  · have hnone : matchKey (String.ofList ('+' :: ds)) = none := matchKey_eq_none.mpr (by rw [hany]; omega)
    have hself : lastDigits ds = ds := lastDigits_short (by omega)
    rw [if_neg hlong, hnone, matchKey_eq_none, hself]
    constructor
    · rintro ⟨hsame, hshort⟩
      rw [lastDigits_short (by omega)] at hsame
      refine ⟨fun hzeros => ?_, fun c hc => hnumber.digits c (hsame ▸ hc), hshort⟩
      have hlengths : (asciiDigits raw).length = ds.length + 2 := by
        rw [asciiDigits_dialled, h.zeros_of_hasZeros hzeros, List.filter_cons_of_pos (by decide),
          List.filter_cons_of_pos (by decide), filter_digits hnumber.digits]
        rfl
      rw [hsame] at hfewest
      omega
    · rintro ⟨hzeros, hascii, hshort⟩
      refine ⟨?_, hshort⟩
      rw [lastDigits_short (by omega), ← filter_digits hascii, ← asciiDigits_eq, asciiDigits_dialled]
      cases h with
      | plus hspelled => rw [hspelled, List.filter_cons_of_neg (by decide), filter_digits hnumber.digits]
      | zeros hspelled =>
        refine absurd ?_ hzeros
        unfold HasZeros
        rw [hspelled]
        rfl
      | national htrunk hspelled hzero =>
        have hten := hnumber.length_india
        exact absurd (by simp only [List.length_cons]; omega) hlong

/-- **Two spellings of a number**: normalising keeps it as it is, and both have its keys, exactly if each has one. -/
theorem phone_keys_agree_iff {a b phone : String} (ha : normalizePhone a = some phone)
    (hb : normalizePhone b = some phone) :
    normalizePhone phone = some phone ∧ SameKeys a b ∧ SameKeys a phone ↔ OneKey a ∧ OneKey b := by
  obtain ⟨ds, hphone, hnumber, hspells, hnormal⟩ := normalizePhone_spells ha
  obtain ⟨ds', hphone', hnumber', hspells', -⟩ := normalizePhone_spells hb
  obtain rfl : ds = ds' := by
    have hsame := String.ofList_inj.mp (hphone.symm.trans hphone')
    exact (List.cons.inj hsame).2
  have hfirst : SameKeys a phone ↔ OneKey a := hphone ▸ hspells.sameKeys_iff hnumber
  have hsecond : SameKeys b phone ↔ OneKey b := hphone ▸ hspells'.sameKeys_iff hnumber
  rw [← hfirst, ← hsecond]
  constructor
  · rintro ⟨-, ⟨himporter, hmatcher⟩, hkeys⟩
    exact ⟨hkeys, himporter ▸ hkeys.1, hmatcher ▸ hkeys.2⟩
  · rintro ⟨hkeys, hkeys'⟩
    exact ⟨hnormal, ⟨hkeys.1.trans hkeys'.1.symm, hkeys.2.trans hkeys'.2.symm⟩, hkeys⟩

theorem phone_keys_agree_iff_trunkZero :
    normalizePhone "+919845012201" = some "+919845012201" ∧ SameKeys "098450 12201" "+91-9845012201" ∧
      SameKeys "098450 12201" "+919845012201" ↔ OneKey "098450 12201" ∧ OneKey "+91-9845012201" :=
  phone_keys_agree_iff (by decide +kernel) (by decide +kernel)

/-- A number of eight digits after `00`: the importer keeps the zeros, and the matcher counts them. -/
theorem zeros_have_another_key :
    normalizePhone "0012345678" = some "+12345678" ∧ normalizePhone "+12345678" = some "+12345678" ∧
      ¬SameKeys "0012345678" "+12345678" ∧
      normalisePhoneDigits "0012345678" = "0012345678" ∧ normalisePhoneDigits "+12345678" = "12345678" ∧
      matchKey "0012345678" = some "0012345678".toList ∧ matchKey "+12345678" = none :=
  ⟨by decide +kernel, by decide +kernel, fun h => absurd h.1 (by decide +kernel), by decide +kernel⟩

end RevenueOS.Communications
