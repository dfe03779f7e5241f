import RevenueOS.Py.JsonText

/-!
# RevenueOS.Py.Numerals — the decimal texts of numbers

* `mem_intText`: the text of an integer is made of digits and a sign.
* `intText_injective`: it tells which integer it is.
* `parseInt_intText`: its text is read back by `int`, up to the limit on the number of digits.
* `parseInt_of_isDigitStr`: of the texts that `isdigit` accepts, `int` reads those whose digits are decimal and few.
-/

namespace RevenueOS.Py

/-! ## Integers -/

theorem toList_natText (n : ℕ) : (toString n).toList = Nat.toDigits 10 n := by
  rw [Nat.toString_eq_ofList_toDigits, String.toList_ofList]

/-- The digits of a number are read back as the number. -/
theorem toDigits_injective {m n : ℕ} (h : Nat.toDigits 10 m = Nat.toDigits 10 n) : m = n := by
  have hread := congrArg (fun cs => Nat.ofDigitChars 10 cs 0) h
  simpa only [Nat.ofDigitChars_ten_toDigits] using hread

theorem natText_injective {m n : ℕ} (h : toString m = toString n) : m = n := by
  have hdigits := congrArg String.toList h
  rw [toList_natText, toList_natText] at hdigits
  exact toDigits_injective hdigits

/-- The text of an integer: that of its absolute value, behind a sign if it is negative. -/
theorem toList_intText (a : ℤ) :
    (toString a).toList = (if a < 0 then ['-'] else []) ++ Nat.toDigits 10 a.natAbs := by
  cases a with
  | ofNat n =>
    have hsign : ¬Int.ofNat n < 0 := Int.not_lt.mpr (Int.natCast_nonneg n)
    rw [if_neg hsign, List.nil_append]
    exact toList_natText n
  | negSucc n =>
    rw [if_pos (Int.negSucc_lt_zero n)]
    show ("-" ++ toString (n + 1)).toList = _
    rw [String.toList_append, toList_natText]
    rfl

theorem mem_intText {a : ℤ} {c : Char} (h : c ∈ (toString a).toList) : c = '-' ∨ c.isDigit = true := by
  rw [toList_intText] at h
  rcases List.mem_append.mp h with h | h
  · split_ifs at h
    · exact .inl (List.mem_singleton.mp h)
    · cases h
  · exact .inr (Nat.isDigit_of_mem_toDigits (by decide) (by decide) h)

theorem toDigits_head (n : ℕ) : ∃ c ds, Nat.toDigits 10 n = c :: ds ∧ c.isDigit = true := by
  obtain ⟨c, ds, hdigits⟩ : ∃ c ds, Nat.toDigits 10 n = c :: ds :=
    List.exists_cons_of_ne_nil (List.ne_nil_of_length_pos Nat.length_toDigits_pos)
  exact ⟨c, ds, hdigits, Nat.isDigit_of_mem_toDigits (by decide) (by decide) (hdigits ▸ List.mem_cons_self)⟩

theorem intText_head (a : ℤ) : ∃ c rest, (toString a).toList = c :: rest ∧ (c = '-' ∨ c.isDigit = true) := by
  obtain ⟨c, ds, hdigits, hc⟩ := toDigits_head a.natAbs
  rw [toList_intText, hdigits]
  split_ifs
  · exact ⟨'-', c :: ds, rfl, .inl rfl⟩
  · exact ⟨c, ds, rfl, .inr hc⟩

/-- **Integers with one text are one.** -/
theorem intText_injective {a b : ℤ} (h : toString a = toString b) : a = b := by
  have hchars := congrArg String.toList h
  rw [toList_intText, toList_intText] at hchars
  have hsign : ∀ n : ℕ, '-' ∉ Nat.toDigits 10 n := by
    intro n hmem
    have hdigit := Nat.isDigit_of_mem_toDigits (by decide) (by decide) hmem
    exact absurd hdigit (by decide)
  split_ifs at hchars with ha hb hb
  · have := toDigits_injective (List.cons.inj hchars).2
    omega
  · exact absurd (hchars ▸ List.mem_append_left _ List.mem_cons_self) (hsign _)
  · exact absurd (hchars ▸ List.mem_append_left _ List.mem_cons_self) (hsign _)
  · have := toDigits_injective hchars
    omega

/-! ## Texts of digits -/

/-- The value of a text of decimal digits, in any script. -/
def decimalText? (s : String) : Option ℕ :=
  if s.toList.isEmpty then none else s.toList.foldlM (fun n c => (decimalValue? c).map (10 * n + ·)) 0

/-- `str.isdigit` on a code point. -/
def isDigitCode (n : ℕ) : Bool :=
  (decimalZeros.find? fun z => z ≤ n && n < z + 10).isSome || digitRanges.any fun r => r.1 ≤ n && n ≤ r.2

theorem isDigit_eq (c : Char) : isDigit c = isDigitCode c.toNat := by
  unfold isDigit isDigitCode decimalValue?
  rw [Option.isSome_map]

theorem not_isSpace_of_isDigit {c : Char} (h : isDigit c = true) : isSpace c = false := by
  cases hspace : isSpace c with
  | false => rfl
  | true =>
    have hcodes : ∀ n ∈ [9, 10, 11, 12, 13, 28, 29, 30, 31, 32, 133, 160, 5760, 8192, 8193, 8194, 8195, 8196, 8197,
        8198, 8199, 8200, 8201, 8202, 8232, 8233, 8239, 8287, 12288], isDigitCode n = false := by decide
    rw [isDigit_eq, hcodes c.toNat (List.contains_iff_mem.mp hspace)] at h
    cases h

theorem isDigit_of_decimal {c : Char} (h : (decimalValue? c).isSome = true) : isDigit c = true := by
  rw [isDigit, h, Bool.true_or]

/-- A text without white space is not changed by `strip`. -/
theorem strip_of_forall {s : String} (h : ∀ c ∈ s.toList, isSpace c = false) : strip s = s := by
  have hdrop : ∀ l : List Char, (∀ c ∈ l, isSpace c = false) → l.dropWhile isSpace = l := by
    intro l hl
    cases l with
    | nil => rfl
    | cons c l => rw [List.dropWhile_cons_of_neg (by simp [hl c List.mem_cons_self])]
  unfold strip stripWith
  rw [hdrop _ h, hdrop _ fun c hc => h c (List.mem_reverse.mp hc), List.reverse_reverse, String.ofList_toList]

/-- Without underscores, the digits are read one after the other. -/
theorem digitsValue_eq : ∀ (c : Char) (ds : List Char) (acc : Option ℕ), (∀ d ∈ c :: ds, d ≠ '_') →
    digitsValue? acc (c :: ds) = (c :: ds).foldlM (fun n d => (decimalValue? d).map (10 * n + ·)) (acc.getD 0)
  | c, ds, acc, h => by
    have hc : c ≠ '_' := h c List.mem_cons_self
    rw [digitsValue?.eq_4 _ _ _ fun _ _ hunder => absurd hunder hc, List.foldlM_cons]
    cases hd : decimalValue? c with
    | none => rfl
    | some d =>
      cases ds with
      | nil => rfl
      | cons c' ds => exact digitsValue_eq c' ds (some (10 * acc.getD 0 + d)) fun x hx => h x (List.mem_cons_of_mem _ hx)

/-- **`int` of a text of digits**: its decimal value, if it has one and is not too long. -/
theorem parseInt_of_isDigitStr {s : String} (h : isDigitStr s = true) :
    parseInt? s = if maxStrDigits < s.toList.length then none else (decimalText? s).map fun n => (n : ℤ) := by
  unfold isDigitStr at h
  rw [Bool.and_eq_true, Bool.not_eq_true', List.all_eq_true] at h
  obtain ⟨hne, hdigits⟩ := h
  have hnot : ∀ d : Char, isDigit d = false → ∀ c ∈ s.toList, c ≠ d := by
    rintro d hd c hc rfl
    rw [hdigits c hc] at hd
    cases hd
  have hread : parseInt? s = (boundedDigits? s.toList).map fun n => (n : ℤ) := by
    unfold parseInt?
    rw [strip_of_forall fun c hc => not_isSpace_of_isDigit (hdigits c hc)]
    split
    · rename_i ds hs
      exact absurd rfl (hnot '-' (by decide) '-' (hs ▸ List.mem_cons_self))
    · rename_i ds hs
      exact absurd rfl (hnot '+' (by decide) '+' (hs ▸ List.mem_cons_self))
    · rfl
  have hfilter : s.toList.filter (· != '_') = s.toList :=
    List.filter_eq_self.mpr fun d hd => by simpa using hnot '_' (by decide) d hd
  have hvalue : digitsValue? none s.toList = decimalText? s := by
    unfold decimalText?
    rw [hne, if_neg (by simp)]
    cases hs : s.toList with
    | nil => simp [hs] at hne
    | cons c ds => exact digitsValue_eq c ds none fun d hd => hnot '_' (by decide) d (hs ▸ hd)
  rw [hread, boundedDigits?, hfilter, hvalue]
  split_ifs <;> rfl

/-- A text with a decimal value is a text of digits. -/
theorem isDigitStr_of_decimalText {s : String} {n : ℕ} (h : decimalText? s = some n) : isDigitStr s = true := by
  have hall : ∀ (ds : List Char) (acc n : ℕ), ds.foldlM (fun n c => (decimalValue? c).map (10 * n + ·)) acc = some n →
      ∀ c ∈ ds, isDigit c = true := by
    intro ds
    induction ds with
    | nil =>
      intro acc n _ c hc
      cases hc
    | cons d ds ih =>
      intro acc n h c hc
      rw [List.foldlM_cons] at h
      cases hd : decimalValue? d with
      | none =>
        rw [hd] at h
        cases h
      | some v =>
        rw [hd] at h
        rcases List.mem_cons.mp hc with rfl | hc
        · exact isDigit_of_decimal (by rw [hd]; rfl)
        · exact ih _ n h c hc
  unfold decimalText? at h
  split_ifs at h with hempty
  unfold isDigitStr
  rw [Bool.and_eq_true, List.all_eq_true]
  exact ⟨by simpa using hempty, hall _ _ _ h⟩

/-! ## Reading integers back -/

/-- What an ASCII digit is worth. -/
theorem decimalValue_of_isDigit {c : Char} (h : c.isDigit = true) : decimalValue? c = some (c.toNat - '0'.toNat) := by
  have hcodes : ∀ n < 58, 48 ≤ n → (decimalZeros.find? fun z => z ≤ n && n < z + 10) = some 48 := by decide
  obtain ⟨hlow, hhigh⟩ := Char.isDigit_iff_toNat.mp h
  unfold decimalValue?
  rw [hcodes c.toNat (Nat.lt_succ_of_le hhigh) hlow]
  rfl

theorem boundedDigits_toDigits {n : ℕ} (h : (Nat.toDigits 10 n).length ≤ maxStrDigits) :
    boundedDigits? (Nat.toDigits 10 n) = some n := by
  have hdigit : ∀ c ∈ Nat.toDigits 10 n, c.isDigit = true :=
    fun c hc => Nat.isDigit_of_mem_toDigits (by decide) (by decide) hc
  have hunder : ∀ c ∈ Nat.toDigits 10 n, c ≠ '_' := by
    rintro c hc rfl
    exact absurd (hdigit _ hc) (by decide)
  have hfilter : (Nat.toDigits 10 n).filter (· != '_') = Nat.toDigits 10 n :=
    List.filter_eq_self.mpr fun d hd => by simpa using hunder d hd
  have hfold : ∀ (ds : List Char) (acc : ℕ), (∀ c ∈ ds, c.isDigit = true) →
      ds.foldlM (fun n d => (decimalValue? d).map (10 * n + ·)) acc = some (Nat.ofDigitChars 10 ds acc) := by
    intro ds
    induction ds with
    | nil => exact fun acc _ => rfl
    | cons d ds ih =>
      intro acc hds
      rw [List.foldlM_cons, decimalValue_of_isDigit (hds d List.mem_cons_self), Nat.ofDigitChars_cons]
      exact ih _ fun c hc => hds c (List.mem_cons_of_mem _ hc)
  rw [boundedDigits?, hfilter, if_neg (Nat.not_lt.mpr h)]
  obtain ⟨c, ds, hdigits, -⟩ := toDigits_head n
  rw [hdigits] at hunder hdigit ⊢
  rw [digitsValue_eq c ds none hunder, hfold _ _ hdigit, ← hdigits, Option.getD_none, Nat.ofDigitChars_toDigits
    (by decide) (by decide)]

/-- **The text of an integer** that is not too long is read back by `int`. -/
theorem parseInt_intText {a : ℤ} (h : (Nat.toDigits 10 a.natAbs).length ≤ maxStrDigits) :
    parseInt? (toString a) = some a := by
  have hspace : ∀ c ∈ (toString a).toList, isSpace c = false := by
    intro c hc
    rcases mem_intText hc with rfl | hdigit
    · decide
    · exact not_isSpace_of_isDigit (isDigit_of_decimal (by rw [decimalValue_of_isDigit hdigit]; rfl))
  unfold parseInt?
  rw [strip_of_forall hspace, toList_intText]
  obtain ⟨c, ds, hdigits, hc⟩ := toDigits_head a.natAbs
  have hread := boundedDigits_toDigits h
  split_ifs with hneg
  · have hvalue : -(a.natAbs : ℤ) = a := by omega
    show Option.map (fun n : ℤ => -n) (boundedDigits? (Nat.toDigits 10 a.natAbs) >>= fun n => pure (n : ℤ)) = some a
    rw [hread]
    exact congrArg some hvalue
  · rw [List.nil_append]
    rw [hdigits] at hread ⊢
    split
    · rename_i heq
      cases heq
      exact absurd hc (by decide)
    · rename_i heq
      cases heq
      exact absurd hc (by decide)
    · have hvalue : (a.natAbs : ℤ) = a := by omega
      rw [hread]
      exact congrArg some hvalue

end RevenueOS.Py
