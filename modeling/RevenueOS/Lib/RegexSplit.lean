import RevenueOS.Lib.RegexMatches
import Mathlib.Data.List.Forall2

/-!
# RevenueOS.Lib.RegexSplit — what lies between the matches

A text is split at the matches of a pattern; a replacement stands where they were.  A character that no item of a
pattern holds, and that is no letter of a word, separates texts for it: it matches on each side as if the other were
not there.

* `search_append_cons`, `sub_append_cons`: search and replacement on the two sides of such a character.
* `sub_eq_intercalate`: the replaced text is what was split, with the replacement between.
* `exists_gap`: where the parts of a split stand in the text, between which matches, and that no match begins in them.
* `exists_match_of_gap`: patterns whose matches are words between boundaries match in a part only what they match in
  the text.
-/

namespace RevenueOS.Lib

namespace Regex

variable {a : Alphabet} {r q : Regex}

/-! ## Separating characters -/

/-- A character that a pattern does not match, and that is like the end of a text to it. -/
structure Separates (a : Alphabet) (r : Regex) (c : Char) : Prop where
  avoided : r.every (fun item => !item.holds a c) = true
  nonword : a.isWord c = false

/-- A position, and the same with more text behind a separating character. -/
structure Alike (a : Alphabet) (tail : List Char) (p q : Cursor) : Prop where
  rest : p.rest = q.rest ++ tail
  before : p.before.any a.isWord = q.before.any a.isWord

/-- The fuel does not matter once it covers the text. -/
theorem iterate_fuel {next : Cursor → List Cursor} : ∀ {m n : ℕ} {p : Cursor}, p.rest.length ≤ m → p.rest.length ≤ n →
    iterate next m p = iterate next n p
  | 0, 0, p, _, _ => rfl
  | 0, n + 1, p, hm, _ => by
    unfold iterate
    rw [List.filter_eq_nil_iff.mpr fun q _ hq => ?_]
    · rfl
    · have hq := of_decide_eq_true hq
      omega
  | m + 1, 0, p, _, hn => by
    unfold iterate
    rw [List.filter_eq_nil_iff.mpr fun q _ hq => ?_]
    · rfl
    · have hq := of_decide_eq_true hq
      omega
  | m + 1, n + 1, p, hm, hn => by
    unfold iterate
    congr 1
    refine List.flatMap_congr fun q hq => ?_
    have hless := of_decide_eq_true (List.mem_filter.mp hq).2
    exact iterate_fuel (by omega) (by omega)

section Tail

variable {tail : List Char}

theorem forall₂_iterate {next : Cursor → List Cursor}
    (hnext : ∀ p q, Alike a tail p q → List.Forall₂ (Alike a tail) (next p) (next q)) :
    ∀ (fuel : ℕ) (p q : Cursor), Alike a tail p q →
      List.Forall₂ (Alike a tail) (iterate next fuel p) (iterate next fuel q)
  | 0, p, q, h => .cons h .nil
  | fuel + 1, p, q, h => by
    unfold iterate
    refine List.rel_append (List.rel_flatMap (List.rel_filter ?_ (hnext p q h)) fun s t hst => ?_) (.cons h .nil)
    · intro s t hst
      show decide (s.rest.length < p.rest.length) = true ↔ decide (t.rest.length < q.rest.length) = true
      rw [decide_eq_true_iff, decide_eq_true_iff, hst.rest, h.rest, List.length_append, List.length_append]
      omega
    · exact forall₂_iterate hnext fuel s t hst

/-- **Matches stop alike** before a separating character and before the end of the text. -/
theorem forall₂_ends : ∀ {r : Regex}, (∀ c ∈ tail.head?, Separates a r c) → ∀ {p q : Cursor}, Alike a tail p q →
    List.Forall₂ (Alike a tail) (ends a r p) (ends a r q)
  | .empty, _, p, q, h => .cons h .nil
  | .set items, htail, ⟨before, rest⟩, ⟨before', []⟩, h => by
    obtain rfl : rest = tail := h.rest
    cases rest with
    | nil => exact .nil
    | cons c cs =>
      have hnone : items.any (Item.holds a c) = false := by
        rw [List.any_eq_false]
        intro item hitem hholds
        have havoided := List.all_eq_true.mp (htail c rfl).avoided item hitem
        rw [hholds] at havoided
        cases havoided
      simp only [ends]
      rw [if_neg (by rw [hnone]; exact Bool.false_ne_true)]
      exact .nil
  | .set items, _, ⟨before, rest⟩, ⟨before', c :: cs⟩, h => by
    obtain rfl : rest = c :: cs ++ tail := h.rest
    simp only [ends, List.cons_append]
    split_ifs with hholds
    · exact .cons ⟨rfl, rfl⟩ .nil
    · exact .nil
  | .boundary, htail, p, q, h => by
    have hnext : tail.head?.any a.isWord = false := by
      cases tail with
      | nil => rfl
      | cons c cs => exact (htail c rfl).nonword
    have hsame : p.atBoundary a = q.atBoundary a := by
      unfold Cursor.atBoundary
      have hend := any_head (a := a) q.rest []
      rw [List.append_nil] at hend
      rw [h.before, h.rest, any_head, hnext, hend]
      rfl
    simp only [ends]
    rw [hsame]
    split_ifs with hboundary
    · exact .cons h .nil
    · exact .nil
  | .seq r s, htail, p, q, h => by
    have hfirst : ∀ c ∈ tail.head?, Separates a r c := fun c hc =>
      ⟨(Bool.and_eq_true_iff.mp (htail c hc).avoided).1, (htail c hc).nonword⟩
    have hlater : ∀ c ∈ tail.head?, Separates a s c := fun c hc =>
      ⟨(Bool.and_eq_true_iff.mp (htail c hc).avoided).2, (htail c hc).nonword⟩
    exact List.rel_flatMap (forall₂_ends hfirst h) fun p' q' h' => forall₂_ends hlater h'
  | .alt r s, htail, p, q, h => by
    have hleft : ∀ c ∈ tail.head?, Separates a r c := fun c hc =>
      ⟨(Bool.and_eq_true_iff.mp (htail c hc).avoided).1, (htail c hc).nonword⟩
    have hright : ∀ c ∈ tail.head?, Separates a s c := fun c hc =>
      ⟨(Bool.and_eq_true_iff.mp (htail c hc).avoided).2, (htail c hc).nonword⟩
    exact List.rel_append (forall₂_ends hleft h) (forall₂_ends hright h)
  | .star r, htail, p, q, h => by
    have hone : ∀ c ∈ tail.head?, Separates a r c := fun c hc => ⟨(htail c hc).avoided, (htail c hc).nonword⟩
    have hsteps := forall₂_iterate (fun p q h => forall₂_ends hone h) p.rest.length p q h
    have hfuel : iterate (ends a r) p.rest.length q = iterate (ends a r) q.rest.length q := by
      refine iterate_fuel ?_ (Nat.le_refl _)
      rw [h.rest, List.length_append]
      omega
    rw [hfuel] at hsteps
    exact hsteps

theorem isEmpty_ends_alike (htail : ∀ c ∈ tail.head?, Separates a r c) {before before' : Option Char} {text : List Char}
    (h : before.any a.isWord = before'.any a.isWord) :
    (ends a r ⟨before, text ++ tail⟩).isEmpty = (ends a r ⟨before', text⟩).isEmpty := by
  have hends := @forall₂_ends a tail r htail ⟨before, text ++ tail⟩ ⟨before', text⟩ ⟨rfl, h⟩
  generalize ends a r ⟨before, text ++ tail⟩ = ps at hends
  generalize ends a r ⟨before', text⟩ = qs at hends
  cases hends with
  | nil => rfl
  | cons => rfl

end Tail

theorem searchFrom_nil {before : Option Char} : searchFrom a r before [] = !(ends a r ⟨before, []⟩).isEmpty := rfl

theorem searchFrom_cons {before : Option Char} {c : Char} {cs : List Char} : searchFrom a r before (c :: cs) =
    (!(ends a r ⟨before, c :: cs⟩).isEmpty || searchFrom a r (some c) cs) := rfl

theorem subFrom_skip {replacement : List Char} {skip : ℕ} {before : Option Char} {c : Char} {cs : List Char} :
    subFrom a r replacement (skip + 1) before (c :: cs) = subFrom a r replacement skip (some c) cs := rfl

theorem subFrom_cons {replacement : List Char} {before : Option Char} {c : Char} {cs : List Char} :
    subFrom a r replacement 0 before (c :: cs) =
      match ends a r ⟨before, c :: cs⟩ with
      | [] => c :: subFrom a r replacement 0 (some c) cs
      | stop :: _ => replacement ++ subFrom a r replacement (cs.length - stop.rest.length) (some c) cs := rfl

theorem searchFrom_congr (text : List Char) {before before' : Option Char}
    (h : before.any a.isWord = before'.any a.isWord) : searchFrom a r before text = searchFrom a r before' text := by
  have hends := @isEmpty_ends_alike a r [] (fun c hc => by cases hc) before before' text h
  rw [List.append_nil] at hends
  cases text with
  | nil => rw [searchFrom_nil, searchFrom_nil, hends]
  | cons c cs => rw [searchFrom_cons, searchFrom_cons, hends]

/-- **A search on both sides** of a separating character. -/
theorem search_append_cons {c : Char} (hc : Separates a r c) (x y : List Char) :
    search a r (x ++ c :: y) = (search a r x || search a r y) := by
  have htail : ∀ d ∈ (c :: y).head?, Separates a r d := fun d hd => Option.some.inj hd ▸ hc
  have hfrom : ∀ (x : List Char) (before : Option Char),
      searchFrom a r before (x ++ c :: y) = (searchFrom a r before x || searchFrom a r (some c) y) := by
    intro x
    induction x with
    | nil =>
      intro before
      have hends := @isEmpty_ends_alike a r _ htail before before [] rfl
      rw [List.nil_append] at hends ⊢
      rw [searchFrom_cons, searchFrom_nil, hends]
    | cons d x ih =>
      intro before
      have hends := @isEmpty_ends_alike a r _ htail before before (d :: x) rfl
      rw [List.cons_append] at hends ⊢
      rw [searchFrom_cons, searchFrom_cons, hends, ih, Bool.or_assoc]
  unfold search
  rw [hfrom]
  congr 1
  exact searchFrom_congr y hc.nonword

/-- What a preferred stop leaves, in two texts that are alike. -/
theorem subFrom_congr (replacement : List Char) : ∀ (text : List Char) (skip : ℕ) {before before' : Option Char},
    before.any a.isWord = before'.any a.isWord →
      subFrom a r replacement skip before text = subFrom a r replacement skip before' text
  | [], skip, before, before', _ => by
    unfold subFrom
    rfl
  | c :: cs, skip + 1, before, before', _ => by
    unfold subFrom
    rfl
  | c :: cs, 0, before, before', h => by
    have hends := @forall₂_ends a [] r (fun d hd => by cases hd) ⟨before, c :: cs⟩ ⟨before', c :: cs⟩ ⟨by simp, h⟩
    rw [subFrom_cons, subFrom_cons]
    generalize ends a r ⟨before, c :: cs⟩ = ps at hends
    generalize ends a r ⟨before', c :: cs⟩ = qs at hends
    cases hends with
    | nil => rfl
    | cons hstop _ =>
      dsimp only
      rw [hstop.rest, List.append_nil]

theorem ends_nil_of_not_nullable (hr : r.nullable = false) (before : Option Char) : ends a r ⟨before, []⟩ = [] := by
  by_contra hne
  obtain ⟨u, post, htext, hmatched⟩ := ends_ne_nil_iff.mp hne
  exact hmatched.ne_nil hr (List.append_eq_nil_iff.mp htext.symm).1

/-- **A replacement on both sides** of a separating character. -/
theorem sub_append_cons {c : Char} (hc : Separates a r c) (hr : r.nullable = false) (replacement x y : List Char) :
    sub a r replacement (x ++ c :: y) = sub a r replacement x ++ c :: sub a r replacement y := by
  have htail : ∀ d ∈ (c :: y).head?, Separates a r d := fun d hd => Option.some.inj hd ▸ hc
  have hfrom : ∀ (x : List Char) (skip : ℕ) (before : Option Char), skip ≤ x.length →
      subFrom a r replacement skip before (x ++ c :: y) =
        subFrom a r replacement skip before x ++ c :: subFrom a r replacement 0 (some c) y := by
    intro x
    induction x with
    | nil =>
      intro skip before hskip
      obtain rfl := Nat.le_zero.mp hskip
      have hends := @isEmpty_ends_alike a r _ htail before before [] rfl
      rw [ends_nil_of_not_nullable hr, List.nil_append] at hends
      rw [List.nil_append, subFrom_cons, List.isEmpty_iff.mp hends]
      rfl
    | cons d x ih =>
      intro skip before hskip
      cases skip with
      | succ skip =>
        rw [List.cons_append, subFrom_skip, subFrom_skip]
        exact ih skip (some d) (Nat.le_of_succ_le_succ hskip)
      | zero =>
        have hends := @forall₂_ends a _ r htail ⟨before, d :: x ++ c :: y⟩ ⟨before, d :: x⟩ ⟨rfl, rfl⟩
        rw [List.cons_append] at hends ⊢
        rw [subFrom_cons, subFrom_cons]
        generalize ends a r ⟨before, d :: (x ++ c :: y)⟩ = ps at hends
        generalize ends a r ⟨before, d :: x⟩ = qs at hends
        cases hends with
        | nil => exact congrArg (d :: ·) (ih 0 (some d) (Nat.zero_le _))
        | @cons stop stop' _ _ hstop _ =>
          dsimp only
          have hskip : (x ++ c :: y).length - stop.rest.length = x.length - stop'.rest.length := by
            rw [hstop.rest, List.length_append, List.length_append]
            omega
          rw [hskip, ih _ (some d) (Nat.sub_le _ _), List.append_assoc]
  unfold sub
  rw [hfrom x 0 none (Nat.zero_le _)]
  congr 2
  exact subFrom_congr replacement y 0 hc.nonword

/-- Without a match a text stays. -/
theorem sub_of_search_eq_false (replacement : List Char) {text : List Char} (h : search a r text = false) :
    sub a r replacement text = text := by
  have hfrom : ∀ (text : List Char) (before : Option Char), searchFrom a r before text = false →
      subFrom a r replacement 0 before text = text := by
    intro text
    induction text with
    | nil =>
      intro before _
      unfold subFrom
      rfl
    | cons c cs ih =>
      intro before h
      obtain ⟨hends, hrest⟩ := Bool.or_eq_false_iff.mp h
      rw [subFrom_cons, List.isEmpty_iff.mp ((Bool.not_eq_false' _).mp hends)]
      exact congrArg (c :: ·) (ih (some c) hrest)
  exact hfrom text none h

/-! ## The parts of a text -/

/-- The text between the matches from some position on; `skip` counts the characters of a match still to be passed
over. -/
def splitFrom (a : Alphabet) (r : Regex) : ℕ → Option Char → List Char → List (List Char)
  | _, _, [] => [[]]
  | skip + 1, _, c :: cs => splitFrom a r skip (some c) cs
  | 0, before, c :: cs =>
    match r.ends a ⟨before, c :: cs⟩ with
    | [] => (splitFrom a r 0 (some c) cs).modifyHead (c :: ·)
    | stop :: _ => [] :: splitFrom a r (cs.length - stop.rest.length) (some c) cs

/-- The text between the matches; for a pattern that does not match the empty text. -/
def split (a : Alphabet) (r : Regex) (text : List Char) : List (List Char) := splitFrom a r 0 none text

theorem splitFrom_skip {skip : ℕ} {before : Option Char} {c : Char} {cs : List Char} :
    splitFrom a r (skip + 1) before (c :: cs) = splitFrom a r skip (some c) cs := rfl

theorem splitFrom_cons {before : Option Char} {c : Char} {cs : List Char} :
    splitFrom a r 0 before (c :: cs) =
      match ends a r ⟨before, c :: cs⟩ with
      | [] => (splitFrom a r 0 (some c) cs).modifyHead (c :: ·)
      | stop :: _ => [] :: splitFrom a r (cs.length - stop.rest.length) (some c) cs := rfl

theorem splitFrom_ne_nil : ∀ (text : List Char) (skip : ℕ) (before : Option Char), splitFrom a r skip before text ≠ []
  | [], skip, before => by
    unfold splitFrom
    exact List.cons_ne_nil _ _
  | c :: cs, skip + 1, before => splitFrom_ne_nil cs skip (some c)
  | c :: cs, 0, before => by
    rw [splitFrom_cons]
    cases ends a r ⟨before, c :: cs⟩ with
    | nil =>
      obtain ⟨g, gs, hsplit⟩ := List.exists_cons_of_ne_nil (splitFrom_ne_nil cs 0 (some c))
      dsimp only
      rw [hsplit]
      exact List.cons_ne_nil _ _
    | cons stop _ => exact List.cons_ne_nil _ _

theorem split_ne_nil (text : List Char) : split a r text ≠ [] := splitFrom_ne_nil text 0 none

/-- **A replaced text** is what was split, with the replacement between. -/
theorem sub_eq_intercalate (replacement text : List Char) :
    sub a r replacement text = replacement.intercalate (split a r text) := by
  have hfrom : ∀ (text : List Char) (skip : ℕ) (before : Option Char),
      subFrom a r replacement skip before text = replacement.intercalate (splitFrom a r skip before text) := by
    intro text
    induction text with
    | nil =>
      intro skip before
      unfold subFrom splitFrom
      exact List.intercalate_singleton.symm
    | cons c cs ih =>
      intro skip before
      cases skip with
      | succ skip =>
        rw [subFrom_skip, splitFrom_skip]
        exact ih skip (some c)
      | zero =>
        rw [subFrom_cons, splitFrom_cons]
        cases ends a r ⟨before, c :: cs⟩ with
        | nil =>
          obtain ⟨g, gs, hsplit⟩ := List.exists_cons_of_ne_nil (splitFrom_ne_nil (a := a) (r := r) cs 0 (some c))
          dsimp only
          rw [ih, hsplit, List.modifyHead_cons]
          cases gs with
          | nil => rw [List.intercalate_singleton, List.intercalate_singleton]
          | cons g' gs =>
            rw [List.intercalate_cons_cons, List.intercalate_cons_cons]
            rfl
        | cons stop _ =>
          dsimp only
          rw [ih, List.intercalate_cons_of_ne_nil (splitFrom_ne_nil _ _ _), List.nil_append]
  exact hfrom text 0 none

/-- How a text falls into parts, from some position on. -/
inductive Splits (a : Alphabet) (r : Regex) : Option Char → List Char → List (List Char) → Prop where
  | nil {before : Option Char} : Splits a r before [] [[]]
  | keep {before : Option Char} {c : Char} {cs g : List Char} {gs : List (List Char)} :
      ends a r ⟨before, c :: cs⟩ = [] → Splits a r (some c) cs (g :: gs) → Splits a r before (c :: cs) ((c :: g) :: gs)
  | cut {before : Option Char} {u rest : List Char} {gs : List (List Char)} : u ≠ [] →
      Match a r (before.any a.isWord) u (rest.head?.any a.isWord) → Splits a r (u.getLast?.or before) rest gs →
      Splits a r before (u ++ rest) ([] :: gs)

theorem getLast?_or_cons (c : Char) (u : List Char) (before : Option Char) :
    u.getLast?.or (some c) = (c :: u).getLast?.or before := by
  cases u with
  | nil => rfl
  | cons d u =>
    rw [List.getLast?_cons_cons, List.getLast?_cons]
    rfl

theorem splits_split (hr : r.nullable = false) (text : List Char) : Splits a r none text (split a r text) := by
  have hfrom : ∀ (text u rest : List Char) (before : Option Char), text = u ++ rest →
      Splits a r (u.getLast?.or before) rest (splitFrom a r u.length before text) := by
    intro text
    induction text with
    | nil =>
      intro u rest before htext
      obtain ⟨rfl, rfl⟩ := List.append_eq_nil_iff.mp htext.symm
      exact .nil
    | cons c cs ih =>
      intro u rest before htext
      cases u with
      | cons d u =>
        obtain ⟨rfl, htail⟩ := List.cons.inj htext
        rw [List.length_cons, splitFrom_skip]
        have hlater := ih u rest (some c) htail
        rwa [getLast?_or_cons c u before] at hlater
      | nil =>
        rw [List.nil_append] at htext
        subst htext
        rw [List.length_nil, splitFrom_cons]
        cases hends : ends a r ⟨before, c :: cs⟩ with
        | nil =>
          obtain ⟨g, gs, hsplit⟩ := List.exists_cons_of_ne_nil (splitFrom_ne_nil (a := a) (r := r) cs 0 (some c))
          have hlater := ih [] cs (some c) rfl
          rw [List.length_nil, hsplit] at hlater
          dsimp only
          rw [hsplit]
          exact .keep hends hlater
        | cons stop _ =>
          obtain ⟨u, hrest, hbefore, hmatched⟩ := mem_ends_iff.mp (hends ▸ List.mem_cons_self (a := stop))
          have hne := hmatched.ne_nil hr
          obtain ⟨d, u, rfl⟩ := List.exists_cons_of_ne_nil hne
          obtain ⟨rfl, htail⟩ := List.cons.inj hrest
          have htail : cs = u ++ stop.rest := htail
          have hlater := ih u stop.rest (some c) htail
          rw [getLast?_or_cons c u before] at hlater
          have hskip : cs.length - stop.rest.length = u.length := by
            rw [htail, List.length_append, Nat.add_sub_cancel]
          dsimp only
          rw [hskip]
          have hcut := Splits.cut hne hmatched hlater
          rwa [List.cons_append, ← htail] at hcut
  exact hfrom text [] text none rfl

/-- A part of a text: it stands after a match or at the start, before a match or at the end, and no match begins in
it. -/
structure Gap (a : Alphabet) (r : Regex) (before : Option Char) (text pre g post : List Char) : Prop where
  text_eq : text = pre ++ g ++ post
  opened : pre = [] ∨ ∃ m u, pre = m ++ u ∧ u ≠ [] ∧
    Match a r (wordBefore a (before.any a.isWord) m) u (wordAfter a (g ++ post) false)
  closed : post = [] ∨ ∃ u t, post = u ++ t ∧ u ≠ [] ∧
    Match a r (wordBefore a (before.any a.isWord) (pre ++ g)) u (wordAfter a t false)
  free : ∀ x y, g = x ++ y → y ≠ [] → ends a r ⟨(pre ++ x).getLast?.or before, y ++ post⟩ = []

/-- More text before a part. -/
theorem Gap.prepend {before : Option Char} {u text pre g post : List Char}
    (h : Gap a r (u.getLast?.or before) text pre g post)
    (hopened : pre = [] → u = [] ∨ ∃ m w, u = m ++ w ∧ w ≠ [] ∧
      Match a r (wordBefore a (before.any a.isWord) m) w (wordAfter a text false)) :
    Gap a r before (u ++ text) (u ++ pre) g post := by
  have hword : ∀ m, wordBefore a ((u.getLast?.or before).any a.isWord) m =
      wordBefore a (before.any a.isWord) (u ++ m) := by
    intro m
    rw [any_last, wordBefore_append]
  refine ⟨?_, ?_, ?_, fun x y hg hy => ?_⟩
  · rw [h.text_eq, List.append_assoc, List.append_assoc, List.append_assoc]
  · rcases h.opened with hpre | ⟨m, w, hpre, hw, hmatched⟩
    · subst hpre
      rw [List.append_nil]
      rcases hopened rfl with hu | ⟨m, w, hu, hw, hmatched⟩
      · exact .inl hu
      · rw [h.text_eq, List.nil_append] at hmatched
        exact .inr ⟨m, w, hu, hw, hmatched⟩
    · rw [hword] at hmatched
      exact .inr ⟨u ++ m, w, by rw [hpre, List.append_assoc], hw, hmatched⟩
  · rcases h.closed with hpost | ⟨w, t, hpost, hw, hmatched⟩
    · exact .inl hpost
    · rw [hword, ← List.append_assoc] at hmatched
      exact .inr ⟨w, t, hpost, hw, hmatched⟩
  · have hfree := h.free x y hg hy
    rw [← Option.or_assoc, ← List.getLast?_append] at hfree
    rwa [List.append_assoc]

theorem Splits.gaps {before : Option Char} {text : List Char} {gs : List (List Char)} (h : Splits a r before text gs) :
    (∀ g ∈ gs.head?, ∃ post, Gap a r before text [] g post) ∧
      ∀ g ∈ gs.tail, ∃ pre post, pre ≠ [] ∧ Gap a r before text pre g post := by
  induction h with
  | nil =>
    refine ⟨fun g hg => ?_, fun g hg => absurd hg List.not_mem_nil⟩
    obtain rfl := Option.some.inj hg
    refine ⟨[], rfl, .inl rfl, .inl rfl, fun x y hxy hy => ?_⟩
    exact absurd (List.append_eq_nil_iff.mp hxy.symm).2 hy
  | @keep before c cs g gs hends _ ih =>
    obtain ⟨hhead, htail⟩ := ih
    constructor
    · intro g' hg'
      obtain rfl := Option.some.inj hg'
      obtain ⟨post, hgap⟩ := hhead g rfl
      have htext : cs = g ++ post := hgap.text_eq
      refine ⟨post, ?_, .inl rfl, ?_, fun x y hxy hy => ?_⟩
      · rw [htext]
        rfl
      · rcases hgap.closed with hpost | ⟨u, t, hpost, hu, hmatched⟩
        · exact .inl hpost
        · refine .inr ⟨u, t, hpost, hu, ?_⟩
          have happend := @wordBefore_append a [c] g (before.any a.isWord)
          rw [List.singleton_append] at happend
          rw [List.nil_append, happend]
          exact hmatched
      · cases x with
        | nil =>
          obtain rfl : y = c :: g := hxy.symm
          rw [List.cons_append, ← htext]
          exact hends
        | cons d x =>
          obtain ⟨rfl, hpart⟩ := List.cons.inj hxy
          have hfree := hgap.free x y hpart hy
          rw [List.nil_append] at hfree ⊢
          rwa [getLast?_or_cons c x before] at hfree
    · intro g' hg'
      obtain ⟨pre, post, hpre, hgap⟩ := htail g' hg'
      have hcons := @Gap.prepend a r before [c] cs pre g' post hgap fun hnil => absurd hnil hpre
      exact ⟨c :: pre, post, List.cons_ne_nil _ _, hcons⟩
  | @cut before u rest gs hu hmatched _ ih =>
    obtain ⟨hhead, htail⟩ := ih
    have hnext : rest.head?.any a.isWord = wordAfter a rest false := by
      have hend := any_head (a := a) rest []
      rw [List.append_nil] at hend
      exact hend
    rw [hnext] at hmatched
    constructor
    · intro g hg
      obtain rfl := Option.some.inj hg
      refine ⟨u ++ rest, rfl, .inl rfl, .inr ⟨u, rest, rfl, hu, hmatched⟩, fun x y hxy hy => ?_⟩
      exact absurd (List.append_eq_nil_iff.mp hxy.symm).2 hy
    · intro g hg
      have hopened : u = [] ∨ ∃ m w, u = m ++ w ∧ w ≠ [] ∧
          Match a r (wordBefore a (before.any a.isWord) m) w (wordAfter a rest false) :=
        .inr ⟨[], u, rfl, hu, hmatched⟩
      cases gs with
      | nil => cases hg
      | cons g' gs =>
        rcases List.mem_cons.mp hg with rfl | hg
        · obtain ⟨post, hgap⟩ := hhead g rfl
          have hfirst := hgap.prepend fun _ => hopened
          rw [List.append_nil] at hfirst
          exact ⟨u, post, hu, hfirst⟩
        · obtain ⟨pre, post, hpre, hgap⟩ := htail g hg
          exact ⟨u ++ pre, post, List.append_ne_nil_of_left_ne_nil hu _, hgap.prepend fun hnil => absurd hnil hpre⟩

/-- **Where the parts of a text stand.** -/
theorem exists_gap (hr : r.nullable = false) {text g : List Char} (hg : g ∈ split a r text) :
    ∃ pre post, Gap a r none text pre g post := by
  obtain ⟨hhead, htail⟩ := (splits_split (a := a) hr text).gaps
  obtain ⟨g', gs, hsplit⟩ := List.exists_cons_of_ne_nil (splitFrom_ne_nil (a := a) (r := r) text 0 none)
  have hsplit : split a r text = g' :: gs := hsplit
  rw [hsplit] at hg hhead htail
  rcases List.mem_cons.mp hg with rfl | hg
  · obtain ⟨post, hgap⟩ := hhead g rfl
    exact ⟨[], post, hgap⟩
  · obtain ⟨pre, post, -, hgap⟩ := htail g hg
    exact ⟨pre, post, hgap⟩

/-- The matches are words, or begin and end with one, between boundaries. -/
structure Framed (a : Alphabet) (r : Regex) : Prop where
  nonempty : r.nullable = false
  bounds : ∀ {l u n}, Match a r l u n → l = false ∧ n = false
  head : ∀ {l u n}, Match a r l u n → ∀ m, wordAfter a u m = true
  last : ∀ {l u n}, Match a r l u n → ∀ m, wordBefore a m u = true

theorem framed_of_syntax {word : Item → Bool}
    (hword : ∀ item c, word item = true → item.holds a c = true → a.isWord c = true)
    (hr : (r.opens && r.closes && !r.nullable && r.heads word && r.lasts word) = true) : Framed a r := by
  simp only [Bool.and_eq_true, Bool.not_eq_true'] at hr
  obtain ⟨⟨⟨⟨hopens, hcloses⟩, hsome⟩, hheads⟩, hlasts⟩ := hr
  have hhead : ∀ {l u n}, Match a r l u n → ∀ m, wordAfter a u m = true := by
    intro l u n h m
    have hfirst := h.head hword hheads
    cases u with
    | nil => exact absurd rfl (h.ne_nil hsome)
    | cons c u => exact hfirst c rfl
  have hlast : ∀ {l u n}, Match a r l u n → ∀ m, wordBefore a m u = true := by
    intro l u n h m
    have hfinal := h.last hword hlasts
    unfold wordBefore
    cases hu : u.getLast? with
    | none => exact absurd (List.getLast?_eq_none_iff.mp hu) (h.ne_nil hsome)
    | some c => exact hfinal c hu
  refine ⟨hsome, fun {l u n} h => ⟨?_, ?_⟩, hhead, hlast⟩
  · have hne := h.opens hopens
    rw [hhead h] at hne
    exact (Bool.eq_false_or_eq_true l).resolve_left hne
  · have hne := h.closes hcloses
    rw [hlast h] at hne
    exact (Bool.eq_false_or_eq_true n).resolve_left fun h => hne h.symm

/-- **What is matched in a part** is matched in the text, and no match of the pattern that splits begins there. -/
theorem exists_match_of_gap (hr : Framed a r) (hq : Framed a q) {text g : List Char} (hg : g ∈ split a r text)
    (h : search a q g = true) : ∃ pre u post, text = pre ++ u ++ post ∧ u ≠ [] ∧
      Match a q (wordBefore a false pre) u (wordAfter a post false) ∧ ends a r ⟨pre.getLast?, u ++ post⟩ = [] := by
  obtain ⟨pre, post, hgap⟩ := exists_gap hr.nonempty hg
  obtain ⟨x, u, y, rfl, hmatched⟩ := search_iff.mp h
  obtain ⟨hl, hn⟩ := hq.bounds hmatched
  have hne := hmatched.ne_nil hq.nonempty
  have hbefore : wordBefore a false (pre ++ x) = wordBefore a false x := by
    rcases List.eq_nil_or_concat' x with rfl | ⟨x, c, rfl⟩
    · rw [List.append_nil]
      rcases hgap.opened with rfl | ⟨m, w, rfl, hw, hmatch⟩
      · rfl
      · -- a match that ends there would be followed by no letter
        have hnext := (hr.bounds hmatch).2
        rw [List.nil_append, List.append_assoc, wordAfter_append, hq.head hmatched] at hnext
        cases hnext
    · rw [wordBefore_append, wordBefore_append, @wordBefore_append a x]
      rfl
  have hafter : wordAfter a (y ++ post) false = wordAfter a y false := by
    cases y with
    | nil =>
      rcases hgap.closed with rfl | ⟨w, t, rfl, hw, hmatch⟩
      · rfl
      · have hprevious := (hr.bounds hmatch).1
        rw [List.append_nil, ← List.append_assoc, wordBefore_append, hq.last hmatched] at hprevious
        cases hprevious
    | cons c y => rfl
  refine ⟨pre ++ x, u, y ++ post, ?_, hne, ?_, ?_⟩
  · rw [hgap.text_eq]
    simp only [List.append_assoc]
  · rw [hbefore, hafter]
    exact hmatched
  · have hfree := hgap.free x (u ++ y) (List.append_assoc x u y) (List.append_ne_nil_of_left_ne_nil hne _)
    rwa [Option.or_none, List.append_assoc] at hfree

theorem search_of_match {text pre u post : List Char} (htext : text = pre ++ u ++ post)
    (h : Match a r (wordBefore a false pre) u (wordAfter a post false)) : search a r text = true :=
  search_iff.mpr ⟨pre, u, post, htext, h⟩

/-- The parts have no match of the pattern that splits. -/
theorem search_gap_self (hr : Framed a r) {text g : List Char} (hg : g ∈ split a r text) : search a r g = false := by
  by_contra h
  obtain ⟨pre, u, post, -, -, hmatched, hends⟩ := exists_match_of_gap hr hr hg (Bool.not_eq_false _ ▸ h)
  refine ends_ne_nil_iff.mpr ⟨u, post, rfl, ?_⟩ hends
  have hlast := any_last (a := a) pre none
  have hnext := any_head (a := a) post []
  rw [List.append_nil] at hnext
  rw [Option.or_none] at hlast
  rw [hlast, hnext]
  exact hmatched

/-- They have a match of another only where the text has. -/
theorem search_of_gap (hr : Framed a r) (hq : Framed a q) {text g : List Char} (hg : g ∈ split a r text)
    (h : search a q g = true) : search a q text = true := by
  obtain ⟨pre, u, post, htext, -, hmatched, -⟩ := exists_match_of_gap hr hq hg h
  exact search_of_match htext hmatched

theorem infix_of_split (hr : r.nullable = false) {text g : List Char} (hg : g ∈ split a r text) : g <:+: text := by
  obtain ⟨pre, post, hgap⟩ := exists_gap hr hg
  exact ⟨pre, post, hgap.text_eq.symm⟩

/-- What stands inside a part stands so in the text. -/
theorem search_of_inner {text x u y : List Char} (hg : x ++ u ++ y <:+: text) (hx : x ≠ []) (hy : y ≠ [])
    (h : Match a r (wordBefore a false x) u (wordAfter a y false)) : search a r text = true := by
  obtain ⟨pre, post, rfl⟩ := hg
  refine search_iff.mpr ⟨pre ++ x, u, y ++ post, ?_, ?_⟩
  · simp only [List.append_assoc]
  · obtain ⟨x, c, rfl⟩ := (List.eq_nil_or_concat' x).resolve_left hx
    obtain ⟨d, y, rfl⟩ := List.exists_cons_of_ne_nil hy
    rw [wordBefore_append, wordBefore_append]
    rw [wordBefore_append] at h
    exact h

section Words

variable {c : Char} (hr : Framed a r) (hc : a.isWord c = false)
include hr hc

/-- A character that is no letter of a word does not count at the start of a text. -/
theorem search_cons (text : List Char) : search a r (c :: text) = search a r text := by
  refine Bool.eq_iff_iff.mpr (search_iff.trans (Iff.trans ?_ search_iff.symm))
  constructor
  · rintro ⟨pre, u, post, htext, hmatched⟩
    cases pre with
    | nil =>
      obtain ⟨d, u, rfl⟩ := List.exists_cons_of_ne_nil (hmatched.ne_nil hr.nonempty)
      obtain ⟨rfl, -⟩ := List.cons.inj htext
      have hword : a.isWord c = true := hr.head hmatched false
      rw [hc] at hword
      cases hword
    | cons d pre =>
      obtain ⟨rfl, htail⟩ := List.cons.inj htext
      refine ⟨pre, u, post, htail, ?_⟩
      rw [← List.singleton_append, wordBefore_append] at hmatched
      have hnone : wordBefore a false [c] = false := hc
      rwa [hnone] at hmatched
  · rintro ⟨pre, u, post, htext, hmatched⟩
    refine ⟨c :: pre, u, post, by rw [htext]; rfl, ?_⟩
    rw [← List.singleton_append, wordBefore_append]
    have hnone : wordBefore a false [c] = false := hc
    rwa [hnone]

/-- Nor at its end. -/
theorem search_concat (text : List Char) : search a r (text ++ [c]) = search a r text := by
  refine Bool.eq_iff_iff.mpr (search_iff.trans (Iff.trans ?_ search_iff.symm))
  constructor
  · rintro ⟨pre, u, post, htext, hmatched⟩
    rcases List.eq_nil_or_concat' post with rfl | ⟨post, d, rfl⟩
    · obtain ⟨v, d, rfl⟩ := (List.eq_nil_or_concat' u).resolve_left (hmatched.ne_nil hr.nonempty)
      have hlast := congrArg List.getLast? htext
      simp only [List.getLast?_append, List.getLast?_singleton, List.getLast?_nil, Option.none_or, Option.some_or,
        Option.some_inj] at hlast
      have hword := hr.last hmatched false
      rw [wordBefore_append, ← hlast] at hword
      have hword : a.isWord c = true := hword
      rw [hc] at hword
      cases hword
    · rw [← List.append_assoc] at htext
      obtain ⟨hfront, hlast⟩ := List.append_inj' htext rfl
      obtain rfl : c = d := (List.cons.inj hlast).1
      refine ⟨pre, u, post, hfront, ?_⟩
      have hnone : wordAfter a [c] false = false := hc
      rwa [wordAfter_append, hnone] at hmatched
  · rintro ⟨pre, u, post, htext, hmatched⟩
    refine ⟨pre, u, post ++ [c], by rw [htext, List.append_assoc], ?_⟩
    have hnone : wordAfter a [c] false = false := hc
    rwa [wordAfter_append, hnone]

end Words

end Regex

end RevenueOS.Lib
