import RevenueOS.Lib.Regex
import Mathlib.Data.List.Basic

/-!
# RevenueOS.Lib.RegexMatches — what a pattern matches

`Match` says of a text that a pattern matches it between two neighbours, of which only counts whether they are letters
of words.  The positions that backtracking finds are those of matches; how they are preferred does not show in it.

* `mem_ends_iff`, `search_iff`: the positions at which a match can stop, and the texts that have one.
* `Match.forall_mem`, `Match.exists_mem`, `Match.head`, `Match.last`, `Match.opens`, `Match.closes`: what the syntax of
  a pattern says of its matches: that all their characters are of a kind or one of them is, that the first or the last
  is, that they begin or end at a boundary.
-/

namespace RevenueOS.Lib

namespace Regex

variable (a : Alphabet)

/-- Whether a letter of a word follows, where a text stands before a neighbour. -/
def wordAfter (u : List Char) (next : Bool) : Bool := u.head?.elim next a.isWord

/-- Whether one precedes. -/
def wordBefore (before : Bool) (u : List Char) : Bool := u.getLast?.elim before a.isWord

/-- A pattern matches a text between its neighbours. -/
inductive Match : Regex → Bool → List Char → Bool → Prop where
  | empty {l n : Bool} : Match .empty l [] n
  | set {items : List Item} {c : Char} {l n : Bool} : items.any (Item.holds a c) = true → Match (.set items) l [c] n
  | boundary {l n : Bool} : l ≠ n → Match .boundary l [] n
  | seq {r s : Regex} {u v : List Char} {l n : Bool} : Match r l u (wordAfter a v n) → Match s (wordBefore a l u) v n →
      Match (.seq r s) l (u ++ v) n
  | left {r s : Regex} {u : List Char} {l n : Bool} : Match r l u n → Match (.alt r s) l u n
  | right {r s : Regex} {u : List Char} {l n : Bool} : Match s l u n → Match (.alt r s) l u n
  | done {r : Regex} {l n : Bool} : Match (.star r) l [] n
  | more {r : Regex} {u v : List Char} {l n : Bool} : Match r l u (wordAfter a v n) → u ≠ [] →
      Match (.star r) (wordBefore a l u) v n → Match (.star r) l (u ++ v) n

variable {a} {r s : Regex} {u v : List Char} {l n : Bool}

@[simp] theorem wordAfter_nil : wordAfter a [] n = n := rfl

@[simp] theorem wordAfter_cons {c : Char} : wordAfter a (c :: u) n = a.isWord c := rfl

@[simp] theorem wordBefore_nil : wordBefore a l [] = l := rfl

theorem wordAfter_append : wordAfter a (u ++ v) n = wordAfter a u (wordAfter a v n) := by
  cases u with
  | nil => rfl
  | cons c u => rfl

theorem wordBefore_append : wordBefore a l (u ++ v) = wordBefore a (wordBefore a l u) v := by
  unfold wordBefore
  rw [List.getLast?_append]
  cases v.getLast? with
  | none => rfl
  | some c => rfl

theorem any_head (v rest : List Char) : (v ++ rest).head?.any a.isWord = wordAfter a v (rest.head?.any a.isWord) := by
  cases v with
  | nil => rfl
  | cons c v => rfl

theorem any_last (u : List Char) (before : Option Char) :
    (u.getLast?.or before).any a.isWord = wordBefore a (before.any a.isWord) u := by
  unfold wordBefore
  cases u.getLast? with
  | none => rfl
  | some c => rfl

/-! ## The positions at which a match can stop -/

theorem Cursor.ext {p q : Cursor} (hbefore : p.before = q.before) (hrest : p.rest = q.rest) : p = q := by
  cases p
  cases q
  subst hbefore hrest
  rfl

/-- A position that a match reaches. -/
structure Reaches (a : Alphabet) (r : Regex) (p q : Cursor) (u : List Char) : Prop where
  rest : p.rest = u ++ q.rest
  before : q.before = u.getLast?.or p.before
  matched : Match a r (p.before.any a.isWord) u (q.rest.head?.any a.isWord)

theorem Reaches.seq {p q t : Cursor} (h : Reaches a r p q u) (h' : Reaches a s q t v) :
    Reaches a (.seq r s) p t (u ++ v) := by
  refine ⟨?_, ?_, .seq ?_ ?_⟩
  · rw [h.rest, h'.rest, List.append_assoc]
  · rw [h'.before, h.before, List.getLast?_append, Option.or_assoc]
  · rw [← any_head, ← h'.rest]
    exact h.matched
  · rw [← any_last, ← h.before]
    exact h'.matched

theorem Reaches.more {p q t : Cursor} (h : Reaches a r p q u) (hu : u ≠ []) (h' : Reaches a (.star r) q t v) :
    Reaches a (.star r) p t (u ++ v) := by
  refine ⟨?_, ?_, .more ?_ hu ?_⟩
  · rw [h.rest, h'.rest, List.append_assoc]
  · rw [h'.before, h.before, List.getLast?_append, Option.or_assoc]
  · rw [← any_head, ← h'.rest]
    exact h.matched
  · rw [← any_last, ← h.before]
    exact h'.matched

/-- A match of a sequence is made of two. -/
theorem Reaches.split {p t : Cursor} (h : p.rest = (u ++ v) ++ t.rest)
    (hbefore : t.before = (u ++ v).getLast?.or p.before)
    (hr : Match a r (p.before.any a.isWord) u (wordAfter a v (t.rest.head?.any a.isWord)))
    (hs : Match a s (wordBefore a (p.before.any a.isWord) u) v (t.rest.head?.any a.isWord)) :
    Reaches a r p ⟨u.getLast?.or p.before, v ++ t.rest⟩ u ∧ Reaches a s ⟨u.getLast?.or p.before, v ++ t.rest⟩ t v := by
  refine ⟨⟨?_, rfl, ?_⟩, rfl, ?_, ?_⟩
  · rw [h, List.append_assoc]
  · rw [any_head]
    exact hr
  · rw [hbefore, List.getLast?_append, Option.or_assoc]
  · rw [any_last]
    exact hs

/-- The steps of an iteration, with one pattern for each. -/
theorem reaches_of_mem_iterate (ih : ∀ p q, q ∈ ends a r p → ∃ u, Reaches a r p q u) :
    ∀ (fuel : ℕ) (p q : Cursor), q ∈ iterate (ends a r) fuel p → ∃ u, Reaches a (.star r) p q u
  | 0, p, q, h => by
    obtain rfl := List.mem_singleton.mp h
    exact ⟨[], rfl, rfl, .done⟩
  | fuel + 1, p, q, h => by
    unfold iterate at h
    rcases List.mem_append.mp h with h | h
    · obtain ⟨m, hm, hq⟩ := List.mem_flatMap.mp h
      obtain ⟨hm, hless⟩ := List.mem_filter.mp hm
      obtain ⟨u, hu⟩ := ih p m hm
      obtain ⟨v, hv⟩ := reaches_of_mem_iterate ih fuel m q hq
      refine ⟨u ++ v, hu.more ?_ hv⟩
      rintro rfl
      have hless := of_decide_eq_true hless
      rw [hu.rest, List.nil_append] at hless
      exact Nat.lt_irrefl _ hless
    · obtain rfl := List.mem_singleton.mp h
      exact ⟨[], rfl, rfl, .done⟩

theorem reaches_of_mem_ends : ∀ (r : Regex) (p q : Cursor), q ∈ ends a r p → ∃ u, Reaches a r p q u
  | .empty, p, q, h => by
    obtain rfl := List.mem_singleton.mp h
    exact ⟨[], rfl, rfl, .empty⟩
  | .set items, ⟨before, []⟩, q, h => by cases h
  | .set items, ⟨before, c :: cs⟩, q, h => by
    simp only [ends] at h
    split_ifs at h with hholds
    · obtain rfl := List.mem_singleton.mp h
      exact ⟨[c], rfl, rfl, .set hholds⟩
    · cases h
  | .boundary, p, q, h => by
    simp only [ends] at h
    split_ifs at h with hboundary
    · obtain rfl := List.mem_singleton.mp h
      exact ⟨[], rfl, rfl, .boundary (bne_iff_ne.mp hboundary)⟩
    · cases h
  | .seq r s, p, q, h => by
    obtain ⟨m, hm, hq⟩ := List.mem_flatMap.mp h
    obtain ⟨u, hu⟩ := reaches_of_mem_ends r p m hm
    obtain ⟨v, hv⟩ := reaches_of_mem_ends s m q hq
    exact ⟨u ++ v, hu.seq hv⟩
  | .alt r s, p, q, h => by
    rcases List.mem_append.mp h with h | h
    · obtain ⟨u, hu⟩ := reaches_of_mem_ends r p q h
      exact ⟨u, hu.rest, hu.before, .left hu.matched⟩
    · obtain ⟨u, hu⟩ := reaches_of_mem_ends s p q h
      exact ⟨u, hu.rest, hu.before, .right hu.matched⟩
  | .star r, p, q, h => reaches_of_mem_iterate (reaches_of_mem_ends r) _ p q h

/-- Enough steps reach the end of each repetition. -/
theorem mem_iterate_of_reaches (ih : ∀ p q u, Reaches a r p q u → q ∈ ends a r p) :
    ∀ (fuel : ℕ) (p q : Cursor) (u : List Char), u.length ≤ fuel → Reaches a (.star r) p q u →
      q ∈ iterate (ends a r) fuel p
  | 0, p, q, u, hfuel, h => by
    obtain rfl := List.eq_nil_of_length_eq_zero (Nat.le_zero.mp hfuel)
    obtain ⟨hrest, hbefore, -⟩ := h
    exact List.mem_singleton.mpr (Cursor.ext hbefore hrest.symm)
  | fuel + 1, p, q, u, hfuel, h => by
    obtain ⟨hrest, hbefore, hmatched⟩ := h
    unfold iterate
    generalize hl : p.before.any a.isWord = l at hmatched
    generalize hn : q.rest.head?.any a.isWord = n at hmatched
    rw [List.mem_append]
    cases hmatched with
    | done => exact .inr (List.mem_singleton.mpr (Cursor.ext hbefore hrest.symm))
    | @more _ u v _ _ hr hu hs =>
      subst hl hn
      obtain ⟨hfirst, hlater⟩ := Reaches.split hrest hbefore hr hs
      have hpos := List.length_pos_iff.mpr hu
      rw [List.length_append] at hfuel
      left
      refine List.mem_flatMap.mpr ⟨_, List.mem_filter.mpr ⟨ih _ _ _ hfirst, decide_eq_true ?_⟩,
        mem_iterate_of_reaches ih fuel _ q v (by omega) hlater⟩
      rw [hrest, List.length_append, List.length_append, List.length_append]
      omega

theorem mem_ends_of_reaches : ∀ (r : Regex) (p q : Cursor) (u : List Char), Reaches a r p q u → q ∈ ends a r p := by
  intro r
  induction r with
  | empty =>
    rintro p q u ⟨hrest, hbefore, hmatched⟩
    cases hmatched
    exact List.mem_singleton.mpr (Cursor.ext hbefore hrest.symm)
  | set items =>
    rintro ⟨before, rest⟩ q u ⟨hrest, hbefore, hmatched⟩
    cases hmatched with
    | set hholds =>
      obtain rfl : rest = _ := hrest
      simp only [ends, List.singleton_append]
      rw [if_pos hholds]
      exact List.mem_singleton.mpr (Cursor.ext hbefore rfl)
  | boundary =>
    rintro p q u ⟨hrest, hbefore, hmatched⟩
    cases hmatched with
    | boundary hne =>
      obtain rfl : q = p := Cursor.ext hbefore hrest.symm
      have hboundary : q.atBoundary a = true := bne_iff_ne.mpr hne
      simp only [ends]
      rw [if_pos hboundary]
      exact List.mem_singleton.mpr rfl
  | seq r s ihr ihs =>
    rintro p q u ⟨hrest, hbefore, hmatched⟩
    cases hmatched with
    | seq hr hs =>
      obtain ⟨hfirst, hlater⟩ := Reaches.split hrest hbefore hr hs
      exact List.mem_flatMap.mpr ⟨_, ihr _ _ _ hfirst, ihs _ _ _ hlater⟩
  | alt r s ihr ihs =>
    rintro p q u ⟨hrest, hbefore, hmatched⟩
    cases hmatched with
    | left hr => exact List.mem_append_left _ (ihr p q u ⟨hrest, hbefore, hr⟩)
    | right hs => exact List.mem_append_right _ (ihs p q u ⟨hrest, hbefore, hs⟩)
  | star r ih =>
    intro p q u h
    refine mem_iterate_of_reaches ih _ p q u ?_ h
    rw [h.rest, List.length_append]
    omega

/-- **Where a match can stop**: what backtracking finds is what the pattern matches. -/
theorem mem_ends_iff {p q : Cursor} : q ∈ ends a r p ↔ ∃ u, Reaches a r p q u :=
  ⟨reaches_of_mem_ends r p q, fun ⟨u, h⟩ => mem_ends_of_reaches r p q u h⟩

theorem ends_ne_nil_iff {before : Option Char} {text : List Char} : ends a r ⟨before, text⟩ ≠ [] ↔
    ∃ u post, text = u ++ post ∧ Match a r (before.any a.isWord) u (post.head?.any a.isWord) := by
  constructor
  · intro hne
    obtain ⟨q, hq⟩ := List.exists_mem_of_ne_nil _ hne
    obtain ⟨u, hrest, -, hmatched⟩ := mem_ends_iff.mp hq
    exact ⟨u, q.rest, hrest, hmatched⟩
  · rintro ⟨u, post, rfl, hmatched⟩
    have hreaches : Reaches a r ⟨before, u ++ post⟩ ⟨u.getLast?.or before, post⟩ u := ⟨rfl, rfl, hmatched⟩
    exact List.ne_nil_of_mem (mem_ends_iff.mpr ⟨u, hreaches⟩)

theorem searchFrom_iff : ∀ {text : List Char} {before : Option Char}, searchFrom a r before text = true ↔
    ∃ pre u post, text = pre ++ u ++ post ∧
      Match a r (wordBefore a (before.any a.isWord) pre) u (post.head?.any a.isWord)
  | [], before => by
    unfold searchFrom
    rw [Bool.not_eq_true', List.isEmpty_eq_false_iff, ends_ne_nil_iff]
    constructor
    · rintro ⟨u, post, htext, hmatched⟩
      exact ⟨[], u, post, htext, hmatched⟩
    · rintro ⟨pre, u, post, htext, hmatched⟩
      obtain ⟨hpre, hpost⟩ := List.append_eq_nil_iff.mp htext.symm
      obtain ⟨rfl, rfl⟩ := List.append_eq_nil_iff.mp hpre
      subst hpost
      exact ⟨[], [], rfl, hmatched⟩
  | c :: cs, before => by
    unfold searchFrom
    rw [Bool.or_eq_true, Bool.not_eq_true', List.isEmpty_eq_false_iff, ends_ne_nil_iff, searchFrom_iff]
    constructor
    · rintro (⟨u, post, htext, hmatched⟩ | ⟨pre, u, post, htext, hmatched⟩)
      · exact ⟨[], u, post, htext, hmatched⟩
      · refine ⟨c :: pre, u, post, by rw [htext]; rfl, ?_⟩
        have happend := @wordBefore_append a [c] pre (before.any a.isWord)
        rw [List.singleton_append] at happend
        rw [happend]
        exact hmatched
    · rintro ⟨pre, u, post, htext, hmatched⟩
      cases pre with
      | nil => exact .inl ⟨u, post, htext, hmatched⟩
      | cons d pre =>
        obtain ⟨rfl, htail⟩ := List.cons.inj htext
        refine .inr ⟨pre, u, post, htail, ?_⟩
        have happend := @wordBefore_append a [c] pre (before.any a.isWord)
        rw [List.singleton_append] at happend
        rw [happend] at hmatched
        exact hmatched

/-- **A text has a match** that the pattern matches between what stands around it. -/
theorem search_iff {text : List Char} : search a r text = true ↔
    ∃ pre u post, text = pre ++ u ++ post ∧ Match a r (wordBefore a false pre) u (wordAfter a post false) := by
  unfold search
  rw [searchFrom_iff]
  refine exists_congr fun pre => exists_congr fun u => exists_congr fun post => and_congr_right fun _ => ?_
  have hafter := any_head (a := a) post []
  rw [List.append_nil] at hafter
  rw [hafter]
  rfl

/-! ## What the syntax says of the matches -/

/-- All items are of a kind. -/
def every (kind : Item → Bool) : Regex → Bool
  | .empty => true
  | .set items => items.all kind
  | .boundary => true
  | .seq r s => every kind r && every kind s
  | .alt r s => every kind r && every kind s
  | .star r => every kind r

/-- Some character of a match comes from an item of a kind. -/
def requires (kind : Item → Bool) : Regex → Bool
  | .empty => false
  | .set items => items.all kind
  | .boundary => false
  | .seq r s => requires kind r || requires kind s
  | .alt r s => requires kind r && requires kind s
  | .star _ => false

/-- The pattern can match without a character. -/
def nullable : Regex → Bool
  | .empty => true
  | .set _ => false
  | .boundary => true
  | .seq r s => nullable r && nullable s
  | .alt r s => nullable r || nullable s
  | .star _ => true

/-- It matches without a character only. -/
def zeroWidth : Regex → Bool
  | .empty => true
  | .set _ => false
  | .boundary => true
  | .seq r s => zeroWidth r && zeroWidth s
  | .alt r s => zeroWidth r && zeroWidth s
  | .star _ => false

/-- The first character comes from an item of a kind. -/
def heads (kind : Item → Bool) : Regex → Bool
  | .empty => true
  | .set items => items.all kind
  | .boundary => true
  | .seq r s => heads kind r && (!nullable r || heads kind s)
  | .alt r s => heads kind r && heads kind s
  | .star r => heads kind r

/-- The last one does. -/
def lasts (kind : Item → Bool) : Regex → Bool
  | .empty => true
  | .set items => items.all kind
  | .boundary => true
  | .seq r s => lasts kind s && (!nullable s || lasts kind r)
  | .alt r s => lasts kind r && lasts kind s
  | .star r => lasts kind r

/-- A match begins at a boundary. -/
def opens : Regex → Bool
  | .boundary => true
  | .seq r s => opens r || (zeroWidth r && opens s)
  | .alt r s => opens r && opens s
  | _ => false

/-- A match ends at a boundary. -/
def closes : Regex → Bool
  | .boundary => true
  | .seq r s => closes s || (zeroWidth s && closes r)
  | .alt r s => closes r && closes s
  | _ => false

section Syntax

variable {kind : Item → Bool} {P : Char → Prop}

theorem holds_of_all (hkind : ∀ item c, kind item = true → item.holds a c = true → P c) {items : List Item} {c : Char}
    (hitems : items.all kind = true) (h : items.any (Item.holds a c) = true) : P c := by
  obtain ⟨item, hmem, hholds⟩ := List.any_eq_true.mp h
  exact hkind item c (List.all_eq_true.mp hitems item hmem) hholds

theorem Match.forall_mem (hkind : ∀ item c, kind item = true → item.holds a c = true → P c)
    (h : Match a r l u n) (hr : r.every kind = true) : ∀ c ∈ u, P c := by
  induction h with
  | empty => exact fun c hc => absurd hc List.not_mem_nil
  | set hholds =>
    intro c hc
    obtain rfl := List.mem_singleton.mp hc
    exact holds_of_all hkind hr hholds
  | boundary => exact fun c hc => absurd hc List.not_mem_nil
  | seq _ _ ih ih' =>
    obtain ⟨hfirst, hlater⟩ := Bool.and_eq_true_iff.mp hr
    exact fun c hc => (List.mem_append.mp hc).elim (ih hfirst c) (ih' hlater c)
  | left _ ih => exact ih (Bool.and_eq_true_iff.mp hr).1
  | right _ ih => exact ih (Bool.and_eq_true_iff.mp hr).2
  | done => exact fun c hc => absurd hc List.not_mem_nil
  | more _ _ _ ih ih' => exact fun c hc => (List.mem_append.mp hc).elim (ih hr c) (ih' hr c)

theorem Match.exists_mem (hkind : ∀ item c, kind item = true → item.holds a c = true → P c)
    (h : Match a r l u n) (hr : r.requires kind = true) : ∃ c ∈ u, P c := by
  induction h with
  | empty => cases hr
  | @set items c _ _ hholds => exact ⟨c, List.mem_singleton.mpr rfl, holds_of_all hkind hr hholds⟩
  | boundary => cases hr
  | seq _ _ ih ih' =>
    rcases Bool.or_eq_true_iff.mp hr with hfirst | hlater
    · obtain ⟨c, hc, hP⟩ := ih hfirst
      exact ⟨c, List.mem_append_left _ hc, hP⟩
    · obtain ⟨c, hc, hP⟩ := ih' hlater
      exact ⟨c, List.mem_append_right _ hc, hP⟩
  | left _ ih => exact ih (Bool.and_eq_true_iff.mp hr).1
  | right _ ih => exact ih (Bool.and_eq_true_iff.mp hr).2
  | done => cases hr
  | more => cases hr

/-- A text without such a character has no match. -/
theorem search_of_requires (hkind : ∀ item c, kind item = true → item.holds a c = true → P c)
    (hr : r.requires kind = true) {text : List Char} (htext : ∀ c ∈ text, ¬P c) : search a r text = false := by
  by_contra h
  obtain ⟨pre, u, post, rfl, hmatched⟩ := search_iff.mp ((Bool.not_eq_false _).mp h)
  obtain ⟨c, hc, hP⟩ := hmatched.exists_mem hkind hr
  exact htext c (List.mem_append_left _ (List.mem_append_right _ hc)) hP

theorem every_mono {kind' : Item → Bool} (h : ∀ item, kind item = true → kind' item = true) :
    ∀ {r : Regex}, r.every kind = true → r.every kind' = true
  | .empty, _ => rfl
  | .set _, hr => List.all_eq_true.mpr fun item hitem => h item (List.all_eq_true.mp hr item hitem)
  | .boundary, _ => rfl
  | .seq _ _, hr =>
    Bool.and_eq_true_iff.mpr ((Bool.and_eq_true_iff.mp hr).imp (every_mono h) (every_mono h))
  | .alt _ _, hr =>
    Bool.and_eq_true_iff.mpr ((Bool.and_eq_true_iff.mp hr).imp (every_mono h) (every_mono h))
  | .star r, hr => every_mono (r := r) h hr

theorem Match.ne_nil (h : Match a r l u n) (hr : r.nullable = false) : u ≠ [] := by
  induction h with
  | empty => cases hr
  | set => exact List.cons_ne_nil _ _
  | boundary => cases hr
  | seq _ _ ih ih' =>
    rcases Bool.and_eq_false_iff.mp hr with hfirst | hlater
    · exact List.append_ne_nil_of_left_ne_nil (ih hfirst) _
    · exact List.append_ne_nil_of_right_ne_nil _ (ih' hlater)
  | left _ ih => exact ih (Bool.or_eq_false_iff.mp hr).1
  | right _ ih => exact ih (Bool.or_eq_false_iff.mp hr).2
  | done => cases hr
  | more => cases hr

theorem Match.eq_nil (h : Match a r l u n) (hr : r.zeroWidth = true) : u = [] := by
  induction h with
  | empty => rfl
  | set => cases hr
  | boundary => rfl
  | seq _ _ ih ih' =>
    obtain ⟨hfirst, hlater⟩ := Bool.and_eq_true_iff.mp hr
    rw [ih hfirst, ih' hlater, List.append_nil]
  | left _ ih => exact ih (Bool.and_eq_true_iff.mp hr).1
  | right _ ih => exact ih (Bool.and_eq_true_iff.mp hr).2
  | done => cases hr
  | more => cases hr

theorem Match.head (hkind : ∀ item c, kind item = true → item.holds a c = true → P c)
    (h : Match a r l u n) (hr : r.heads kind = true) : ∀ c ∈ u.head?, P c := by
  induction h with
  | empty => exact fun c hc => by cases hc
  | set hholds =>
    intro c hc
    obtain rfl := Option.some.inj hc
    exact holds_of_all hkind hr hholds
  | boundary => exact fun c hc => by cases hc
  | @seq _ _ u v _ _ hfirst _ ih ih' =>
    obtain ⟨hhead, hlater⟩ := Bool.and_eq_true_iff.mp hr
    cases u with
    | nil =>
      rcases Bool.or_eq_true_iff.mp hlater with hsome | hlater
      · exact absurd rfl (hfirst.ne_nil (Bool.not_eq_true' _ |>.mp hsome))
      · exact ih' hlater
    | cons d u => exact ih hhead
  | left _ ih => exact ih (Bool.and_eq_true_iff.mp hr).1
  | right _ ih => exact ih (Bool.and_eq_true_iff.mp hr).2
  | done => exact fun c hc => by cases hc
  | @more _ u v _ _ _ hne _ ih _ =>
    cases u with
    | nil => exact absurd rfl hne
    | cons d u => exact ih hr

theorem Match.last (hkind : ∀ item c, kind item = true → item.holds a c = true → P c)
    (h : Match a r l u n) (hr : r.lasts kind = true) : ∀ c ∈ u.getLast?, P c := by
  induction h with
  | empty => exact fun c hc => by cases hc
  | set hholds =>
    intro c hc
    obtain rfl := Option.some.inj hc
    exact holds_of_all hkind hr hholds
  | boundary => exact fun c hc => by cases hc
  | @seq _ _ u v _ _ _ hlater ih ih' =>
    obtain ⟨hlast, hfirst⟩ := Bool.and_eq_true_iff.mp hr
    rw [List.getLast?_append]
    cases hv : v.getLast? with
    | none =>
      rcases Bool.or_eq_true_iff.mp hfirst with hsome | hfirst
      · exact absurd (List.getLast?_eq_none_iff.mp hv) (hlater.ne_nil (Bool.not_eq_true' _ |>.mp hsome))
      · exact ih hfirst
    | some c => exact fun d hd => ih' hlast d (hv.trans hd)
  | left _ ih => exact ih (Bool.and_eq_true_iff.mp hr).1
  | right _ ih => exact ih (Bool.and_eq_true_iff.mp hr).2
  | done => exact fun c hc => by cases hc
  | @more _ u v _ _ _ _ _ ih ih' =>
    rw [List.getLast?_append]
    cases hv : v.getLast? with
    | none => exact ih hr
    | some c => exact fun d hd => ih' hr d (hv.trans hd)

theorem Match.opens (h : Match a r l u n) (hr : r.opens = true) : l ≠ wordAfter a u n := by
  induction h with
  | boundary hne => exact hne
  | @seq _ _ u v _ _ hfirst _ ih ih' =>
    rw [wordAfter_append]
    rcases Bool.or_eq_true_iff.mp hr with hopens | hlater
    · exact ih hopens
    · obtain ⟨hzero, hlater⟩ := Bool.and_eq_true_iff.mp hlater
      obtain rfl := hfirst.eq_nil hzero
      exact ih' hlater
  | left _ ih => exact ih (Bool.and_eq_true_iff.mp hr).1
  | right _ ih => exact ih (Bool.and_eq_true_iff.mp hr).2
  | _ => cases hr

theorem Match.closes (h : Match a r l u n) (hr : r.closes = true) : wordBefore a l u ≠ n := by
  induction h with
  | boundary hne => exact hne
  | @seq _ _ u v _ _ _ hlater ih ih' =>
    rw [wordBefore_append]
    rcases Bool.or_eq_true_iff.mp hr with hcloses | hfirst
    · exact ih' hcloses
    · obtain ⟨hzero, hfirst⟩ := Bool.and_eq_true_iff.mp hfirst
      obtain rfl := hlater.eq_nil hzero
      exact ih hfirst
  | left _ ih => exact ih (Bool.and_eq_true_iff.mp hr).1
  | right _ ih => exact ih (Bool.and_eq_true_iff.mp hr).2
  | _ => cases hr

end Syntax

end Regex

end RevenueOS.Lib
