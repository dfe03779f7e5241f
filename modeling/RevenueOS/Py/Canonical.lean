import RevenueOS.Py.Doubles

/-!
# RevenueOS.Py.Canonical — the documents of a canonical form

`canonical_json` (`shared/utils/text.py`).  A document comes with what the function assumes of it: its floats are
doubles, and no two keys of a `dict` have one NFC form.

* `endsAt_dumps`: the text of a document ends at a delimiter.
* `canonicalJson_eq_iff`: documents have one canonical form exactly if they are equivalent.
-/

namespace RevenueOS.Py.Json

open RevenueOS.Lib

/-! ## Documents by their parts -/

/-- What holds of the leaves and passes from the parts to the whole holds of every document. -/
@[elab_as_elim]
theorem induct {motive : Json → Prop} (null : motive .null) (bool : ∀ b, motive (.bool b)) (int : ∀ n, motive (.int n))
    (float : ∀ q, motive (.float q)) (str : ∀ s, motive (.str s)) (arr : ∀ xs, (∀ x ∈ xs, motive x) → motive (.arr xs))
    (obj : ∀ d : Dict, (∀ kv ∈ d, motive kv.2) → motive (.obj d)) : ∀ x, motive x
  | .null => null
  | .bool b => bool b
  | .int n => int n
  | .float q => float q
  | .str s => str s
  | .arr xs => arr xs fun x hx =>
    have := List.sizeOf_lt_of_mem hx
    induct null bool int float str arr obj x
  | .obj d => obj d fun kv hkv =>
    have := List.sizeOf_lt_of_mem hkv
    induct null bool int float str arr obj kv.2
termination_by x => sizeOf x
decreasing_by
  · simp only [Json.arr.sizeOf_spec]
    omega
  · obtain ⟨k, v⟩ := kv
    simp only [Json.obj.sizeOf_spec, Prod.mk.sizeOf_spec] at this ⊢
    omega

mutual

/-- `P` holds of the document and of every document in it. -/
def Everywhere (P : Json → Prop) : Json → Prop
  | .arr xs => P (.arr xs) ∧ EverywhereItems P xs
  | .obj d => P (.obj d) ∧ EverywhereEntries P d
  | x => P x

def EverywhereItems (P : Json → Prop) : List Json → Prop
  | [] => True
  | x :: xs => Everywhere P x ∧ EverywhereItems P xs

def EverywhereEntries (P : Json → Prop) : List (String × Json) → Prop
  | [] => True
  | (_, v) :: d => Everywhere P v ∧ EverywhereEntries P d

end

variable {P : Json → Prop}

theorem everywhere_arr {xs : List Json} : Everywhere P (.arr xs) ↔ P (.arr xs) ∧ ∀ x ∈ xs, Everywhere P x := by
  have hitems : EverywhereItems P xs ↔ ∀ x ∈ xs, Everywhere P x := by
    induction xs with
    | nil => simp [EverywhereItems]
    | cons x xs ih => rw [EverywhereItems, ih, List.forall_mem_cons]
  rw [Everywhere, hitems]

theorem everywhere_obj {d : Dict} : Everywhere P (.obj d) ↔ P (.obj d) ∧ ∀ kv ∈ d, Everywhere P kv.2 := by
  have hentries : EverywhereEntries P d ↔ ∀ kv ∈ d, Everywhere P kv.2 := by
    induction d with
    | nil => simp [EverywhereEntries]
    | cons kv d ih => rw [EverywhereEntries, ih, List.forall_mem_cons]
  rw [Everywhere, hentries]

/-! ## The text of a document -/

/-- A delimiter of documents. -/
def IsDelimiter (c : Char) : Prop := c ∈ [',', ']', '\x7d']

instance : DecidablePred IsDelimiter := fun c => inferInstanceAs (Decidable (c ∈ [',', ']', '\x7d']))

theorem isDelimiter_comma : IsDelimiter ',' := by decide

theorem isDelimiter_bracket : IsDelimiter ']' := by decide

theorem isDelimiter_brace : IsDelimiter '\x7d' := by decide

/-- The first character of a text, with `0` for every number. -/
def initial : Json → Char
  | .null => 'n'
  | .bool true => 't'
  | .bool false => 'f'
  | .int _ => '0'
  | .float _ => '0'
  | .str _ => '"'
  | .arr _ => '['
  | .obj _ => '\x7b'

/-- The character with `0` for the first one of a number. -/
def numberAsZero (c : Char) : Char := if c = '-' ∨ c.isDigit = true then '0' else c

/-- Of one kind, where all numbers are of one, and `true` and `false` are not. -/
def SameKind : Json → Json → Prop
  | .null, .null => True
  | .bool b, .bool b' => b = b'
  | .int _, .int _ => True
  | .int _, .float _ => True
  | .float _, .int _ => True
  | .float _, .float _ => True
  | .str _, .str _ => True
  | .arr _, .arr _ => True
  | .obj _, .obj _ => True
  | _, _ => False

theorem sameKind_of_initial {x y : Json} (h : initial x = initial y) : SameKind x y := by
  rcases x with _ | (_ | _) | _ | _ | _ | _ | _ <;> rcases y with _ | (_ | _) | _ | _ | _ | _ | _ <;> first
    | trivial
    | exact absurd h (by simp [initial])

/-- Sorted at every depth, with doubles as floats. -/
def Normal : Json → Prop :=
  Everywhere fun
    | .float q => IsDouble q
    | .obj d => d.Pairwise fun a b => a.1 ≤ b.1
    | _ => True

theorem dumpsList_eq (xs : List Json) : dumpsList xs = xs.map dumps := by
  induction xs with
  | nil => rfl
  | cons x xs ih => rw [dumpsList, ih, List.map_cons]

theorem toList_dumps_arr (xs : List Json) :
    (dumps (.arr xs)).toList = '[' :: separated (fun x => (dumps x).toList) ',' ']' xs := by
  rw [dumps, dumpsList_eq, ← toList_join dumps]
  simp only [String.toList_append]
  rfl

/-- The text of an entry. -/
def entryText (kv : String × Json) : String := quote kv.1 ++ ":" ++ dumps kv.2

theorem toList_dumps_obj {d : Dict} (h : d.Pairwise fun a b => a.1 ≤ b.1) :
    (dumps (.obj d)).toList = '\x7b' :: separated (fun kv => (entryText kv).toList) ',' '\x7d' d := by
  have hsorted : (sortEntries (dumpsEntries d)).map (fun e => quote e.1 ++ ":" ++ e.2) = d.map entryText := by
    rw [dumpsEntries_eq, sortEntries_map, sortEntries, List.Pairwise.insertionSort_eq h, List.map_map]
    rfl
  rw [dumps, hsorted, ← toList_join entryText]
  simp only [String.toList_append]
  rfl

theorem dumps_head (x : Json) : ∃ c rest, (dumps x).toList = c :: rest ∧ numberAsZero c = initial x := by
  cases x with
  | null => exact ⟨'n', _, rfl, rfl⟩
  | bool b =>
    cases b with
    | true => exact ⟨'t', _, rfl, rfl⟩
    | false => exact ⟨'f', _, rfl, rfl⟩
  | int n =>
    obtain ⟨c, rest, htext, hc⟩ := intText_head n
    exact ⟨c, rest, by rw [dumps, htext], if_pos hc⟩
  | float q =>
    obtain ⟨c, rest, htext, hc⟩ := floatRepr_head q
    exact ⟨c, rest, by rw [dumps, htext], if_pos hc⟩
  | str s => exact ⟨'"', _, by rw [dumps, toList_quote], rfl⟩
  | arr xs => exact ⟨'[', _, toList_dumps_arr xs, rfl⟩
  | obj d =>
    obtain ⟨rest, htext⟩ : ∃ rest, (dumps (.obj d)).toList = '\x7b' :: rest := by
      rw [dumps, String.toList_append, String.toList_append]
      exact ⟨_, rfl⟩
    exact ⟨'\x7b', rest, htext, rfl⟩

/-- Texts that begin alike are of one kind. -/
theorem sameKind_of_text {x y : Json} {r s : List Char} (h : (dumps x).toList ++ r = (dumps y).toList ++ s) :
    SameKind x y := by
  obtain ⟨c, rest, hx, hc⟩ := dumps_head x
  obtain ⟨c', rest', hy, hc'⟩ := dumps_head y
  rw [hx, hy] at h
  obtain ⟨rfl, -⟩ := List.cons.inj h
  exact sameKind_of_initial (hc.symm.trans hc')

theorem avoids_dumps : Avoids (fun x => (dumps x).toList) ']' := by
  intro x r s heq
  obtain ⟨c, rest, hx, hc⟩ := dumps_head x
  obtain ⟨rfl, -⟩ := List.cons.inj ((congrArg (· ++ r) hx).symm.trans heq)
  rcases x with _ | (_ | _) | _ | _ | _ | _ | _ <;> exact absurd hc (by simp [initial, numberAsZero])

theorem avoids_entryText : Avoids (fun kv => (entryText kv).toList) '\x7d' := by
  intro kv r s heq
  have hquote : ∃ rest, (entryText kv).toList = '"' :: rest := by
    rw [entryText, String.toList_append, String.toList_append, toList_quote]
    exact ⟨_, rfl⟩
  obtain ⟨rest, htext⟩ := hquote
  have hhead := (List.cons.inj ((congrArg (· ++ r) htext).symm.trans heq)).1
  exact absurd hhead (by decide)

theorem not_isDelimiter {c : Char} (h : IsNumeric c) : ¬IsDelimiter c := by
  intro hc
  have hcases : c = ',' ∨ c = ']' ∨ c = '\x7d' := by simpa [IsDelimiter] using hc
  unfold IsNumeric at h
  rcases hcases with rfl | rfl | rfl
  · exact absurd h (by decide)
  · exact absurd h (by decide)
  · exact absurd h (by decide)

theorem isNumeric_intText {n : ℤ} {c : Char} (h : c ∈ (toString n).toList) : IsNumeric c := by
  rcases mem_intText h with rfl | hc
  · exact .inr (by decide)
  · exact .inl hc

/-- The text of a float is not the text of an integer. -/
theorem floatRepr_ne_intText (q : ℚ) (n : ℤ) : (floatRepr q).toList ≠ (toString n).toList := by
  intro heq
  have hno : ∀ c ∈ (toString n).toList, c ≠ '.' ∧ c ≠ 'e' := by
    intro c hc
    rcases mem_intText hc with rfl | hdigit
    · decide
    · constructor <;> rintro rfl <;> exact absurd hdigit (by decide)
  rcases exists_mark_floatRepr q with h | h
  · exact (hno '.' (heq ▸ h)).1 rfl
  · exact (hno 'e' (heq ▸ h)).2 rfl

theorem endsAt_entryText {kv : String × Json} (h : EndsAt (fun x => (dumps x).toList) IsDelimiter Normal kv.2) :
    EndsAt (fun kv => (entryText kv).toList) IsDelimiter (fun kv => Normal kv.2) kv := by
  obtain ⟨k, v⟩ := kv
  rintro ⟨k', w⟩ r s hw hr hs heq
  simp only [entryText, String.toList_append, List.append_assoc] at heq
  obtain ⟨rfl, hrest⟩ := prefixFree_quote heq
  obtain ⟨rfl, hrs⟩ := h hw hr hs (List.append_cancel_left hrest)
  exact ⟨rfl, hrs⟩

/-- **The text of a document ends at a delimiter**: its kind is known by the first character, numbers have no delimiter
in them, and what stands between brackets ends by induction. -/
theorem endsAt_dumps (x : Json) : Normal x → EndsAt (fun x => (dumps x).toList) IsDelimiter Normal x := by
  induction x using induct with
  | null =>
    rintro - y r s - - - heq
    have hkind := sameKind_of_text heq
    cases y with
    | null => exact ⟨rfl, List.append_cancel_left heq⟩
    | _ => exact False.elim hkind
  | bool b =>
    rintro - y r s - - - heq
    have hkind := sameKind_of_text heq
    cases y with
    | bool b' =>
      obtain rfl : b = b' := hkind
      exact ⟨rfl, List.append_cancel_left heq⟩
    | _ => exact False.elim hkind
  | int n =>
    rintro - y r s - hr hs heq
    have hkind := sameKind_of_text heq
    have hn : ∀ c ∈ (toString n).toList, ¬IsDelimiter c := fun c hc => not_isDelimiter (isNumeric_intText hc)
    cases y with
    | int n' =>
      simp only [dumps] at heq
      obtain ⟨htext, hrs⟩ := eq_of_delimited hn (fun c hc => not_isDelimiter (isNumeric_intText hc)) hr hs heq
      exact ⟨by rw [intText_injective (String.toList_inj.mp htext)], hrs⟩
    | float q =>
      simp only [dumps] at heq
      obtain ⟨htext, -⟩ := eq_of_delimited hn (fun c hc => not_isDelimiter (isNumeric_floatRepr hc)) hr hs heq
      exact absurd htext.symm (floatRepr_ne_intText q n)
    | _ => exact False.elim hkind
  | float q =>
    intro hq y r s hy hr hs heq
    have hkind := sameKind_of_text heq
    have hnumeric : ∀ c ∈ (floatRepr q).toList, ¬IsDelimiter c := fun c hc => not_isDelimiter (isNumeric_floatRepr hc)
    cases y with
    | int n =>
      simp only [dumps] at heq
      obtain ⟨htext, -⟩ := eq_of_delimited hnumeric (fun c hc => not_isDelimiter (isNumeric_intText hc)) hr hs heq
      exact absurd htext (floatRepr_ne_intText q n)
    | float q' =>
      simp only [dumps] at heq
      obtain ⟨htext, hrs⟩ := eq_of_delimited hnumeric (fun c hc => not_isDelimiter (isNumeric_floatRepr hc)) hr hs heq
      exact ⟨by rw [floatRepr_inj hq hy (String.toList_inj.mp htext)], hrs⟩
    | _ => exact False.elim hkind
  | str t =>
    rintro - y r s - - - heq
    have hkind := sameKind_of_text heq
    cases y with
    | str t' =>
      simp only [dumps] at heq
      obtain ⟨rfl, hrs⟩ := prefixFree_quote heq
      exact ⟨rfl, hrs⟩
    | _ => exact False.elim hkind
  | arr xs ih =>
    intro hx y r s hy hr hs heq
    have hkind := sameKind_of_text heq
    cases y with
    | arr ys =>
      obtain ⟨-, hxs⟩ := everywhere_arr.mp hx
      obtain ⟨-, hys⟩ := everywhere_arr.mp hy
      simp only [toList_dumps_arr] at heq
      obtain ⟨rfl, hrs⟩ := EndsAt.separated isDelimiter_comma isDelimiter_bracket (by decide) avoids_dumps
        (fun x hmem => ih x hmem (hxs x hmem)) hys (List.cons.inj heq).2
      exact ⟨rfl, hrs⟩
    | _ => exact False.elim hkind
  | obj d ih =>
    intro hx y r s hy hr hs heq
    have hkind := sameKind_of_text heq
    cases y with
    | obj e =>
      obtain ⟨hd, hentries⟩ := everywhere_obj.mp hx
      obtain ⟨he, hentries'⟩ := everywhere_obj.mp hy
      simp only [toList_dumps_obj hd, toList_dumps_obj he] at heq
      obtain ⟨rfl, hrs⟩ := EndsAt.separated isDelimiter_comma isDelimiter_brace (by decide) avoids_entryText
        (fun kv hmem => endsAt_entryText (ih kv hmem (hentries kv hmem))) hentries' (List.cons.inj heq).2
      exact ⟨rfl, hrs⟩
    | _ => exact False.elim hkind

/-- Sorted documents with one text are one. -/
theorem dumps_inj {x y : Json} (hx : Normal x) (hy : Normal y) (h : dumps x = dumps y) : x = y := by
  have hcomma : Delimited IsDelimiter [','] := ⟨',', [], rfl, isDelimiter_comma⟩
  have heq : (dumps x).toList ++ [','] = (dumps y).toList ++ [','] := by rw [h]
  exact (endsAt_dumps x hx hy hcomma hcomma heq).1

/-! ## Sorted documents -/

mutual

/-- The document with every `dict` sorted. -/
def sorted : Json → Json
  | .arr xs => .arr (sortedItems xs)
  | .obj d => .obj (sortEntries (sortedEntries d))
  | x => x

def sortedItems : List Json → List Json
  | [] => []
  | x :: xs => sorted x :: sortedItems xs

def sortedEntries : List (String × Json) → List (String × Json)
  | [] => []
  | (k, v) :: d => (k, sorted v) :: sortedEntries d

end

theorem sorted_arr (xs : List Json) : sorted (.arr xs) = .arr (xs.map sorted) := by
  have hitems : sortedItems xs = xs.map sorted := by
    induction xs with
    | nil => rfl
    | cons x xs ih => rw [sortedItems, ih, List.map_cons]
  rw [sorted, hitems]

theorem sorted_obj (d : Dict) : sorted (.obj d) = .obj (sortEntries (d.map fun kv => (kv.1, sorted kv.2))) := by
  have hentries : sortedEntries d = d.map fun kv => (kv.1, sorted kv.2) := by
    induction d with
    | nil => rfl
    | cons kv d ih => rw [sortedEntries, ih, List.map_cons]
  rw [sorted, hentries]

/-- `json.dumps` sorts the keys itself. -/
theorem dumps_sorted (x : Json) : dumps (sorted x) = dumps x := by
  induction x using induct with
  | arr xs ih =>
    have hlist : (xs.map sorted).map dumps = xs.map dumps := by
      rw [List.map_map]
      exact List.map_congr_left ih
    rw [sorted_arr, dumps, dumps, dumpsList_eq, dumpsList_eq, hlist]
  | obj d ih =>
    have hentries : (d.map fun kv => (kv.1, sorted kv.2)).map (fun kv => (kv.1, dumps kv.2)) =
        d.map fun kv => (kv.1, dumps kv.2) := by
      rw [List.map_map]
      exact List.map_congr_left fun kv hkv => congrArg (Prod.mk kv.1) (ih kv hkv)
    rw [sorted_obj, dumps, dumps, dumpsEntries_eq, dumpsEntries_eq, sortEntries_map dumps (sortEntries _),
      sortEntries_sortEntries, ← sortEntries_map dumps, hentries]
  | _ => rfl

theorem pairwise_sortEntries {α : Type} (entries : List (String × α)) :
    (sortEntries entries).Pairwise fun a b => a.1 ≤ b.1 := by
  have : Std.Total fun a b : String × α => a.1 ≤ b.1 := ⟨fun a b => le_total a.1 b.1⟩
  have : IsTrans (String × α) fun a b => a.1 ≤ b.1 := ⟨fun a b c => le_trans⟩
  exact List.pairwise_insertionSort _ _

/-- Entries with keys of their own are sorted in one way. -/
theorem sortEntries_eq_iff {α : Type} {d e : List (String × α)} (h : (d.map Prod.fst).Nodup) :
    sortEntries d = sortEntries e ↔ d.Perm e := by
  constructor
  · intro heq
    exact (perm_sortEntries d).symm.trans (heq ▸ perm_sortEntries e)
  · intro hperm
    have hkeys : ∀ a ∈ d, ∀ b ∈ d, a.1 = b.1 → a = b := fun a ha b hb => List.inj_on_of_nodup_map h ha hb
    refine @List.Perm.eq_of_pairwise _ (fun a b => a.1 ≤ b.1) _ _ ?_ (pairwise_sortEntries d) (pairwise_sortEntries e)
      ((perm_sortEntries d).trans (hperm.trans (perm_sortEntries e).symm))
    intro a b ha hb hab hba
    exact hkeys a ((perm_sortEntries d).mem_iff.mp ha) b (hperm.mem_iff.mpr ((perm_sortEntries e).mem_iff.mp hb))
      (le_antisymm hab hba)

/-! ## The canonical document -/

/-- A JSON document: the floats are doubles, and the keys of a `dict` have NFC forms of their own. -/
def WellFormed (nfc : Nfc) : Json → Prop :=
  Everywhere fun
    | .float q => IsDouble q
    | .obj d => (d.map fun kv => nfc.normalize kv.1).Nodup
    | _ => True

variable (nfc : Nfc)

/-- What `canonical_json` writes. -/
def tree (x : Json) : Json := sorted (norm nfc x)

variable {nfc}

theorem canonicalJson_eq (x : Json) : canonicalJson nfc x = dumps (tree nfc x) := (dumps_sorted (norm nfc x)).symm

theorem tree_float (q : ℚ) : tree nfc (.float q) = if q.den = 1 then .int q.num else .float q := by
  rw [tree, norm]
  split_ifs <;> rfl

theorem tree_arr (xs : List Json) : tree nfc (.arr xs) = .arr (xs.map (tree nfc)) := by
  have hlist : normList nfc xs = xs.map (norm nfc) := by
    induction xs with
    | nil => rfl
    | cons x xs ih => rw [normList, ih, List.map_cons]
  rw [tree, norm, hlist, sorted_arr, List.map_map]
  rfl

/-- The entry that `canonical_json` writes. -/
def treeEntry (nfc : Nfc) (kv : String × Json) : String × Json := (nfc.normalize kv.1, tree nfc kv.2)

theorem nodup_treeEntry {d : Dict} (h : (d.map fun kv => nfc.normalize kv.1).Nodup) :
    ((d.map (treeEntry nfc)).map Prod.fst).Nodup := by
  rw [List.map_map]
  exact h

theorem tree_obj {d : Dict} (h : (d.map fun kv => nfc.normalize kv.1).Nodup) :
    tree nfc (.obj d) = .obj (sortEntries (d.map (treeEntry nfc))) := by
  have hperm : (sortEntries (normEntries nfc d)).Perm (d.map fun kv => (kv.1, norm nfc kv.2)) := by
    rw [← normEntries_eq]
    exact perm_sortEntries _
  have hnodup : ((sortEntries (normEntries nfc d)).map fun kv => nfc.normalize kv.1).Nodup := by
    rw [(hperm.map _).nodup_iff, List.map_map]
    exact h
  have hentries : (((sortEntries (normEntries nfc d)).map fun kv => (nfc.normalize kv.1, kv.2)).map
      fun kv => (kv.1, sorted kv.2)).Perm (d.map (treeEntry nfc)) := by
    refine ((hperm.map _).map _).trans ?_
    rw [List.map_map, List.map_map]
    exact List.Perm.refl _
  rw [tree, norm, foldl_assocSet_normalize (d := []) hnodup, List.nil_append, sorted_obj]
  exact congrArg Json.obj ((sortEntries_eq_iff (nodup_treeEntry h)).mpr hentries.symm).symm

theorem normal_tree (x : Json) : WellFormed nfc x → Normal (tree nfc x) := by
  induction x using induct with
  | null => exact id
  | bool b => exact id
  | int n => exact id
  | str s => exact id
  | float q =>
    intro hq
    rw [tree_float]
    split_ifs
    · trivial
    · exact hq
  | arr xs ih =>
    intro h
    rw [tree_arr]
    refine everywhere_arr.mpr ⟨trivial, fun y hy => ?_⟩
    obtain ⟨x, hx, rfl⟩ := List.mem_map.mp hy
    exact ih x hx ((everywhere_arr.mp h).2 x hx)
  | obj d ih =>
    intro h
    obtain ⟨hnodup, hentries⟩ := everywhere_obj.mp h
    rw [tree_obj hnodup]
    refine everywhere_obj.mpr ⟨pairwise_sortEntries _, fun e he => ?_⟩
    obtain ⟨kv, hkv, rfl⟩ := List.mem_map.mp ((perm_sortEntries _).mem_iff.mp he)
    exact ih kv hkv (hentries kv hkv)

/-! ## Equivalent documents -/

mutual

/-- Documents that differ in the order of entries, in their leaves by `leaf` and in their keys by `key`. -/
inductive Alike (leaf : Json → Json → Prop) (key : String → String → Prop) : Json → Json → Prop
  | leaf {x y : Json} : leaf x y → Alike leaf key x y
  | arr {xs ys : List Json} : AlikeItems leaf key xs ys → Alike leaf key (.arr xs) (.arr ys)
  | obj {d e : List (String × Json)} : AlikeEntries leaf key d e → Alike leaf key (.obj d) (.obj e)

inductive AlikeItems (leaf : Json → Json → Prop) (key : String → String → Prop) : List Json → List Json → Prop
  | nil : AlikeItems leaf key [] []
  | cons {x y : Json} {xs ys : List Json} : Alike leaf key x y → AlikeItems leaf key xs ys →
    AlikeItems leaf key (x :: xs) (y :: ys)

inductive AlikeEntries (leaf : Json → Json → Prop) (key : String → String → Prop) :
    List (String × Json) → List (String × Json) → Prop
  | nil : AlikeEntries leaf key [] []
  | cons {k k' : String} {v w : Json} {d e e' : List (String × Json)} : key k k' → Alike leaf key v w →
    AlikeEntries leaf key d (e ++ e') → AlikeEntries leaf key ((k, v) :: d) (e ++ (k', w) :: e')

end

section Alike

variable {leaf leaf' : Json → Json → Prop} {key key' : String → String → Prop} {xs ys : List Json} {d e : Dict}

theorem AlikeItems.imp (h : ∀ x ∈ xs, ∀ y, Alike leaf key x y → Alike leaf' key' x y) :
    AlikeItems leaf key xs ys → AlikeItems leaf' key' xs ys := by
  induction xs generalizing ys with
  | nil =>
    rintro ⟨⟩
    exact .nil
  | cons x xs ih =>
    rintro (_ | ⟨hx, hxs⟩)
    exact .cons (h x List.mem_cons_self _ hx) (ih (fun z hz => h z (List.mem_cons_of_mem x hz)) hxs)

theorem AlikeEntries.imp (hkey : ∀ k k', key k k' → key' k k')
    (h : ∀ kv ∈ d, ∀ y, Alike leaf key kv.2 y → Alike leaf' key' kv.2 y) :
    AlikeEntries leaf key d e → AlikeEntries leaf' key' d e := by
  induction d generalizing e with
  | nil =>
    rintro ⟨⟩
    exact .nil
  | cons kv d ih =>
    rintro (_ | ⟨hk, hv, hd⟩)
    exact .cons (hkey _ _ hk) (h _ List.mem_cons_self _ hv) (ih (fun z hz => h z (List.mem_cons_of_mem _ hz)) hd)

theorem AlikeItems.exists_left (h : AlikeItems leaf key xs ys) {y : Json} (hy : y ∈ ys) :
    ∃ x ∈ xs, Alike leaf key x y := by
  induction xs generalizing ys with
  | nil =>
    cases h
    cases hy
  | cons x xs ih =>
    cases h with
    | cons hx hxs =>
      rcases List.mem_cons.mp hy with rfl | hy
      · exact ⟨x, List.mem_cons_self, hx⟩
      · obtain ⟨x', hmem, halike⟩ := ih hxs hy
        exact ⟨x', List.mem_cons_of_mem x hmem, halike⟩

theorem AlikeEntries.exists_left (h : AlikeEntries leaf key d e) {kv' : String × Json} (hmem : kv' ∈ e) :
    ∃ kv ∈ d, key kv.1 kv'.1 ∧ Alike leaf key kv.2 kv'.2 := by
  induction d generalizing e with
  | nil =>
    cases h
    cases hmem
  | cons kv d ih =>
    cases h with
    | cons hk hv hd =>
      rcases List.mem_cons.mp (List.perm_middle.mem_iff.mp hmem) with rfl | hmem
      · exact ⟨_, List.mem_cons_self, hk, hv⟩
      · obtain ⟨kv₀, hmem₀, halike⟩ := ih hd hmem
        exact ⟨kv₀, List.mem_cons_of_mem _ hmem₀, halike⟩

theorem AlikeEntries.exists_right (h : AlikeEntries leaf key d e) {kv : String × Json} (hmem : kv ∈ d) :
    ∃ kv' ∈ e, key kv.1 kv'.1 ∧ Alike leaf key kv.2 kv'.2 := by
  induction d generalizing e with
  | nil => cases hmem
  | cons kv₀ d ih =>
    cases h with
    | cons hk hv hd =>
      rcases List.mem_cons.mp hmem with rfl | hmem
      · exact ⟨_, List.perm_middle.mem_iff.mpr List.mem_cons_self, hk, hv⟩
      · obtain ⟨kv', hmem', halike⟩ := ih hd hmem
        exact ⟨kv', List.perm_middle.mem_iff.mpr (List.mem_cons_of_mem _ hmem'), halike⟩

theorem AlikeEntries.keys_perm (h : AlikeEntries leaf Eq d e) : (d.map Prod.fst).Perm (e.map Prod.fst) := by
  induction d generalizing e with
  | nil =>
    cases h
    exact List.Perm.refl _
  | cons kv d ih =>
    cases h with
    | @cons k _ v w _ e₁ e₂ hk hv hd =>
      subst hk
      have hmiddle : ((e₁ ++ (k, w) :: e₂).map Prod.fst).Perm (k :: (e₁ ++ e₂).map Prod.fst) :=
        List.perm_middle.map Prod.fst
      exact ((ih hd).cons k).trans hmiddle.symm

/-- Entries that a test of the keys takes out. -/
theorem AlikeEntries.filter (p : String → Bool) (h : AlikeEntries leaf Eq d e) :
    AlikeEntries leaf Eq (d.filter fun kv => p kv.1) (e.filter fun kv => p kv.1) := by
  induction d generalizing e with
  | nil =>
    cases h
    exact .nil
  | cons kv d ih =>
    cases h with
    | @cons k _ v w _ e₁ e₂ hk hv hd =>
      subst hk
      have hrest := ih hd
      rw [List.filter_append] at hrest ⊢
      by_cases hp : p k = true
      · have hkeep : ∀ (v : Json) (l : Dict), ((k, v) :: l).filter (fun kv => p kv.1) =
            (k, v) :: l.filter fun kv => p kv.1 := fun v l => List.filter_cons_of_pos hp
        rw [hkeep, hkeep]
        exact .cons rfl hv hrest
      · have hdrop : ∀ (v : Json) (l : Dict), ((k, v) :: l).filter (fun kv => p kv.1) =
            l.filter fun kv => p kv.1 := fun v l => List.filter_cons_of_neg hp
        rw [hdrop, hdrop]
        exact hrest

end Alike

/-- Leaves that are equal, up to NFC and up to writing an integral float as an integer. -/
inductive SameLeaf (nfc : Nfc) : Json → Json → Prop
  | null : SameLeaf nfc .null .null
  | bool (b : Bool) : SameLeaf nfc (.bool b) (.bool b)
  | int (n : ℤ) : SameLeaf nfc (.int n) (.int n)
  | float (q : ℚ) : SameLeaf nfc (.float q) (.float q)
  | integral (n : ℤ) : SameLeaf nfc (.float n) (.int n)
  | integer (n : ℤ) : SameLeaf nfc (.int n) (.float n)
  | str {s t : String} : nfc.normalize s = nfc.normalize t → SameLeaf nfc (.str s) (.str t)

/-- Equal up to the order of keys, NFC and integral floats, at every depth. -/
def Equivalent (nfc : Nfc) : Json → Json → Prop := Alike (SameLeaf nfc) fun k k' => nfc.normalize k = nfc.normalize k'

theorem tree_integral (n : ℤ) : tree nfc (.float n) = .int n := by
  rw [tree_float, if_pos (Rat.den_intCast n), Rat.num_intCast]

theorem tree_of_sameLeaf {x y : Json} (h : SameLeaf nfc x y) : tree nfc x = tree nfc y := by
  cases h with
  | integral n => exact tree_integral n
  | integer n => exact (tree_integral n).symm
  | str h => exact congrArg Json.str h
  | _ => rfl

theorem sameKind_of_tree {x y : Json} (h : tree nfc x = tree nfc y) : SameKind x y := by
  have hinitial : ∀ z : Json, initial (tree nfc z) = initial z := by
    intro z
    cases z with
    | float q =>
      rw [tree_float]
      split_ifs <;> rfl
    | arr xs => rw [tree_arr, initial, initial]
    | obj d => rw [tree, norm, sorted_obj, initial, initial]
    | _ => rfl
  exact sameKind_of_initial (by rw [← hinitial x, ← hinitial y, h])

/-- The form of a float is an integer only if the float is that integer. -/
theorem eq_of_tree_float {q : ℚ} {n : ℤ} (h : tree nfc (.float q) = .int n) : q = n := by
  rw [tree_float] at h
  split_ifs at h with hden
  obtain rfl := Json.int.inj h
  exact ((Rat.den_eq_one_iff q).mp hden).symm

theorem tree_float_inj {p q : ℚ} (h : tree nfc (.float p) = tree nfc (.float q)) : p = q := by
  rw [tree_float q] at h
  split_ifs at h with hden
  · rw [eq_of_tree_float h, (Rat.den_eq_one_iff q).mp hden]
  · rw [tree_float] at h
    split_ifs at h
    exact Json.float.inj h

section Parts

variable {xs : List Json} {d : Dict}

theorem alikeItems_iff
    (h : ∀ x ∈ xs, ∀ y, WellFormed nfc y → (tree nfc x = tree nfc y ↔ Equivalent nfc x y)) :
    ∀ {ys : List Json}, (∀ y ∈ ys, WellFormed nfc y) → (xs.map (tree nfc) = ys.map (tree nfc) ↔
      AlikeItems (SameLeaf nfc) (fun k k' => nfc.normalize k = nfc.normalize k') xs ys) := by
  induction xs with
  | nil =>
    intro ys _
    cases ys with
    | nil => exact ⟨fun _ => .nil, fun _ => rfl⟩
    | cons y ys => exact ⟨nofun, nofun⟩
  | cons x xs ih =>
    intro ys hys
    cases ys with
    | nil => exact ⟨nofun, nofun⟩
    | cons y ys =>
      have hhead := h x List.mem_cons_self y (hys y List.mem_cons_self)
      have htail := ih (fun z hz => h z (List.mem_cons_of_mem x hz)) fun z hz => hys z (List.mem_cons_of_mem y hz)
      rw [List.map_cons, List.map_cons]
      constructor
      · intro heq
        obtain ⟨hx, hxs⟩ := List.cons.inj heq
        exact .cons (hhead.mp hx) (htail.mp hxs)
      · rintro (_ | ⟨hx, hxs⟩)
        rw [hhead.mpr hx, htail.mpr hxs]

theorem alikeEntries_iff
    (h : ∀ kv ∈ d, ∀ y, WellFormed nfc y → (tree nfc kv.2 = tree nfc y ↔ Equivalent nfc kv.2 y)) :
    ∀ {e : Dict}, (∀ kv ∈ e, WellFormed nfc kv.2) → ((d.map (treeEntry nfc)).Perm (e.map (treeEntry nfc)) ↔
      AlikeEntries (SameLeaf nfc) (fun k k' => nfc.normalize k = nfc.normalize k') d e) := by
  induction d with
  | nil =>
    intro e _
    constructor
    · intro hperm
      obtain rfl := List.map_eq_nil_iff.mp hperm.nil_eq.symm
      exact .nil
    · rintro ⟨⟩
      exact List.Perm.refl _
  | cons kv d ih =>
    intro e he
    obtain ⟨k, v⟩ := kv
    have hrest : ∀ {e₁ e₂ : Dict} {kv' : String × Json}, (∀ kv ∈ e₁ ++ kv' :: e₂, WellFormed nfc kv.2) →
        ((d.map (treeEntry nfc)).Perm ((e₁ ++ e₂).map (treeEntry nfc)) ↔
          AlikeEntries (SameLeaf nfc) (fun k k' => nfc.normalize k = nfc.normalize k') d (e₁ ++ e₂)) := by
      intro e₁ e₂ kv' hwf
      refine ih (fun z hz => h z (List.mem_cons_of_mem _ hz)) fun z hz => hwf z ?_
      exact (List.perm_middle.mem_iff).mpr (List.mem_cons_of_mem _ hz)
    have hmiddle : ∀ (e₁ e₂ : Dict) (kv' : String × Json), ((e₁ ++ kv' :: e₂).map (treeEntry nfc)).Perm
        (treeEntry nfc kv' :: (e₁ ++ e₂).map (treeEntry nfc)) := fun e₁ e₂ kv' => List.perm_middle.map _
    constructor
    · intro hperm
      obtain ⟨⟨k', w⟩, hmem, hentry⟩ := List.mem_map.mp (hperm.mem_iff.mp List.mem_cons_self)
      obtain ⟨hkey, hvalue⟩ := Prod.mk.inj hentry
      obtain ⟨e₁, e₂, rfl⟩ := List.append_of_mem hmem
      have hcons := hperm.trans (hmiddle e₁ e₂ (k', w))
      rw [hentry] at hcons
      exact .cons hkey.symm ((h (k, v) List.mem_cons_self w (he _ hmem)).mp hvalue.symm)
        ((hrest he).mp hcons.cons_inv)
    · intro halike
      cases halike with
      | @cons _ k' _ w _ e₁ e₂ hkey hvalue hentries =>
        have htree := (h (k, v) List.mem_cons_self w (he (k', w) (by simp))).mpr hvalue
        have hentry : treeEntry nfc (k, v) = treeEntry nfc (k', w) := Prod.mk.injEq .. ▸ ⟨hkey, htree⟩
        rw [List.map_cons, hentry]
        exact (((hrest he).mpr hentries).cons _).trans (hmiddle e₁ e₂ (k', w)).symm

end Parts

/-- **Two documents have one form exactly if they are equivalent**, by induction on the first. -/
theorem tree_eq_iff (x : Json) : WellFormed nfc x → ∀ y, WellFormed nfc y →
    (tree nfc x = tree nfc y ↔ Equivalent nfc x y) := by
  induction x using induct with
  | null =>
    intro _ y _
    constructor
    · intro heq
      have hkind := sameKind_of_tree heq
      cases y with
      | null => exact .leaf .null
      | _ => exact False.elim hkind
    · rintro ⟨h⟩
      exact tree_of_sameLeaf h
  | bool b =>
    intro _ y _
    constructor
    · intro heq
      have hkind := sameKind_of_tree heq
      cases y with
      | bool b' =>
        obtain rfl : b = b' := hkind
        exact .leaf (.bool b)
      | _ => exact False.elim hkind
    · rintro ⟨h⟩
      exact tree_of_sameLeaf h
  | int n =>
    intro _ y _
    constructor
    · intro heq
      have hkind := sameKind_of_tree heq
      cases y with
      | int n' =>
        obtain rfl : n = n' := Json.int.inj heq
        exact .leaf (.int n)
      | float q =>
        obtain rfl := eq_of_tree_float heq.symm
        exact .leaf (.integer n)
      | _ => exact False.elim hkind
    · rintro ⟨h⟩
      exact tree_of_sameLeaf h
  | float q =>
    intro _ y _
    constructor
    · intro heq
      have hkind := sameKind_of_tree heq
      cases y with
      | int n =>
        obtain rfl := eq_of_tree_float heq
        exact .leaf (.integral n)
      | float q' =>
        obtain rfl := tree_float_inj heq
        exact .leaf (.float q)
      | _ => exact False.elim hkind
    · rintro ⟨h⟩
      exact tree_of_sameLeaf h
  | str s =>
    intro _ y _
    constructor
    · intro heq
      have hkind := sameKind_of_tree heq
      cases y with
      | str t => exact .leaf (.str (Json.str.inj heq))
      | _ => exact False.elim hkind
    · rintro ⟨h⟩
      exact tree_of_sameLeaf h
  | arr xs ih =>
    intro hx y hy
    have hitems : ∀ x ∈ xs, ∀ y, WellFormed nfc y → (tree nfc x = tree nfc y ↔ Equivalent nfc x y) := fun x hmem =>
      ih x hmem ((everywhere_arr.mp hx).2 x hmem)
    constructor
    · intro heq
      have hkind := sameKind_of_tree heq
      cases y with
      | arr ys =>
        rw [tree_arr, tree_arr] at heq
        exact .arr ((alikeItems_iff hitems (everywhere_arr.mp hy).2).mp (Json.arr.inj heq))
      | _ => exact False.elim hkind
    · intro halike
      cases halike with
      | leaf h => exact tree_of_sameLeaf h
      | arr h => rw [tree_arr, tree_arr, (alikeItems_iff hitems (everywhere_arr.mp hy).2).mpr h]
  | obj d ih =>
    intro hx y hy
    obtain ⟨hd, hentries⟩ := everywhere_obj.mp hx
    have hvalues : ∀ kv ∈ d, ∀ y, WellFormed nfc y → (tree nfc kv.2 = tree nfc y ↔ Equivalent nfc kv.2 y) :=
      fun kv hmem => ih kv hmem (hentries kv hmem)
    constructor
    · intro heq
      have hkind := sameKind_of_tree heq
      cases y with
      | obj e =>
        obtain ⟨he, hentries'⟩ := everywhere_obj.mp hy
        rw [tree_obj hd, tree_obj he] at heq
        exact .obj ((alikeEntries_iff hvalues hentries').mp
          ((sortEntries_eq_iff (nodup_treeEntry hd)).mp (Json.obj.inj heq)))
      | _ => exact False.elim hkind
    · intro halike
      cases halike with
      | leaf h => exact tree_of_sameLeaf h
      | obj h =>
        obtain ⟨he, hentries'⟩ := everywhere_obj.mp hy
        rw [tree_obj hd, tree_obj he]
        exact congrArg Json.obj
          ((sortEntries_eq_iff (nodup_treeEntry hd)).mpr ((alikeEntries_iff hvalues hentries').mpr h))

/-- **Documents have one canonical form exactly if they are equivalent.** -/
theorem canonicalJson_eq_iff {x y : Json} (hx : WellFormed nfc x) (hy : WellFormed nfc y) :
    canonicalJson nfc x = canonicalJson nfc y ↔ Equivalent nfc x y := by
  rw [canonicalJson_eq, canonicalJson_eq, ← tree_eq_iff x hx y hy]
  exact ⟨dumps_inj (normal_tree x hx) (normal_tree y hy), congrArg dumps⟩

end RevenueOS.Py.Json
