import Mathlib.Data.List.Nodup

/-!
# RevenueOS.Lib.Table — tables with a primary key

A table is a list of rows no two of which have the same key.  `find?` reads a row by its key, `modify` rewrites
the row of a key, `map` all rows, `insert` adds a row whose key is free, `upsert` adds or replaces a row, `append?`
adds several rows or none, `upsertAll` adds or replaces several, `delete` removes the row of a key and `deleteWhere`
all rows of a condition.  `flushed` is one column of a row that is written back.
-/

namespace RevenueOS.Lib

variable {α κ : Type} [DecidableEq κ]

structure Table (key : α → κ) where
  rows : List α
  keys_nodup : (rows.map key).Nodup

namespace Table

variable {key : α → κ}

def empty : Table key := ⟨[], List.nodup_nil⟩

def find? (t : Table key) (k : κ) : Option α := t.rows.find? (fun a => key a = k)

theorem key_of_find? {t : Table key} {k : κ} {a : α} (h : t.find? k = some a) : key a = k := by
  simpa using List.find?_some h

theorem mem_of_find? {t : Table key} {k : κ} {a : α} (h : t.find? k = some a) : a ∈ t.rows :=
  List.mem_of_find?_eq_some h

omit [DecidableEq κ] in
theorem eq_of_key {t : Table key} {a b : α} (ha : a ∈ t.rows) (hb : b ∈ t.rows) (h : key a = key b) : a = b :=
  List.inj_on_of_nodup_map t.keys_nodup ha hb h

theorem find?_of_mem {t : Table key} {a : α} (h : a ∈ t.rows) : t.find? (key a) = some a := by
  cases hfind : t.find? (key a) with
  | none => exact absurd (List.find?_eq_none.mp hfind a h) (by simp)
  | some b => rw [eq_of_key (mem_of_find? hfind) h (key_of_find? hfind)]

/-- A rewrite of the row of `k` that keeps its key. -/
def modifyRow (key : α → κ) (k : κ) (f : α → α) (a : α) : α := if key a = k then f a else a

theorem key_modifyRow {k : κ} {f : α → α} (hf : ∀ a, key a = k → key (f a) = k) (a : α) :
    key (modifyRow key k f a) = key a := by
  unfold modifyRow
  split_ifs with h
  · rw [hf a h, h]
  · rfl

/-- `UPDATE .. WHERE key = k`. -/
def modify (t : Table key) (k : κ) (f : α → α) (hf : ∀ a, key a = k → key (f a) = k) : Table key where
  rows := t.rows.map (modifyRow key k f)
  keys_nodup := by
    have hkeys : (t.rows.map (modifyRow key k f)).map key = t.rows.map key := by
      rw [List.map_map]
      exact List.map_congr_left fun a _ => key_modifyRow hf a
    rw [hkeys]
    exact t.keys_nodup

theorem find?_modify (t : Table key) {k : κ} {f : α → α} (hf : ∀ a, key a = k → key (f a) = k) (k' : κ) :
    (t.modify k f hf).find? k' = (t.find? k').map (modifyRow key k f) := by
  unfold find? modify
  rw [List.find?_map]
  have hfun : (fun a : α => decide (key a = k')) ∘ modifyRow key k f = fun a => decide (key a = k') := by
    funext a
    rw [Function.comp, key_modifyRow hf]
  rw [hfun]

/-- An `UPDATE` of one row keeps a property of all rows exactly if the row it writes has it. -/
theorem forall_modify_iff {t : Table key} {k : κ} {f : α → α} (hf : ∀ a, key a = k → key (f a) = k) {Q : α → Prop}
    (hq : ∀ a ∈ t.rows, Q a) : (∀ b ∈ (t.modify k f hf).rows, Q b) ↔ ∀ a, t.find? k = some a → Q (f a) := by
  constructor
  · intro h a hfind
    have hmodified : (t.modify k f hf).find? k = some (f a) := by
      rw [find?_modify, hfind, Option.map_some, modifyRow, if_pos (key_of_find? hfind)]
    exact h (f a) (mem_of_find? hmodified)
  · intro h b hb
    obtain ⟨a, ha, rfl⟩ := List.mem_map.mp hb
    unfold modifyRow
    split_ifs with hk
    · exact h a (hk ▸ find?_of_mem ha)
    · exact hq a ha

/-- Replaces the row with the key of `a`. -/
def set (t : Table key) (a : α) : Table key := t.modify (key a) (fun _ => a) (fun _ _ => rfl)

theorem rows_set (t : Table key) (a : α) : (t.set a).rows = t.rows.map (fun b => if key b = key a then a else b) :=
  rfl

/-- A row after one of them was replaced. -/
theorem mem_set {t : Table key} {a b : α} (h : b ∈ (t.set a).rows) : b = a ∨ b ∈ t.rows ∧ key b ≠ key a := by
  rw [rows_set] at h
  obtain ⟨c, hc, heq⟩ := List.mem_map.mp h
  split_ifs at heq with hkey
  · exact Or.inl heq.symm
  · exact Or.inr (heq ▸ ⟨hc, hkey⟩)

theorem find?_set_self {t : Table key} {a b : α} (h : t.find? (key a) = some b) :
    (t.set a).find? (key a) = some a := by
  unfold set
  rw [find?_modify, h, Option.map_some, modifyRow, if_pos (key_of_find? h)]

theorem find?_set_of_ne {t : Table key} {a : α} {k : κ} (h : k ≠ key a) : (t.set a).find? k = t.find? k := by
  unfold set
  rw [find?_modify]
  cases hfind : t.find? k with
  | none => rfl
  | some b =>
    rw [Option.map_some, modifyRow, if_neg]
    rw [key_of_find? hfind]
    exact h

/-- An `UPDATE` of all rows that keeps their keys. -/
def map (t : Table key) (f : α → α) (hf : ∀ a, key (f a) = key a) : Table key where
  rows := t.rows.map f
  keys_nodup := by
    have hkeys : (t.rows.map f).map key = t.rows.map key := by
      rw [List.map_map]
      exact List.map_congr_left fun a _ => hf a
    rw [hkeys]
    exact t.keys_nodup

omit [DecidableEq κ] in
theorem map_eq_self_iff {t : Table key} {f : α → α} {hf : ∀ a, key (f a) = key a} :
    t.map f hf = t ↔ ∀ a ∈ t.rows, f a = a := by
  have hrows : t.map f hf = t ↔ t.rows.map f = t.rows := by
    cases t
    simp only [map, mk.injEq]
  rw [hrows]
  nth_rewrite 2 [← List.map_id t.rows]
  exact List.map_inj_left

/-- `INSERT .. ON CONFLICT DO NOTHING`. -/
def insert (t : Table key) (a : α) : Table key where
  rows := if key a ∈ t.rows.map key then t.rows else t.rows ++ [a]
  keys_nodup := by
    split_ifs with h
    · exact t.keys_nodup
    · rw [List.map_append, List.nodup_append]
      refine ⟨t.keys_nodup, List.nodup_singleton _, ?_⟩
      rintro x hx y hy rfl
      exact h (List.mem_singleton.mp hy ▸ hx)

theorem find?_insert_of_some {t : Table key} {a b : α} {k : κ} (h : t.find? k = some b) :
    (t.insert a).find? k = some b := by
  obtain rfl := key_of_find? h
  refine find?_of_mem ?_
  unfold insert
  dsimp only
  split_ifs
  · exact mem_of_find? h
  · exact List.mem_append_left _ (mem_of_find? h)

theorem mem_insert {t : Table key} {a b : α} (h : b ∈ (t.insert a).rows) :
    b ∈ t.rows ∨ (b = a ∧ t.find? (key a) = none) := by
  unfold insert at h
  dsimp only at h
  split_ifs at h with hkey
  · exact Or.inl h
  · rcases List.mem_append.mp h with h | h
    · exact Or.inl h
    · refine Or.inr ⟨List.mem_singleton.mp h, ?_⟩
      cases hfind : t.find? (key a) with
      | none => rfl
      | some c => exact absurd (List.mem_map.mpr ⟨c, mem_of_find? hfind, key_of_find? hfind⟩) hkey

/-- An `INSERT` of several rows; a key that is taken refuses them all. -/
def append? (t : Table key) (as : List α) : Option (Table key) :=
  if h : ((t.rows ++ as).map key).Nodup then some ⟨t.rows ++ as, h⟩ else none

theorem rows_append? {t t' : Table key} {as : List α} (h : t.append? as = some t') : t'.rows = t.rows ++ as := by
  unfold append? at h
  split_ifs at h
  rw [← Option.some.inj h]

/-- The other rows, after one was added. -/
theorem find?_of_rows_concat {t t' : Table key} {a : α} {k : κ} (h : t'.rows = t.rows ++ [a]) (hne : key a ≠ k) :
    t'.find? k = t.find? k := by
  unfold find?
  rw [h, List.find?_append, List.find?_singleton, if_neg (by simpa using hne), Option.or_none]

/-- A taken key refuses the insert. -/
theorem append?_eq_none {t : Table key} {as : List α} {a : α} (ha : a ∈ as) (htaken : key a ∈ t.rows.map key) :
    t.append? as = none := by
  unfold append?
  rw [dif_neg]
  intro hnodup
  rw [List.map_append, List.nodup_append] at hnodup
  exact hnodup.2.2 _ htaken _ (List.mem_map.mpr ⟨a, ha, rfl⟩) rfl

/-- A free key is inserted. -/
theorem exists_append? {t : Table key} {a : α} (h : t.find? (key a) = none) : ∃ t', t.append? [a] = some t' := by
  unfold append?
  rw [dif_pos]
  · exact ⟨_, rfl⟩
  · rw [List.map_append]
    refine List.nodup_append.mpr ⟨t.keys_nodup, List.nodup_singleton _, ?_⟩
    intro k hk k' hk' hsame
    obtain ⟨b, hb, rfl⟩ := List.mem_map.mp hk
    rw [List.mem_singleton.mp hk'] at hsame
    rw [← hsame, find?_of_mem hb] at h
    cases h

/-- The keys of an insert were free. -/
theorem find?_of_append? {t t' : Table key} {as : List α} (h : t.append? as = some t') {a : α} (ha : a ∈ as) :
    t.find? (key a) = none := by
  by_contra hfind
  obtain ⟨b, hb⟩ := Option.ne_none_iff_exists'.mp hfind
  have htaken : key a ∈ t.rows.map key := List.mem_map.mpr ⟨b, mem_of_find? hb, key_of_find? hb⟩
  rw [append?_eq_none ha htaken] at h
  cases h

/-- What is inserted is found. -/
theorem find?_inserted {t t' : Table key} {as : List α} (h : t.append? as = some t') {a : α} (ha : a ∈ as) :
    t'.find? (key a) = some a := by
  have hmem : a ∈ t'.rows := by
    rw [rows_append? h]
    exact List.mem_append_right _ ha
  exact find?_of_mem hmem

/-- An insert leaves the rows that are there. -/
theorem find?_append?_of_some {t t' : Table key} {as : List α} (h : t.append? as = some t') {a : α} {k : κ}
    (hfind : t.find? k = some a) : t'.find? k = some a := by
  have hmem : a ∈ t'.rows := by
    rw [rows_append? h]
    exact List.mem_append_left _ (mem_of_find? hfind)
  rw [← key_of_find? hfind]
  exact find?_of_mem hmem

/-- `DELETE .. WHERE key = k`. -/
def delete (t : Table key) (k : κ) : Table key where
  rows := t.rows.filter fun a => key a ≠ k
  keys_nodup := t.keys_nodup.sublist (List.filter_sublist.map key)

theorem find?_delete_of_ne (t : Table key) {k k' : κ} (h : k' ≠ k) : (t.delete k).find? k' = t.find? k' := by
  unfold find? delete
  rw [List.find?_filter]
  congr 1
  funext a
  by_cases hk : key a = k'
  · simp [hk, h]
  · simp [hk]

/-- `INSERT .. ON CONFLICT DO UPDATE`. -/
def upsert (t : Table key) (a : α) : Table key := (t.insert a).set a

/-- A row after one was inserted or replaced. -/
theorem mem_upsert {t : Table key} {a b : α} (h : b ∈ (t.upsert a).rows) : b = a ∨ b ∈ t.rows := by
  rcases mem_set h with hb | ⟨hb, -⟩
  · exact Or.inl hb
  · rcases mem_insert hb with hb | ⟨hb, -⟩
    · exact Or.inr hb
    · exact Or.inl hb

theorem find?_upsert_self (t : Table key) (a : α) : (t.upsert a).find? (key a) = some a := by
  have hkey : key a ∈ (t.insert a).rows.map key := by
    unfold insert
    dsimp only
    split_ifs with h
    · exact h
    · simp
  obtain ⟨b, hb, hba⟩ := List.mem_map.mp hkey
  have hfind : (t.insert a).find? (key a) = some b := hba ▸ find?_of_mem hb
  exact find?_set_self hfind

theorem find?_upsert_of_ne (t : Table key) {a : α} {k : κ} (h : k ≠ key a) : (t.upsert a).find? k = t.find? k := by
  rw [upsert, find?_set_of_ne h]
  unfold find? insert
  dsimp only
  split_ifs
  · rfl
  · rw [List.find?_append, List.find?_singleton, if_neg (by simpa using Ne.symm h), Option.or_none]

/-- A row whose key is free is added. -/
theorem rows_upsert_of_none {t : Table key} {a : α} (h : t.find? (key a) = none) : (t.upsert a).rows =
    t.rows ++ [a] := by
  have hfree : ∀ b ∈ t.rows, key b ≠ key a := fun b hb => by simpa using List.find?_eq_none.mp h b hb
  have hinsert : (t.insert a).rows = t.rows ++ [a] := by
    refine if_neg fun hmem => ?_
    obtain ⟨b, hb, hkey⟩ := List.mem_map.mp hmem
    exact hfree b hb hkey
  have hrest : t.rows.map (fun b => if key b = key a then a else b) = t.rows :=
    (List.map_congr_left fun b hb => if_neg (hfree b hb)).trans (List.map_id _)
  unfold upsert
  rw [rows_set, hinsert, List.map_append, List.map_singleton, if_pos rfl, hrest]

/-- A row whose key is taken replaces the one that has it. -/
theorem rows_upsert_of_some {t : Table key} {a b : α} (h : t.find? (key a) = some b) :
    ∃ before after, t.rows = before ++ b :: after ∧ (t.upsert a).rows = before ++ a :: after := by
  have hmem : key a ∈ t.rows.map key := List.mem_map.mpr ⟨b, mem_of_find? h, key_of_find? h⟩
  have hinsert : (t.insert a).rows = t.rows := if_pos hmem
  obtain ⟨before, after, hrows⟩ := List.append_of_mem (mem_of_find? h)
  have hkeys := t.keys_nodup
  rw [hrows, List.map_append, List.map_cons, List.nodup_append, List.nodup_cons] at hkeys
  obtain ⟨-, ⟨hafter, -⟩, hapart⟩ := hkeys
  have hkeep : ∀ l : List α, (∀ c ∈ l, key c ≠ key b) → l.map (fun c => if key c = key a then a else c) = l := by
    intro l hl
    refine (List.map_congr_left fun c hc => if_neg ?_).trans (List.map_id _)
    rw [← key_of_find? h]
    exact hl c hc
  refine ⟨before, after, hrows, ?_⟩
  unfold upsert
  rw [rows_set, hinsert, hrows, List.map_append, List.map_cons, if_pos (key_of_find? h),
    hkeep before fun c hc hsame => hapart _ (List.mem_map_of_mem hc) _ List.mem_cons_self hsame,
    hkeep after fun c hc hsame => hafter (hsame ▸ List.mem_map_of_mem hc)]

theorem length_upsert_le (t : Table key) (a : α) : (t.upsert a).rows.length ≤ t.rows.length + 1 := by
  cases hfind : t.find? (key a) with
  | none =>
    have hlength : (t.upsert a).rows.length = t.rows.length + 1 := by
      rw [rows_upsert_of_none hfind, List.length_append, List.length_singleton]
    exact Nat.le_of_eq hlength
  | some b =>
    obtain ⟨before, after, hrows, hupsert⟩ := rows_upsert_of_some hfind
    have hlength : (t.upsert a).rows.length = t.rows.length := by
      rw [hupsert, hrows, List.length_append, List.length_append, List.length_cons, List.length_cons]
    rw [hlength]
    exact Nat.le_succ _

/-- `DELETE .. WHERE p`. -/
def deleteWhere (t : Table key) (p : α → Bool) : Table key where
  rows := t.rows.filter fun a => !p a
  keys_nodup := t.keys_nodup.sublist (List.filter_sublist.map key)

theorem find?_deleteWhere_of_pos {t : Table key} {p : α → Bool} {k : κ} (h : ∀ a, key a = k → p a = true) :
    (t.deleteWhere p).find? k = none := by
  refine List.find?_eq_none.mpr fun a ha hkey => ?_
  have hp := (List.mem_filter.mp ha).2
  rw [h a (of_decide_eq_true hkey)] at hp
  cases hp

theorem find?_deleteWhere_of_neg {t : Table key} {p : α → Bool} {k : κ} (h : ∀ a, key a = k → p a = false) :
    (t.deleteWhere p).find? k = t.find? k := by
  unfold find? deleteWhere
  rw [List.find?_filter]
  congr 1
  funext a
  by_cases hk : key a = k
  · simp [hk, h a hk]
  · simp [hk]

/-- `INSERT .. ON CONFLICT DO UPDATE`, row after row. -/
def upsertAll (t : Table key) (as : List α) : Table key := as.foldl upsert t

theorem find?_upsertAll_of_ne {k : κ} : ∀ {t : Table key} {as : List α}, (∀ a ∈ as, key a ≠ k) →
    (t.upsertAll as).find? k = t.find? k
  | t, [], _ => rfl
  | t, a :: as, h => by
    rw [upsertAll, List.foldl_cons]
    refine (find?_upsertAll_of_ne fun b hb => h b (List.mem_cons_of_mem _ hb)).trans ?_
    exact find?_upsert_of_ne t (h a List.mem_cons_self).symm

/-- If their keys differ, all rows are there. -/
theorem find?_upsertAll_of_mem {a : α} : ∀ {t : Table key} {as : List α}, (as.map key).Nodup → a ∈ as →
    (t.upsertAll as).find? (key a) = some a
  | t, b :: as, hkeys, ha => by
    rw [List.map_cons, List.nodup_cons] at hkeys
    rw [upsertAll, List.foldl_cons]
    rcases List.mem_cons.mp ha with rfl | ha
    · refine (find?_upsertAll_of_ne fun c hc hsame => ?_).trans (find?_upsert_self t a)
      exact hkeys.1 (List.mem_map.mpr ⟨c, hc, hsame⟩)
    · exact find?_upsertAll_of_mem hkeys.2 ha

end Table

/-- A column in the flush: it is written if the session changed the value that it read. -/
def flushed [DecidableEq α] (read new current : α) : α := if new = read then current else new

theorem flushed_eq [DecidableEq α] {read new current : α} (h : read = new → current = new) :
    flushed read new current = new := by
  unfold flushed
  split_ifs with heq
  · exact h heq.symm
  · rfl

theorem flushed_self [DecidableEq α] (read new : α) : flushed read new read = new := flushed_eq fun h => h

end RevenueOS.Lib
