import Mathlib.Data.List.Basic

/-!
# RevenueOS.Lib.WriteSet — writes to keyed rows

A write puts a row under its key or removes a key.  The writes of a transaction are applied one after the other.

* `applyAll_filter`: what the writes make of the rows of one part of the keys depends on the writes to that part only.
* `prefix_applyAll`: writes that put rows under new keys only add to the end.
-/

namespace RevenueOS.Lib

inductive Write (α κ : Type) where
  | put (a : α)
  | remove (k : κ)
deriving DecidableEq

namespace Write

variable {α κ : Type} (key : α → κ)

/-- The key that is written. -/
def target : Write α κ → κ
  | put a => key a
  | remove k => k

@[simp] theorem target_put (a : α) : (put a : Write α κ).target key = key a := rfl

@[simp] theorem target_remove (k : κ) : (remove k : Write α κ).target key = k := rfl

theorem mem_keys_filter {key : α → κ} (part : κ → Bool) {rows : List α} {k : κ} (hk : part k = true) :
    k ∈ (rows.filter (fun a => part (key a))).map key ↔ k ∈ rows.map key := by
  constructor
  · intro h
    obtain ⟨a, ha, rfl⟩ := List.mem_map.mp h
    exact List.mem_map_of_mem (List.mem_of_mem_filter ha)
  · intro h
    obtain ⟨a, ha, rfl⟩ := List.mem_map.mp h
    exact List.mem_map_of_mem (List.mem_filter.mpr ⟨ha, hk⟩)

variable [DecidableEq κ]

def apply (rows : List α) : Write α κ → List α
  | put a => if key a ∈ rows.map key then rows.map (fun b => if key b = key a then a else b) else rows ++ [a]
  | remove k => rows.filter (fun b => key b ≠ k)

def applyAll (rows : List α) (ws : List (Write α κ)) : List α := ws.foldl (apply key) rows

@[simp] theorem applyAll_nil (rows : List α) : applyAll key rows [] = rows := rfl

@[simp] theorem applyAll_cons (rows : List α) (w : Write α κ) (ws : List (Write α κ)) :
    applyAll key rows (w :: ws) = applyAll key (apply key rows w) ws := rfl

variable {key}

theorem mem_apply {rows : List α} {w : Write α κ} {a : α} (h : a ∈ apply key rows w) : a ∈ rows ∨ w = put a := by
  cases w with
  | remove k => exact .inl (List.mem_of_mem_filter h)
  | put b =>
    simp only [apply] at h
    split_ifs at h
    · obtain ⟨c, hc, rfl⟩ := List.mem_map.mp h
      split_ifs
      · exact .inr rfl
      · exact .inl hc
    · rcases List.mem_append.mp h with h | h
      · exact .inl h
      · exact .inr (by rw [List.mem_singleton.mp h])

theorem mem_applyAll {ws : List (Write α κ)} : ∀ {rows : List α} {a : α}, a ∈ applyAll key rows ws →
    a ∈ rows ∨ put a ∈ ws := by
  induction ws with
  | nil => exact fun h => .inl h
  | cons w ws ih =>
    intro rows a h
    rcases ih h with h | h
    · rcases mem_apply h with h | rfl
      · exact .inl h
      · exact .inr (by simp)
    · exact .inr (List.mem_cons_of_mem w h)

/-! ## One part of the keys -/

section Part

variable (part : κ → Bool)

/-- Replacing a row by one of the same key does not move it to another part. -/
theorem filter_replace (rows : List α) (a : α) :
    (rows.map (fun b => if key b = key a then a else b)).filter (fun b => part (key b)) =
      (rows.filter (fun b => part (key b))).map (fun b => if key b = key a then a else b) := by
  rw [List.filter_map]
  congr 1
  apply List.filter_congr
  intro b _
  show part (key (if key b = key a then a else b)) = part (key b)
  split_ifs with h
  · rw [h]
  · rfl

theorem apply_filter_of_pos {rows : List α} {w : Write α κ} (hw : part (w.target key) = true) :
    (apply key rows w).filter (fun a => part (key a)) = apply key (rows.filter (fun a => part (key a))) w := by
  cases w with
  | remove k =>
    show (rows.filter _).filter _ = (rows.filter _).filter _
    rw [List.filter_filter, List.filter_filter]
    exact List.filter_congr fun b _ => Bool.and_comm _ _
  | put a =>
    simp only [apply, mem_keys_filter part (show part (key a) = true from hw)]
    split_ifs with h
    · exact filter_replace part rows a
    · rw [List.filter_append, List.filter_singleton]
      have ha : part (key a) = true := hw
      simp [ha]

theorem apply_filter_of_neg {rows : List α} {w : Write α κ} (hw : part (w.target key) = false) :
    (apply key rows w).filter (fun a => part (key a)) = rows.filter (fun a => part (key a)) := by
  cases w with
  | remove k =>
    have hk : part k = false := hw
    show (rows.filter _).filter _ = rows.filter _
    rw [List.filter_filter]
    apply List.filter_congr
    intro b _
    by_cases hb : key b = k
    · simp [hb, hk]
    · simp [hb]
  | put a =>
    have ha : part (key a) = false := hw
    simp only [apply]
    split_ifs with h
    · rw [filter_replace]
      conv_rhs => rw [← List.map_id (rows.filter _)]
      apply List.map_congr_left
      intro b hb
      have hpart := (List.mem_filter.mp hb).2
      have hne : key b ≠ key a := by
        intro h
        rw [h, ha] at hpart
        exact Bool.false_ne_true hpart
      simp [hne]
    · simp [List.filter_append, ha]

theorem applyAll_filter (ws : List (Write α κ)) : ∀ rows : List α,
    (applyAll key rows ws).filter (fun a => part (key a)) =
      applyAll key (rows.filter (fun a => part (key a))) (ws.filter (fun w => part (w.target key))) := by
  induction ws with
  | nil => intro rows; rfl
  | cons w ws ih =>
    intro rows
    rw [applyAll_cons, ih]
    by_cases hw : part (w.target key) = true
    · rw [List.filter_cons_of_pos (by simpa using hw), applyAll_cons, apply_filter_of_pos part hw]
    · rw [List.filter_cons_of_neg (by simpa using hw), apply_filter_of_neg part (by simpa using hw)]

end Part

/-! ## Additions only -/

/-- The writes put rows under keys that are neither those of the rows nor of one another. -/
def Fresh (key : α → κ) (rows : List α) (ws : List (Write α κ)) : Prop :=
  ∃ as : List α, ws = as.map put ∧ (as.map key).Nodup ∧ ∀ a ∈ as, key a ∉ rows.map key

theorem applyAll_of_fresh : ∀ {as : List α} {rows : List α}, (as.map key).Nodup →
    (∀ a ∈ as, key a ∉ rows.map key) → applyAll key rows (as.map put) = rows ++ as
  | [], rows, _, _ => (List.append_nil rows).symm
  | a :: as, rows, hnd, hnew => by
    have ha : key a ∉ rows.map key := hnew a List.mem_cons_self
    obtain ⟨hhead, htail⟩ := List.nodup_cons.mp hnd
    rw [List.map_cons, applyAll_cons]
    have happly : apply key rows (put a) = rows ++ [a] := if_neg ha
    rw [happly, applyAll_of_fresh htail, List.append_assoc]
    · rfl
    · intro b hb
      rw [List.map_append, List.mem_append]
      rintro (h | h)
      · exact hnew b (List.mem_cons_of_mem a hb) h
      · have hk : key b = key a := by simpa using h
        exact hhead (hk ▸ List.mem_map_of_mem hb)

theorem prefix_applyAll {rows : List α} {ws : List (Write α κ)} (h : Fresh key rows ws) :
    rows <+: applyAll key rows ws := by
  obtain ⟨as, rfl, hnd, hnew⟩ := h
  rw [applyAll_of_fresh hnd hnew]
  exact List.prefix_append rows as

omit [DecidableEq κ] in
theorem Fresh.nil (rows : List α) : Fresh key rows [] := ⟨[], rfl, List.nodup_nil, by simp⟩

theorem Fresh.concat {rows : List α} {ws : List (Write α κ)} (h : Fresh key rows ws) {a : α}
    (ha : key a ∉ (applyAll key rows ws).map key) : Fresh key rows (ws ++ [put a]) := by
  obtain ⟨as, rfl, hnd, hnew⟩ := h
  rw [applyAll_of_fresh hnd hnew, List.map_append, List.mem_append, not_or] at ha
  refine ⟨as ++ [a], by rw [List.map_append]; rfl, ?_, ?_⟩
  · rw [List.map_append]
    refine List.nodup_append.mpr ⟨hnd, by simp, fun k hk l hl h => ?_⟩
    obtain rfl := List.mem_singleton.mp hl
    exact ha.2 (h ▸ hk)
  · intro b hb
    rcases List.mem_append.mp hb with hb | hb
    · exact hnew b hb
    · rw [List.mem_singleton.mp hb]
      exact ha.1

/-- Additions that do not touch one another's keys can come in either order. -/
theorem Fresh.applyAll {rows : List α} {ws vs : List (Write α κ)} (hw : Fresh key rows ws) (hv : Fresh key rows vs)
    (hne : ∀ w ∈ ws, ∀ v ∈ vs, w.target key ≠ v.target key) : Fresh key (applyAll key rows ws) vs := by
  obtain ⟨as, rfl, hnd, hnew⟩ := hw
  obtain ⟨bs, rfl, hnd', hnew'⟩ := hv
  refine ⟨bs, rfl, hnd', fun b hb => ?_⟩
  rw [applyAll_of_fresh hnd hnew, List.map_append, List.mem_append, not_or]
  refine ⟨hnew' b hb, fun h => ?_⟩
  obtain ⟨a, ha, hab⟩ := List.mem_map.mp h
  exact hne (put a) (List.mem_map_of_mem ha) (put b) (List.mem_map_of_mem hb) hab

end Write

end RevenueOS.Lib
