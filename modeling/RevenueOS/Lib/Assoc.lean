import Mathlib.Data.List.Basic

/-!
# RevenueOS.Lib.Assoc — association lists

`List.lookup` against membership, for lists whose keys are distinct and for lists made from a function, and after
maps of the values and filters of the keys.  `assocSet` is an assignment to a key, in insertion order.
-/

namespace RevenueOS.Lib

variable {κ β : Type} [BEq κ] [LawfulBEq κ]

theorem lookup_map_pair [DecidableEq κ] (f : κ → β) (x : κ) : ∀ l : List κ,
    (l.map (fun s => (s, f s))).lookup x = if x ∈ l then some (f x) else none
  | [] => rfl
  | s :: l => by
    rw [List.map_cons, List.lookup_cons]
    by_cases h : x = s
    · subst h
      simp
    · rw [beq_false_of_ne h, lookup_map_pair f x l]
      simp [h]

theorem mem_of_lookup {x : κ} {b : β} : ∀ {l : List (κ × β)},
    l.lookup x = some b → (x, b) ∈ l
  | [], h => by cases h
  | (k, c) :: l, h => by
    rw [List.lookup_cons] at h
    split at h
    · rename_i hk
      rw [beq_iff_eq] at hk
      obtain rfl := Option.some.inj h
      rw [hk]
      exact List.mem_cons_self
    · exact List.mem_cons_of_mem _ (mem_of_lookup h)

theorem lookup_of_mem {x : κ} {b : β} : ∀ {l : List (κ × β)},
    (l.map (·.1)).Nodup → (x, b) ∈ l → l.lookup x = some b
  | [], _, h => by cases h
  | (k, c) :: l, hnd, h => by
    rw [List.map_cons, List.nodup_cons] at hnd
    rw [List.lookup_cons]
    rcases List.mem_cons.mp h with he | hm
    · obtain ⟨rfl, rfl⟩ := Prod.mk.inj he
      simp
    · have hne : x ≠ k := by
        rintro rfl
        exact hnd.1 (List.mem_map.mpr ⟨(x, b), hm, rfl⟩)
      rw [beq_false_of_ne hne]
      exact lookup_of_mem hnd.2 hm

/-- A map of the values, which may look at the key. -/
theorem lookup_map_value (f : κ → β → β) (x : κ) : ∀ l : List (κ × β),
    (l.map (fun kv => (kv.1, f kv.1 kv.2))).lookup x = (l.lookup x).map (f x)
  | [] => rfl
  | (k, b) :: l => by
    rw [List.map_cons, List.lookup_cons, List.lookup_cons]
    by_cases h : x = k
    · subst h
      simp
    · rw [beq_false_of_ne h]
      exact lookup_map_value f x l

/-- A filter of the keys that keeps `x`. -/
theorem lookup_filter_key (p : κ → Bool) {x : κ} (hx : p x = true) : ∀ l : List (κ × β),
    (l.filter (fun kv => p kv.1)).lookup x = l.lookup x
  | [] => rfl
  | (k, b) :: l => by
    rw [List.lookup_cons, List.filter_cons]
    by_cases h : x = k
    · subst h
      simp [hx]
    · rw [beq_false_of_ne h]
      split_ifs
      · rw [List.lookup_cons, beq_false_of_ne h]
        exact lookup_filter_key p hx l
      · exact lookup_filter_key p hx l

theorem lookup_filter_of_not (p : κ → Bool) {x : κ} (hx : p x = false) : ∀ l : List (κ × β),
    (l.filter (fun kv => p kv.1)).lookup x = none
  | [] => rfl
  | (k, b) :: l => by
    rw [List.filter_cons]
    split_ifs with h
    · have hne : x ≠ k := by
        rintro rfl
        rw [hx] at h
        cases h
      rw [List.lookup_cons, beq_false_of_ne hne]
      exact lookup_filter_of_not p hx l
    · exact lookup_filter_of_not p hx l

section Assign

variable [DecidableEq κ]

/-- `d[k] = v`: the value of a key that is there is replaced where it stands. -/
def assocSet : List (κ × β) → κ → β → List (κ × β)
  | [], k, v => [(k, v)]
  | (k', v') :: d, k, v => if k = k' then (k', v) :: d else (k', v') :: assocSet d k v

omit [BEq κ] [LawfulBEq κ] in
theorem mem_keys_assocSet {k x : κ} {v : β} : ∀ {d : List (κ × β)},
    x ∈ (assocSet d k v).map (·.1) ↔ x = k ∨ x ∈ d.map (·.1)
  | [] => by simp [assocSet]
  | (k', v') :: d => by
    rw [assocSet]
    split_ifs with h
    · subst h
      simp
    · rw [List.map_cons, List.mem_cons, mem_keys_assocSet, List.map_cons, List.mem_cons, or_left_comm]

omit [BEq κ] [LawfulBEq κ] in
theorem nodup_assocSet {k : κ} {v : β} : ∀ {d : List (κ × β)}, (d.map (·.1)).Nodup →
    ((assocSet d k v).map (·.1)).Nodup
  | [], _ => by simp [assocSet]
  | (k', v') :: d, hnd => by
    rw [List.map_cons, List.nodup_cons] at hnd
    rw [assocSet]
    split_ifs with h
    · exact List.nodup_cons.mpr hnd
    · rw [List.map_cons, List.nodup_cons, mem_keys_assocSet, not_or]
      exact ⟨⟨Ne.symm h, hnd.1⟩, nodup_assocSet hnd.2⟩

theorem lookup_assocSet (k x : κ) (v : β) : ∀ d : List (κ × β),
    (assocSet d k v).lookup x = if x = k then some v else d.lookup x
  | [] => by
    by_cases h : x = k
    · simp [assocSet, h]
    · rw [assocSet, List.lookup_cons, beq_false_of_ne h, if_neg h]
  | (k', v') :: d => by
    rw [assocSet]
    by_cases hk : k = k'
    · subst hk
      rw [if_pos rfl, List.lookup_cons, List.lookup_cons]
      by_cases h : x = k
      · simp [h]
      · simp [h, beq_false_of_ne h]
    · rw [if_neg hk, List.lookup_cons, List.lookup_cons]
      by_cases h : x = k'
      · subst h
        simp [Ne.symm hk]
      · rw [beq_false_of_ne h]
        exact lookup_assocSet k x v d

/-- After a list of assignments a key has the last value assigned to it. -/
theorem lookup_foldl_assocSet (x : κ) : ∀ (entries d : List (κ × β)),
    (entries.foldl (fun d e => assocSet d e.1 e.2) d).lookup x = (entries.reverse.lookup x).or (d.lookup x)
  | [], _ => rfl
  | (k, v) :: entries, d => by
    rw [List.foldl_cons, lookup_foldl_assocSet x entries, lookup_assocSet, List.reverse_cons, List.lookup_append,
      Option.or_assoc]
    congr 1
    rw [List.lookup_cons]
    by_cases h : x = k
    · simp [h]
    · rw [if_neg h, beq_false_of_ne h]
      rfl

omit [BEq κ] [LawfulBEq κ] in
theorem nodup_foldl_assocSet : ∀ (entries : List (κ × β)) {d : List (κ × β)}, (d.map (·.1)).Nodup →
    ((entries.foldl (fun d e => assocSet d e.1 e.2) d).map (·.1)).Nodup
  | [], _, h => h
  | _ :: entries, _, h => nodup_foldl_assocSet entries (nodup_assocSet h)

end Assign

/-- With distinct keys the entries are what is looked up. -/
theorem forall_mem_iff_lookup {P : κ → β → Prop} {l : List (κ × β)} (h : (l.map (·.1)).Nodup) :
    (∀ e ∈ l, P e.1 e.2) ↔ ∀ k v, l.lookup k = some v → P k v :=
  ⟨fun hall k v hv => hall (k, v) (mem_of_lookup hv), fun hall e he => hall e.1 e.2 (lookup_of_mem h he)⟩

end RevenueOS.Lib
