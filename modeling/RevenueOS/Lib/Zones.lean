import Mathlib.Order.Bounds.Basic
import Mathlib.Order.Interval.Set.Defs
import Mathlib.Data.Int.Order.Basic

/-!
# RevenueOS.Lib.Zones — local times where the offset is piecewise constant

A zone has an offset before its first transition and one from each transition on.  `wall` is the local time of an
instant; `offsetAtWall` is the offset at which a local time is read, which for a local time that occurs twice is that
of the occurrence that `fold` names.  The local times that one transition skips or repeats lie before those of the
next.

* `reading`: a local time occurs once, occurs twice, or is skipped; and what it is read as.
* `Zone.first_read`, `Zone.last_read`: it is read as its first and as its last occurrence.
* `Zone.Resolves.mono`: the later the local time, the later its last occurrence or the end of its gap.
* `Zone.gap_rest`: the local times of a gap have its end in common.
-/

namespace RevenueOS.Lib

section Transitions

/-- The offset at an instant. -/
def offsetFrom (base : ℤ) : List (ℤ × ℤ) → ℤ → ℤ
  | [], _ => base
  | (start, offset) :: rest, u => if u < start then base else offsetFrom offset rest u

/-- The offset at which a local time is read. -/
def offsetAtWallFrom (fold : Bool) (base : ℤ) : List (ℤ × ℤ) → ℤ → ℤ
  | [], _ => base
  | (start, offset) :: rest, w =>
    if w < start + (if fold then min base offset else max base offset) then base
    else offsetAtWallFrom fold offset rest w

/-- The local times that the transitions skip or repeat lie one after the other. -/
def Separated (base : ℤ) : List (ℤ × ℤ) → Prop
  | [] => True
  | [_] => True
  | (start, offset) :: (next, offset') :: rest =>
    start + max base offset ≤ next + min offset offset' ∧ Separated offset ((next, offset') :: rest)

instance decidableSeparated : ∀ (base : ℤ) (transitions : List (ℤ × ℤ)), Decidable (Separated base transitions)
  | _, [] => .isTrue trivial
  | _, [_] => .isTrue trivial
  | base, (start, offset) :: (next, offset') :: rest =>
    have := decidableSeparated offset ((next, offset') :: rest)
    inferInstanceAs (Decidable (start + max base offset ≤ next + min offset offset' ∧
      Separated offset ((next, offset') :: rest)))

variable {base start offset : ℤ} {rest : List (ℤ × ℤ)}

theorem Separated.tail (h : Separated base ((start, offset) :: rest)) : Separated offset rest := by
  cases rest with
  | nil => trivial
  | cons t rest => exact h.2

/-- From a transition on, the local time is past it. -/
theorem le_wall_of_le (h : Separated base ((start, offset) :: rest)) {u : ℤ} (hu : start ≤ u) :
    start + offset ≤ u + offsetFrom offset rest u := by
  induction rest generalizing base start offset with
  | nil => exact Int.add_le_add_right hu offset
  | cons t rest ih =>
    obtain ⟨next, offset'⟩ := t
    rw [offsetFrom]
    split_ifs with hnext
    · exact Int.add_le_add_right hu offset
    · have hpast := ih h.2 (Int.not_lt.mp hnext)
      have hsep := h.1
      omega

/-- Before a transition, those after it do not count. -/
theorem offsetFrom_of_lt (h : Separated base ((start, offset) :: rest)) {u : ℤ} (hu : u < start) :
    offsetFrom offset rest u = offset := by
  cases rest with
  | nil => rfl
  | cons t rest =>
    obtain ⟨next, offset'⟩ := t
    have hsep := h.1
    rw [offsetFrom, if_pos (by omega)]

/-- Local times up to those that the next transition changes have the offset from the transition on. -/
theorem segment_of_lt (h : Separated base ((start, offset) :: rest)) {w : ℤ} (hw : w < start + max base offset) :
    offsetFrom offset rest (w - offset) = offset ∧ ∀ fold, offsetAtWallFrom fold offset rest w = offset := by
  cases rest with
  | nil => exact ⟨rfl, fun _ => rfl⟩
  | cons t rest =>
    obtain ⟨next, offset'⟩ := t
    have hsep := h.1
    refine ⟨by rw [offsetFrom, if_pos (by omega)], fun fold => ?_⟩
    rw [offsetAtWallFrom, if_pos]
    split_ifs <;> omega

/-- From a transition on, its offset is in force, or the local time is past what the transition changes. -/
theorem segment_or_past (h : Separated base ((start, offset) :: rest)) (u : ℤ) :
    offsetFrom offset rest u = offset ∨ start + max base offset ≤ u + offsetFrom offset rest u := by
  cases rest with
  | nil => exact .inl rfl
  | cons t rest =>
    obtain ⟨next, offset'⟩ := t
    have hsep := h.1
    rw [offsetFrom]
    split_ifs with hnext
    · exact .inl rfl
    · have hpast := le_wall_of_le h.2 (Int.not_lt.mp hnext)
      right
      omega

end Transitions

/-- How often a local time occurs, and what it is read as. -/
inductive Reading (wall read read' : ℤ → ℤ) (w : ℤ) : Prop where
  | once (hread : read w = read' w) (hwall : wall (read w) = w) (hbefore : ∀ v < read w, wall v < w)
      (hafter : ∀ v, read w < v → w < wall v) : Reading wall read read' w
  | twice (hlt : read w < read' w) (hfirst : wall (read w) = w) (hlast : wall (read' w) = w)
      (hbefore : ∀ v < read w, wall v < w) (honly : ∀ v, wall v = w → v = read w ∨ v = read' w)
      (hafter : ∀ v, read' w < v → w < wall v) : Reading wall read read' w
  | skipped (gapEnd : ℤ) (hbefore : ∀ v < gapEnd, wall v < w) (hafter : ∀ v, gapEnd ≤ v → w < wall v)
      (hread : gapEnd ≤ read w) : Reading wall read read' w

/-- **Readings**: every local time occurs once or twice or is skipped. -/
theorem reading {base : ℤ} {transitions : List (ℤ × ℤ)} (h : Separated base transitions) (w : ℤ) :
    Reading (fun u => u + offsetFrom base transitions u) (fun w => w - offsetAtWallFrom false base transitions w)
      (fun w => w - offsetAtWallFrom true base transitions w) w := by
  induction transitions generalizing base with
  | nil =>
    refine .once rfl ?_ (fun v hv => ?_) (fun v hv => ?_)
    · exact Int.sub_add_cancel w base
    · exact Int.add_lt_of_lt_sub_right hv
    · exact Int.lt_add_of_sub_right_lt hv
  | cons t rest ih =>
    obtain ⟨start, offset⟩ := t
    have hpast := fun {u : ℤ} => le_wall_of_le h (u := u)
    have hsegment := segment_or_past h
    by_cases hlow : w < start + min base offset
    · -- before the transition
      have hread : ∀ fold, offsetAtWallFrom fold base ((start, offset) :: rest) w = base := by
        intro fold
        rw [offsetAtWallFrom, if_pos]
        split_ifs <;> omega
      refine .once (by rw [hread, hread]) ?_ (fun v hv => ?_) (fun v hv => ?_)
      · rw [hread, offsetFrom, if_pos (by omega)]
        omega
      · rw [hread] at hv
        rw [offsetFrom, if_pos (by omega)]
        omega
      · rw [hread] at hv
        rw [offsetFrom]
        split_ifs with hstart
        · omega
        · have := hpast (Int.not_lt.mp hstart)
          omega
    · by_cases hhigh : w < start + max base offset
      · obtain ⟨hinside, hlate⟩ := segment_of_lt h hhigh
        have hfirst : offsetAtWallFrom false base ((start, offset) :: rest) w = base := by
          rw [offsetAtWallFrom]
          exact if_pos hhigh
        have hlast : offsetAtWallFrom true base ((start, offset) :: rest) w = offset := by
          rw [offsetAtWallFrom, if_neg]
          · exact hlate true
          · exact hlow
        rcases Int.lt_or_le base offset with hgap | hfold
        · -- the clock is put forward past the local time
          refine .skipped start (fun v hv => ?_) (fun v hv => ?_) ?_
          · rw [offsetFrom, if_pos hv]
            omega
          · rw [offsetFrom, if_neg (Int.not_lt.mpr hv)]
            have := hpast hv
            omega
          · rw [hfirst]
            omega
        · -- the clock is put back to before the local time, unless it is not changed
          refine .twice ?_ ?_ ?_ (fun v hv => ?_) (fun v hv => ?_) (fun v hv => ?_)
          · rw [hfirst, hlast]
            omega
          · rw [hfirst, offsetFrom, if_pos (by omega)]
            omega
          · rw [hlast, offsetFrom, if_neg (by omega), hinside]
            omega
          · rw [hfirst] at hv
            rw [offsetFrom, if_pos (by omega)]
            omega
          · rw [hfirst, hlast]
            rw [offsetFrom] at hv
            split_ifs at hv with hstart
            · omega
            · rcases hsegment v with hsame | hlater <;> omega
          · rw [hlast] at hv
            rw [offsetFrom, if_neg (by omega)]
            rcases hsegment v with hsame | hlater <;> omega
      · -- after the transition
        have hread : ∀ fold, offsetAtWallFrom fold base ((start, offset) :: rest) w =
            offsetAtWallFrom fold offset rest w := by
          intro fold
          rw [offsetAtWallFrom, if_neg]
          split_ifs <;> omega
        have hearly : ∀ v < start, v + offsetFrom base ((start, offset) :: rest) v < w := by
          intro v hv
          rw [offsetFrom, if_pos hv]
          omega
        have hlate : ∀ v, w ≤ v + offsetFrom offset rest v →
            offsetFrom base ((start, offset) :: rest) v = offsetFrom offset rest v := by
          intro v hv
          rw [offsetFrom, if_neg]
          intro hstart
          rw [offsetFrom_of_lt h hstart] at hv
          omega
        have hbefore : ∀ v, v + offsetFrom offset rest v < w →
            v + offsetFrom base ((start, offset) :: rest) v < w := by
          intro v hv
          by_cases hstart : v < start
          · exact hearly v hstart
          · rwa [offsetFrom, if_neg hstart]
        rcases ih h.tail with ⟨hsame, hwall, hbefore', hafter⟩ | ⟨hlt, hfirst, hlast, hbefore', honly, hafter⟩ |
          ⟨gapEnd, hbefore', hafter, hskipped⟩
        · refine .once (by rw [hread, hread, hsame]) ?_ (fun v hv => ?_) (fun v hv => ?_)
          · rw [hread, hlate _ (Int.le_of_eq hwall.symm)]
            exact hwall
          · rw [hread] at hv
            exact hbefore v (hbefore' v hv)
          · rw [hread] at hv
            rw [hlate v (Int.le_of_lt (hafter v hv))]
            exact hafter v hv
        · refine .twice (by rw [hread, hread]; exact hlt) ?_ ?_ (fun v hv => ?_) (fun v hv => ?_) (fun v hv => ?_)
          · rw [hread, hlate _ (Int.le_of_eq hfirst.symm)]
            exact hfirst
          · rw [hread, hlate _ (Int.le_of_eq hlast.symm)]
            exact hlast
          · rw [hread] at hv
            exact hbefore v (hbefore' v hv)
          · rw [hread, hread]
            refine honly v ?_
            by_contra hne
            rcases Int.lt_or_gt_of_ne hne with hless | hmore
            · exact Int.ne_of_lt (hbefore v hless) hv
            · rw [hlate v (Int.le_of_lt hmore)] at hv
              exact hne hv
          · rw [hread] at hv
            rw [hlate v (Int.le_of_lt (hafter v hv))]
            exact hafter v hv
        · refine .skipped gapEnd (fun v hv => hbefore v (hbefore' v hv)) (fun v hv => ?_) ?_
          · rw [hlate v (Int.le_of_lt (hafter v hv))]
            exact hafter v hv
          · rw [hread]
            exact hskipped

/-! ## Zones -/

structure Zone where
  base : ℤ
  transitions : List (ℤ × ℤ)
  separated : Separated base transitions

namespace Zone

/-- A zone without transitions. -/
def fixed (base : ℤ) : Zone := ⟨base, [], trivial⟩

variable (z : Zone)

/-- The local time of an instant. -/
def wall (u : ℤ) : ℤ := u + offsetFrom z.base z.transitions u

/-- The offset at which a local time is read. -/
def offsetAtWall (fold : Bool) (w : ℤ) : ℤ := offsetAtWallFrom fold z.base z.transitions w

/-- The instant that a local time is read as. -/
def read (fold : Bool) (w : ℤ) : ℤ := w - z.offsetAtWall fold w

/-- The local time exists. -/
def Occurs (w : ℤ) : Prop := ∃ u, z.wall u = w

/-- The instant that a local time stands for: its last occurrence, or the end of the gap that skips it. -/
structure Resolves (w u : ℤ) : Prop where
  last : z.Occurs w → IsGreatest {v | z.wall v = w} u
  gapEnd : ¬z.Occurs w → IsLeast {v | w < z.wall v} u

variable {z} {w w' u u' t : ℤ}

@[simp] theorem wall_fixed (base u : ℤ) : (fixed base).wall u = u + base := rfl

@[simp] theorem read_fixed (base : ℤ) (fold : Bool) (w : ℤ) : (fixed base).read fold w = w - base := rfl

theorem reading (z : Zone) (w : ℤ) : Reading z.wall (z.read false) (z.read true) w := Lib.reading z.separated w

/-- A local time that exists is read back. -/
theorem wall_read_iff : z.wall (z.read false w) = w ↔ z.Occurs w := by
  refine ⟨fun h => ⟨_, h⟩, ?_⟩
  rintro ⟨v, rfl⟩
  rcases z.reading (z.wall v) with ⟨-, hwall, -, -⟩ | ⟨-, hfirst, -⟩ | ⟨gapEnd, hbefore, hafter, -⟩
  · exact hwall
  · exact hfirst
  · rcases Int.lt_or_le v gapEnd with hv | hv
    · exact absurd (hbefore v hv) (Int.lt_irrefl _)
    · exact absurd (hafter v hv) (Int.lt_irrefl _)

theorem first_read (h : z.Occurs w) : IsLeast {v | z.wall v = w} (z.read false w) := by
  refine ⟨wall_read_iff.mpr h, fun v hv => ?_⟩
  have hv : z.wall v = w := hv
  by_contra hlt
  have hbefore : z.wall v < w := by
    rcases z.reading w with ⟨-, -, hbefore, -⟩ | ⟨-, -, -, hbefore, -⟩ | ⟨gapEnd, -, hafter, hskipped⟩
    · exact hbefore v (Int.not_le.mp hlt)
    · exact hbefore v (Int.not_le.mp hlt)
    · exact absurd (wall_read_iff.mpr h) (Int.ne_of_gt (hafter _ hskipped))
  omega

/-- What comes after the last occurrence is later by the clock too. -/
theorem last_read (h : z.Occurs w) :
    IsGreatest {v | z.wall v = w} (z.read true w) ∧ ∀ v, z.read true w < v → w < z.wall v := by
  have hafter : z.wall (z.read true w) = w ∧ ∀ v, z.read true w < v → w < z.wall v := by
    rcases z.reading w with ⟨hread, hwall, -, hafter⟩ | ⟨-, -, hlast, -, -, hafter⟩ | ⟨gapEnd, -, hafter, hskipped⟩
    · rw [← hread]
      exact ⟨hwall, hafter⟩
    · exact ⟨hlast, hafter⟩
    · exact absurd (wall_read_iff.mpr h) (Int.ne_of_gt (hafter _ hskipped))
  refine ⟨⟨hafter.1, fun v hv => ?_⟩, hafter.2⟩
  have hv : z.wall v = w := hv
  by_contra hlt
  have := hafter.2 v (Int.not_le.mp hlt)
  omega

/-- The two readings differ exactly if their offsets do. -/
theorem read_eq_iff : z.read false w = z.read true w ↔ z.offsetAtWall false w = z.offsetAtWall true w := by
  unfold read
  omega

/-- A gap: instants before its end are before the local time, the others after it. -/
theorem gap (h : ¬z.Occurs w) :
    ∃ t, (∀ v < t, z.wall v < w) ∧ (∀ v, t ≤ v → w < z.wall v) ∧ t ≤ z.read false w := by
  rcases z.reading w with ⟨-, hwall, -⟩ | ⟨-, hfirst, -⟩ | ⟨gapEnd, hbefore, hafter, hskipped⟩
  · exact absurd ⟨_, hwall⟩ h
  · exact absurd ⟨_, hfirst⟩ h
  · exact ⟨gapEnd, hbefore, hafter, hskipped⟩

theorem gapEnd_iff (h : ¬z.Occurs w) :
    IsLeast {v | w < z.wall v} t ↔ (∀ v < t, z.wall v < w) ∧ ∀ v, t ≤ v → w < z.wall v := by
  obtain ⟨t', hbefore, hafter, -⟩ := gap h
  constructor
  · rintro ⟨hpast, hleast⟩
    have heq : t = t' := by
      refine Int.le_antisymm (hleast (hafter t' (Int.le_refl _))) ?_
      by_contra hlt
      have hpast : w < z.wall t := hpast
      have := hbefore t (Int.not_le.mp hlt)
      omega
    subst heq
    exact ⟨hbefore, hafter⟩
  · rintro ⟨hbefore, hafter⟩
    refine ⟨hafter t (Int.le_refl _), fun v hv => ?_⟩
    have hv : w < z.wall v := hv
    by_contra hlt
    have := hbefore v (Int.not_le.mp hlt)
    omega

theorem exists_resolves (z : Zone) (w : ℤ) : ∃ u, z.Resolves w u := by
  by_cases h : z.Occurs w
  · exact ⟨z.read true w, fun _ => (last_read h).1, fun hskipped => absurd h hskipped⟩
  · obtain ⟨t, hbefore, hafter, -⟩ := gap h
    exact ⟨t, fun hoccurs => absurd hoccurs h, fun _ => (gapEnd_iff h).mpr ⟨hbefore, hafter⟩⟩

theorem Resolves.unique (h : z.Resolves w u) (h' : z.Resolves w u') : u = u' := by
  by_cases hw : z.Occurs w
  · exact (h.last hw).unique (h'.last hw)
  · exact (h.gapEnd hw).unique (h'.gapEnd hw)

/-- Later instants are later by the clock. -/
theorem Resolves.lt_wall (h : z.Resolves w u) {v : ℤ} (hv : u < v) : w < z.wall v := by
  by_cases hw : z.Occurs w
  · have heq : u = z.read true w := (h.last hw).unique (last_read hw).1
    exact (last_read hw).2 v (heq ▸ hv)
  · exact ((gapEnd_iff hw).mp (h.gapEnd hw)).2 v (Int.le_of_lt hv)

/-- **The later the local time, the later what it stands for.** -/
theorem Resolves.mono (h : z.Resolves w u) (h' : z.Resolves w' u') (hle : w ≤ w') : u ≤ u' := by
  rcases Int.lt_or_eq_of_le hle with hlt | rfl
  · by_contra hback
    have hpast : w' < z.wall u := h'.lt_wall (Int.not_le.mp hback)
    by_cases hw : z.Occurs w
    · have hu : z.wall u = w := (h.last hw).1
      omega
    · have hearly : z.wall u' < w := ((gapEnd_iff hw).mp (h.gapEnd hw)).1 u' (Int.not_le.mp hback)
      by_cases hw' : z.Occurs w'
      · have hu' : z.wall u' = w' := (h'.last hw').1
        omega
      · have hu' : w' < z.wall u' := (h'.gapEnd hw').1
        omega
  · exact Int.le_of_eq (h.unique h')

/-- After a gap, the clock stays past it. -/
theorem wall_gapEnd_le (h : ¬z.Occurs w) (ht : IsLeast {v | w < z.wall v} t) {v : ℤ} (hv : t ≤ v) :
    z.wall t ≤ z.wall v := by
  obtain ⟨hbefore, hafter⟩ := (gapEnd_iff h).mp ht
  have hpast := hafter t (Int.le_refl _)
  rcases z.reading (z.wall t - 1) with ⟨-, hwall, hbefore', -⟩ | ⟨-, hfirst, -, hbefore', -⟩ |
    ⟨gapEnd, hbefore', hafter', -⟩
  · -- the local time just before the gap's end is skipped, or it is the given one
    rcases Int.lt_trichotomy t (z.read false (z.wall t - 1)) with hlt | heq | hgt
    · have := hbefore' t hlt
      omega
    · rw [← heq] at hwall
      omega
    · have hlate := hafter v hv
      have := hbefore _ hgt
      omega
  · rcases Int.lt_trichotomy t (z.read false (z.wall t - 1)) with hlt | heq | hgt
    · have := hbefore' t hlt
      omega
    · rw [← heq] at hfirst
      omega
    · have := hbefore _ hgt
      omega
  · have hend : gapEnd ≤ t := by
      by_contra hlt
      have := hbefore' t (Int.not_le.mp hlt)
      omega
    have := hafter' v (Int.le_trans hend hv)
    omega

/-- The rest of a gap has the same end. -/
theorem gap_rest (h : ¬z.Occurs w) (ht : IsLeast {v | w < z.wall v} t) (hle : w ≤ w') (hlt : w' < z.wall t) :
    ¬z.Occurs w' ∧ IsLeast {v | w' < z.wall v} t := by
  obtain ⟨hbefore, hafter⟩ := (gapEnd_iff h).mp ht
  have hskipped : ¬z.Occurs w' := by
    rintro ⟨v, rfl⟩
    rcases Int.lt_or_le v t with hv | hv
    · have := hbefore v hv
      omega
    · have := wall_gapEnd_le h ht hv
      omega
  refine ⟨hskipped, (gapEnd_iff hskipped).mpr ⟨fun v hv => ?_, fun v hv => ?_⟩⟩
  · exact Int.lt_of_lt_of_le (hbefore v hv) hle
  · exact Int.lt_of_lt_of_le hlt (wall_gapEnd_le h ht hv)

/-- The first local time after a gap occurs first at its end. -/
theorem read_wall_gapEnd (h : ¬z.Occurs w) (ht : IsLeast {v | w < z.wall v} t) : z.read false (z.wall t) = t := by
  obtain ⟨hbefore, hafter⟩ := (gapEnd_iff h).mp ht
  refine (first_read ⟨t, rfl⟩).unique ⟨rfl, fun v hv => ?_⟩
  have hv : z.wall v = z.wall t := hv
  by_contra hlt
  have hearly := hbefore v (Int.not_le.mp hlt)
  have hpast := hafter t (Int.le_refl _)
  omega

end Zone

end RevenueOS.Lib
