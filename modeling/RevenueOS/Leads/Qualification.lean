import RevenueOS.Py.Doubles

/-!
# RevenueOS.Leads.Qualification — the score of a lead by a rubric

`score_from_rubric` and `categorize` of `domain/leads/qualification.py`, in exact arithmetic.  A rubric is a list of
criteria; a key may come more than once, and the weights may all be zero.

* `scoreFromRubric_eq`: what is returned, by the criteria that the capture meets.
* `rubric_bounded_monotone`: the score is in range, and more capture does not lower it.
-/

namespace RevenueOS.Leads.Qualification

open RevenueOS.Py

/-! ## Rounding -/

theorem floor_le_nearest (x : ℚ) : ⌊x⌋ ≤ nearest x := by
  unfold nearest
  split_ifs <;> omega

theorem nearest_le_floor_add_one (x : ℚ) : nearest x ≤ ⌊x⌋ + 1 := by
  unfold nearest
  split_ifs <;> omega

/-- Rounding keeps the order. -/
theorem nearest_mono {x y : ℚ} (h : x ≤ y) : nearest x ≤ nearest y := by
  rcases (Int.floor_le_floor h).lt_or_eq with hlt | heq
  · have hx := nearest_le_floor_add_one x
    have hy := floor_le_nearest y
    omega
  · unfold nearest
    rw [← heq]
    have hsub : x - ⌊x⌋ ≤ y - ⌊x⌋ := by linarith
    by_cases hx : x - ⌊x⌋ < 1 / 2
    · rw [if_pos hx]
      split_ifs <;> omega
    · rw [if_neg hx, if_neg (fun hy => hx (lt_of_le_of_lt hsub hy))]
      by_cases hx' : 1 / 2 < x - ⌊x⌋
      · rw [if_pos hx', if_pos (lt_of_lt_of_le hx' hsub)]
      · rw [if_neg hx']
        split_ifs <;> omega

theorem nearest_intCast (n : ℤ) : nearest n = n := nearest_eq (by rw [sub_self, abs_zero]; norm_num)

/-! ## The rubric -/

inductive Category where
  | hot | warm | cold
deriving DecidableEq, Repr

/-- `categorize`. -/
def categorize (score : ℤ) : Except PyError Category :=
  if ¬(0 ≤ score ∧ score ≤ 100) then .error .valueError
  else if 80 ≤ score then .ok .hot
  else if 40 ≤ score then .ok .warm
  else .ok .cold

structure Criterion where
  key : String
  label : String
  weight : ℤ
  required : Bool := false

structure Evidence where
  criterion : String
  value : Json
  source : String
  excerpt : Option String := none
  confidence : ℚ := 1

inductive ReviewState where
  | pending | accepted | edited | rejected | deferred
deriving DecidableEq, Repr

structure QualificationResult where
  score : ℤ
  category : Category
  evidence : List Evidence
  reasons : List String
  missingFields : List String
  qualifiedBy : String := "rule"
  degraded : Bool := false
  reviewState : ReviewState := .pending
  provenance : Dict

/-- `value not in (None, "", [], {})`. -/
def isPresent (value : Json) : Bool :=
  !(value.pyEq .null || value.pyEq (.str "") || value.pyEq (.arr []) || value.pyEq (.obj []))

/-- The capture meets the criterion. -/
def met (capture : Dict) (c : Criterion) : Bool := isPresent (capture.get c.key)

/-- The evidence of a criterion that is met. -/
def captured (capture : Dict) (c : Criterion) : Evidence :=
  { criterion := c.key, value := capture.get c.key, source := "capture" }

/-- What the loop of `score_from_rubric` has gathered. -/
structure Gathered where
  earned : ℤ
  evidence : List Evidence
  missing : List String
  reasons : List String

/-- The body of the loop. -/
def gather (capture : Dict) (g : Gathered) (c : Criterion) : Gathered :=
  if met capture c then
    { g with
      earned := g.earned + c.weight
      evidence := g.evidence ++ [captured capture c]
      reasons := g.reasons ++ [c.label ++ " provided"] }
  else
    { g with
      missing := g.missing ++ [c.key]
      reasons := if c.required then g.reasons ++ [c.label ++ " is required and missing"] else g.reasons }

/-- `sum(c.weight for c in criteria) or 1`. -/
def totalWeight (criteria : List Criterion) : ℤ :=
  let total := (criteria.map Criterion.weight).sum
  if total = 0 then 1 else total

/-- `score_from_rubric`. -/
def scoreFromRubric (criteria : List Criterion) (capture : Dict) : Except PyError QualificationResult := do
  let g := criteria.foldl (gather capture) ⟨0, [], [], []⟩
  let score := nearest ((g.earned : ℚ) * 100 / totalWeight criteria)
  let category ← categorize score
  return {
    score
    category
    evidence := g.evidence
    reasons := g.reasons
    missingFields := g.missing
    provenance := [("method", .str "rubric"), ("criteria_count", .int criteria.length)] }

/-! ## What is gathered -/

/-- The weight of the criteria that are met. -/
def earnedWeight (capture : Dict) (criteria : List Criterion) : ℤ :=
  ((criteria.filter (met capture)).map Criterion.weight).sum

theorem gathered_earned (capture : Dict) (criteria : List Criterion) (g : Gathered) :
    (criteria.foldl (gather capture) g).earned = g.earned + earnedWeight capture criteria := by
  unfold earnedWeight
  induction criteria generalizing g with
  | nil => exact (add_zero _).symm
  | cons c criteria ih =>
    rw [List.foldl_cons, ih]
    unfold gather
    by_cases h : met capture c = true
    · rw [if_pos h, List.filter_cons_of_pos h, List.map_cons, List.sum_cons, add_assoc]
    · rw [if_neg h, List.filter_cons_of_neg h]

theorem gathered_evidence (capture : Dict) (criteria : List Criterion) (g : Gathered) :
    (criteria.foldl (gather capture) g).evidence =
      g.evidence ++ (criteria.filter (met capture)).map (captured capture) := by
  induction criteria generalizing g with
  | nil => exact (List.append_nil _).symm
  | cons c criteria ih =>
    rw [List.foldl_cons, ih]
    unfold gather
    by_cases h : met capture c = true
    · rw [if_pos h, List.filter_cons_of_pos h, List.append_assoc]
      rfl
    · rw [if_neg h, List.filter_cons_of_neg h]

theorem gathered_missing (capture : Dict) (criteria : List Criterion) (g : Gathered) :
    (criteria.foldl (gather capture) g).missing =
      g.missing ++ (criteria.filter fun c => !met capture c).map Criterion.key := by
  induction criteria generalizing g with
  | nil => exact (List.append_nil _).symm
  | cons c criteria ih =>
    rw [List.foldl_cons, ih]
    unfold gather
    by_cases h : met capture c = true
    · rw [if_pos h, List.filter_cons_of_neg (by simp [h])]
    · rw [if_neg h, List.filter_cons_of_pos (by simp [h]), List.append_assoc]
      rfl

/-! ## The score -/

variable {criteria : List Criterion} {capture capture' : Dict}

theorem sum_weights_le (h : ∀ c ∈ criteria, 0 ≤ c.weight) {p q : Criterion → Bool}
    (hpq : ∀ c ∈ criteria, p c = true → q c = true) :
    0 ≤ ((criteria.filter p).map Criterion.weight).sum ∧
      ((criteria.filter p).map Criterion.weight).sum ≤ ((criteria.filter q).map Criterion.weight).sum := by
  induction criteria with
  | nil => exact ⟨le_rfl, le_rfl⟩
  | cons c criteria ih =>
    obtain ⟨hpos, hle⟩ := ih (fun x hx => h x (List.mem_cons_of_mem c hx)) fun x hx =>
      hpq x (List.mem_cons_of_mem c hx)
    have hc := h c List.mem_cons_self
    by_cases hp : p c = true
    · rw [List.filter_cons_of_pos hp, List.filter_cons_of_pos (hpq c List.mem_cons_self hp), List.map_cons,
        List.map_cons,
        List.sum_cons, List.sum_cons]
      omega
    · rw [List.filter_cons_of_neg hp]
      by_cases hq : q c = true
      · rw [List.filter_cons_of_pos hq, List.map_cons, List.sum_cons]
        omega
      · rw [List.filter_cons_of_neg hq]
        exact ⟨hpos, hle⟩

theorem earnedWeight_bounds (h : ∀ c ∈ criteria, 0 ≤ c.weight) :
    0 ≤ earnedWeight capture criteria ∧ earnedWeight capture criteria ≤ (criteria.map Criterion.weight).sum := by
  have hall := sum_weights_le h (p := met capture) (q := fun _ => true) fun _ _ _ => rfl
  rwa [List.filter_eq_self.mpr fun _ _ => rfl] at hall

theorem totalWeight_pos (h : ∀ c ∈ criteria, 0 ≤ c.weight) : 0 < totalWeight criteria := by
  have hbounds := @earnedWeight_bounds _ [] h
  unfold totalWeight
  dsimp only
  split_ifs <;> omega

theorem earnedWeight_le_total (h : ∀ c ∈ criteria, 0 ≤ c.weight) :
    earnedWeight capture criteria ≤ totalWeight criteria := by
  have hbounds := @earnedWeight_bounds _ capture h
  unfold totalWeight
  dsimp only
  split_ifs <;> omega

/-- The score of a capture. -/
def rubricScore (criteria : List Criterion) (capture : Dict) : ℤ :=
  nearest ((earnedWeight capture criteria : ℚ) * 100 / totalWeight criteria)

theorem rubricScore_bounds (h : ∀ c ∈ criteria, 0 ≤ c.weight) :
    0 ≤ rubricScore criteria capture ∧ rubricScore criteria capture ≤ 100 := by
  have hbounds := @earnedWeight_bounds _ capture h
  have hpos : (0 : ℚ) < totalWeight criteria := by exact_mod_cast totalWeight_pos h
  have hle : (earnedWeight capture criteria : ℚ) ≤ totalWeight criteria := by exact_mod_cast earnedWeight_le_total h
  have hnonneg : (0 : ℚ) ≤ earnedWeight capture criteria := by exact_mod_cast hbounds.1
  have hlow : ((0 : ℤ) : ℚ) ≤ (earnedWeight capture criteria : ℚ) * 100 / totalWeight criteria := by
    push_cast
    positivity
  have hhigh : (earnedWeight capture criteria : ℚ) * 100 / totalWeight criteria ≤ ((100 : ℤ) : ℚ) := by
    rw [div_le_iff₀ hpos]
    push_cast
    linarith
  constructor
  · rw [← nearest_intCast 0]
    exact nearest_mono hlow
  · rw [← nearest_intCast 100]
    exact nearest_mono hhigh

/-- More capture keys that are met. -/
theorem rubricScore_mono (h : ∀ c ∈ criteria, 0 ≤ c.weight)
    (hmore : ∀ key, isPresent (capture.get key) = true → isPresent (capture'.get key) = true) :
    rubricScore criteria capture ≤ rubricScore criteria capture' := by
  have hpos : (0 : ℚ) < totalWeight criteria := by exact_mod_cast totalWeight_pos h
  have hearned : earnedWeight capture criteria ≤ earnedWeight capture' criteria :=
    (sum_weights_le h fun c _ hc => hmore c.key hc).2
  have hearned : (earnedWeight capture criteria : ℚ) ≤ earnedWeight capture' criteria := by exact_mod_cast hearned
  refine nearest_mono ?_
  rw [div_le_div_iff_of_pos_right hpos]
  linarith

theorem categorize_ok {score : ℤ} (h : 0 ≤ score ∧ score ≤ 100) : ∃ category, categorize score = .ok category := by
  unfold categorize
  rw [if_neg (not_not.mpr h)]
  split_ifs
  · exact ⟨_, rfl⟩
  · exact ⟨_, rfl⟩
  · exact ⟨_, rfl⟩

/-- What a result says of the criteria: which were met, which were not, and the score. -/
structure Scored (criteria : List Criterion) (capture : Dict) (r : QualificationResult) : Prop where
  score : r.score = rubricScore criteria capture
  category : categorize r.score = .ok r.category
  evidence : r.evidence = (criteria.filter (met capture)).map (captured capture)
  missing : r.missingFields = (criteria.filter fun c => !met capture c).map Criterion.key

/-- With weights that are not negative a result is returned. -/
theorem scoreFromRubric_eq (h : ∀ c ∈ criteria, 0 ≤ c.weight) (capture : Dict) :
    ∃ r, scoreFromRubric criteria capture = .ok r ∧ Scored criteria capture r := by
  have hearned := gathered_earned capture criteria ⟨0, [], [], []⟩
  rw [zero_add] at hearned
  obtain ⟨category, hcategory⟩ := categorize_ok (@rubricScore_bounds _ capture h)
  have hscore : nearest (((criteria.foldl (gather capture) ⟨0, [], [], []⟩).earned : ℚ) * 100 / totalWeight criteria) =
      rubricScore criteria capture := by rw [hearned, rubricScore]
  unfold scoreFromRubric
  simp only [hscore, hcategory]
  exact ⟨_, rfl, ⟨rfl, hcategory, gathered_evidence capture criteria _, gathered_missing capture criteria _⟩⟩

/-- The criteria that are met and those that are missing make up the rubric, and no key is among both. -/
theorem Scored.partition {r : QualificationResult} (h : Scored criteria capture r) :
    (r.evidence.map Evidence.criterion ++ r.missingFields).Perm (criteria.map Criterion.key) ∧
      ∀ key ∈ r.missingFields, key ∉ r.evidence.map Evidence.criterion := by
  have hkeys : r.evidence.map Evidence.criterion = (criteria.filter (met capture)).map Criterion.key := by
    rw [h.evidence, List.map_map]
    rfl
  rw [hkeys, h.missing]
  constructor
  · rw [← List.map_append]
    exact (List.filter_append_perm (met capture) criteria).map Criterion.key
  · intro key hmissing hmet
    obtain ⟨c, hc, rfl⟩ := List.mem_map.mp hmissing
    obtain ⟨c', hc', hkey⟩ := List.mem_map.mp hmet
    have hyes := (List.mem_filter.mp hc').2
    have hno := (List.mem_filter.mp hc).2
    unfold met at hyes hno
    rw [← hkey, hyes] at hno
    cases hno

/-- **A rubric gives every capture a score in range**; met and missing criteria partition the rubric, and more capture
does not lower the score. -/
theorem rubric_bounded_monotone (h : ∀ c ∈ criteria, 0 ≤ c.weight)
    (hmore : ∀ key, isPresent (capture.get key) = true → isPresent (capture'.get key) = true) :
    ∃ r r', scoreFromRubric criteria capture = .ok r ∧ scoreFromRubric criteria capture' = .ok r' ∧
      (0 ≤ r.score ∧ r.score ≤ 100) ∧ r.score ≤ r'.score ∧
      (r.evidence.map Evidence.criterion ++ r.missingFields).Perm (criteria.map Criterion.key) ∧
      ∀ key ∈ r.missingFields, key ∉ r.evidence.map Evidence.criterion := by
  obtain ⟨r, hr, hscored⟩ := scoreFromRubric_eq h capture
  obtain ⟨r', hr', hscored'⟩ := scoreFromRubric_eq h capture'
  refine ⟨r, r', hr, hr', ?_, ?_, hscored.partition⟩
  · rw [hscored.score]
    exact rubricScore_bounds h
  · rw [hscored.score, hscored'.score]
    exact rubricScore_mono h hmore

/-- A rubric with a key that comes twice and a criterion without weight. -/
def clinicRubric : List Criterion :=
  [{ key := "budget", label := "Budget", weight := 3, required := true },
    { key := "area", label := "Area", weight := 4 },
    { key := "budget", label := "Budget again", weight := 1 }, { key := "notes", label := "Notes", weight := 0 }]

theorem rubric_bounded_monotone_clinic : ∃ r r', scoreFromRubric clinicRubric [("budget", .int 0)] = .ok r ∧
    scoreFromRubric clinicRubric [("budget", .int 0), ("area", .str "Indiranagar")] = .ok r' ∧ r.score ≤ r'.score := by
  have hmore : ∀ key, isPresent (Dict.get [("budget", .int 0)] key) = true →
      isPresent (Dict.get [("budget", .int 0), ("area", .str "Indiranagar")] key) = true := by
    intro key h
    by_cases hbudget : key = "budget"
    · rw [hbudget]
      decide +kernel
    · have hnone : Dict.get [("budget", .int 0)] key = .null := by
        unfold Dict.get
        rw [List.lookup_cons, beq_false_of_ne hbudget]
        rfl
      rw [hnone] at h
      exact absurd h (by decide +kernel)
  obtain ⟨r, r', hr, hr', -, hle, -⟩ := rubric_bounded_monotone
    (show ∀ c ∈ clinicRubric, 0 ≤ c.weight by decide) hmore
  exact ⟨r, r', hr, hr', hle⟩

end RevenueOS.Leads.Qualification
