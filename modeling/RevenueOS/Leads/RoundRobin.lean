import RevenueOS.Leads.Assignment
import RevenueOS.Lib.Rotation

/-!
# RevenueOS.Leads.RoundRobin — round robin over a run of leads

`select_assignee` (`domain/leads/assignment.py`) called for one lead after the other, with the cursor it returns put
into the rule as `_assign` (`application/leads/importer.py`) does it.  The rules have ids of their own, as rows of a
table have.

* `route_cases`: what a lead does to a round robin rule.
* `round_robin_fair`: after any number of leads, two targets of the rule have had as many, but for one.
-/

namespace RevenueOS.Leads

open RevenueOS.Py RevenueOS.Lib

/-- A lead that comes in, with the workloads at that time. -/
structure Arrival where
  view : LeadView
  workloads : Option (String → ℤ)

section Run

variable (lower : String → String) (eligible : Option (List String))

/-- The decision on a lead, and the rules with the cursor persisted. -/
def route (rules : List AssignmentRule) (lead : Arrival) : Option Assignment × List AssignmentRule :=
  match selectAssignee lower rules lead.view lead.workloads eligible with
  | none => (none, rules)
  | some decision => (some decision, rules.map (advanceCursor decision))

/-- Whom a rule gave leads to, in their order. -/
def handedBy (ruleId : String) : List AssignmentRule → List Arrival → List String
  | _, [] => []
  | rules, lead :: leads =>
    let (decision, rules') := route lower eligible rules lead
    ((decision.filter fun d => d.ruleId == some ruleId).map Assignment.assigneeId).toList ++
      handedBy ruleId rules' leads

/-- The targets that a rule may choose among. -/
def AssignmentRule.candidates (rule : AssignmentRule) : List String :=
  rule.targets.filter fun t => eligible.all (·.contains t)

variable {lower eligible}

theorem hand_ruleId (rule : AssignmentRule) (workloads : Option (String → ℤ)) (first : String) (rest : List String) :
    (rule.hand workloads first rest).ruleId = nonEmpty rule.id := by
  unfold AssignmentRule.hand
  dsimp only
  split <;> rfl

/-- A round robin rule gives the lead to the target whose turn it is. -/
theorem hand_roundRobin {rule : AssignmentRule} (h : rule.strategy = .roundRobin) (workloads : Option (String → ℤ))
    (first : String) (rest : List String) :
    (rule.hand workloads first rest).assigneeId = turnAt (first :: rest) "" rule.cursor ∧
      (rule.hand workloads first rest).nextCursor = some ((rule.cursor + 1) % (first :: rest).length) := by
  have hlow := Int.emod_nonneg rule.cursor (show ((first :: rest).length : ℤ) ≠ 0 by simp; omega)
  have hhigh := Int.emod_lt_of_pos rule.cursor (show (0 : ℤ) < (first :: rest).length by simp)
  have hindex : (rule.cursor % (first :: rest).length).toNat < (first :: rest).length := by omega
  unfold AssignmentRule.hand turnAt
  rw [h, List.getD_eq_getElem _ "" hindex, ← List.getD_eq_getElem _ first hindex]
  exact ⟨rfl, rfl⟩

/-- A decision comes from a rule that has targets left. -/
theorem exists_rule {rules : List AssignmentRule} {lead : Arrival} {decision : Assignment}
    (h : selectAssignee lower rules lead.view lead.workloads eligible = some decision) :
    ∃ rule ∈ rules, ∃ first rest, rule.candidates eligible = first :: rest ∧
      decision = rule.hand lead.workloads first rest := by
  obtain ⟨rule, hmem, hassigns⟩ := List.exists_of_findSome?_eq_some h
  refine ⟨rule, List.mem_mergeSort.mp hmem, ?_⟩
  unfold AssignmentRule.assigns? at hassigns
  split_ifs at hassigns
  split at hassigns
  · cases hassigns
  · rename_i first rest hcandidates
    exact ⟨first, rest, hcandidates, (Option.some.inj hassigns).symm⟩

theorem advanceCursor_id (decision : Assignment) (rule : AssignmentRule) :
    (advanceCursor decision rule).id = rule.id := by
  unfold advanceCursor
  split
  · split_ifs <;> rfl
  · rfl

theorem route_ids (rules : List AssignmentRule) (lead : Arrival) :
    (route lower eligible rules lead).2.map AssignmentRule.id = rules.map AssignmentRule.id := by
  unfold route
  split
  · rfl
  · rw [List.map_map]
    exact List.map_congr_left fun rule _ => advanceCursor_id _ rule

/-- **What a lead does to a round robin rule**: it goes to the target whose turn it is and moves the cursor, or it
leaves the rule as it was. -/
theorem route_cases {rules : List AssignmentRule} (hids : (rules.map AssignmentRule.id).Nodup) {rule : AssignmentRule}
    (hrule : rule ∈ rules) (hrobin : rule.strategy = .roundRobin) (lead : Arrival) :
    (∃ decision, (route lower eligible rules lead).1 = some decision ∧ decision.ruleId = some rule.id ∧
      decision.assigneeId = turnAt (rule.candidates eligible) "" rule.cursor ∧
      { rule with cursor := (rule.cursor + 1) % (rule.candidates eligible).length } ∈
        (route lower eligible rules lead).2) ∨
    ((∀ decision, (route lower eligible rules lead).1 = some decision → decision.ruleId ≠ some rule.id) ∧
      rule ∈ (route lower eligible rules lead).2) := by
  unfold route
  cases hselect : selectAssignee lower rules lead.view lead.workloads eligible with
  | none => exact .inr ⟨nofun, hrule⟩
  | some decision =>
    by_cases hid : decision.ruleId = some rule.id
    · obtain ⟨other, hother, first, rest, hcandidates, hdecision⟩ := exists_rule hselect
      have hsame : other = rule := by
        refine List.inj_on_of_nodup_map hids hother hrule ?_
        rw [hdecision, hand_ruleId] at hid
        unfold nonEmpty at hid
        split_ifs at hid
        exact Option.some.inj hid
      subst hsame
      obtain ⟨hassignee, hcursor⟩ := hand_roundRobin hrobin lead.workloads first rest
      rw [← hdecision] at hassignee hcursor
      have hadvance : advanceCursor decision other =
          { other with cursor := (other.cursor + 1) % (other.candidates eligible).length } := by
        unfold advanceCursor
        rw [hcursor, hcandidates]
        exact if_pos hid.symm
      exact .inl ⟨decision, rfl, hid, by rw [hassignee, hcandidates], hadvance ▸ List.mem_map_of_mem hother⟩
    · have hadvance : advanceCursor decision rule = rule := by
        unfold advanceCursor
        split
        · exact if_neg fun heq => hid heq.symm
        · rfl
      refine .inr ⟨fun d hd => ?_, ?_⟩
      · rw [← Option.some.inj hd]
        exact hid
      · have hmem := List.mem_map_of_mem (f := advanceCursor decision) hrule
        rwa [hadvance] at hmem

/-- A run of leads gives a round robin rule a number of turns, from its cursor on. -/
theorem handedBy_eq_rotation (leads : List Arrival) : ∀ {rules : List AssignmentRule},
    (rules.map AssignmentRule.id).Nodup → ∀ {rule : AssignmentRule}, rule ∈ rules → rule.strategy = .roundRobin →
      ∃ k, handedBy lower eligible rule.id rules leads = rotation (rule.candidates eligible) "" rule.cursor k := by
  induction leads with
  | nil => exact fun _ _ _ _ => ⟨0, rfl⟩
  | cons lead leads ih =>
    intro rules hids rule hrule hrobin
    have hids' : ((route lower eligible rules lead).2.map AssignmentRule.id).Nodup := by
      rw [route_ids]
      exact hids
    unfold handedBy
    rcases @route_cases lower eligible rules hids rule hrule hrobin lead with
      ⟨decision, hdecision, hid, hassignee, hrule'⟩ | ⟨hother, hrule'⟩
    · obtain ⟨k, hk⟩ := ih hids' hrule' hrobin
      refine ⟨k + 1, ?_⟩
      rw [rotation_succ, ← hassignee]
      dsimp only
      rw [hdecision, Option.filter_some, if_pos (by rw [hid]; exact beq_self_eq_true _)]
      exact congrArg (decision.assigneeId :: ·) hk
    · obtain ⟨k, hk⟩ := ih hids' hrule' hrobin
      refine ⟨k, ?_⟩
      have hnone : (route lower eligible rules lead).1.filter (fun d => d.ruleId == some rule.id) = none := by
        rw [Option.filter_eq_none_iff]
        intro d hd
        simpa using hother d hd
      dsimp only
      rw [hnone]
      exact hk

/-- **Round robin is fair**: after any number of leads, two targets of the rule have had as many, but for one.
Neither caller names an eligible set; one that is named is the same for all leads of the run. -/
theorem round_robin_fair {rules : List AssignmentRule} (hids : (rules.map AssignmentRule.id).Nodup)
    {rule : AssignmentRule} (hrule : rule ∈ rules) (hrobin : rule.strategy = .roundRobin)
    (htargets : rule.targets.Nodup)
    (leads : List Arrival) (n : ℕ) {s t : String} (hs : s ∈ rule.targets) (ht : t ∈ rule.targets)
    (hsEligible : eligible.all (·.contains s) = true) (htEligible : eligible.all (·.contains t) = true) :
    (handedBy lower eligible rule.id rules (leads.take n)).count s ≤
      (handedBy lower eligible rule.id rules (leads.take n)).count t + 1 := by
  obtain ⟨k, hk⟩ := @handedBy_eq_rotation lower eligible (leads.take n) rules hids rule hrule hrobin
  rw [hk]
  exact count_rotation (htargets.filter _) "" rule.cursor k (List.mem_filter.mpr ⟨hs, hsEligible⟩)
    (List.mem_filter.mpr ⟨ht, htEligible⟩)

end Run

/-- Two people take turns, from a cursor past their number. -/
def deskRule : AssignmentRule where
  id := "rule-2"
  name := "Front desk"
  strategy := .roundRobin
  conditions := []
  targets := ["asha", "ravi"]
  position := 1
  isActive := true
  cursor := 7

def newLead : Arrival := ⟨fun _ => .null, none⟩

theorem round_robin_fair_desk : (handedBy Py.lower none "rule-2" [deskRule, companyRule]
      ([newLead, newLead, newLead].take 3)).count "ravi" ≤
    (handedBy Py.lower none "rule-2" [deskRule, companyRule] ([newLead, newLead, newLead].take 3)).count "asha" + 1 :=
  @round_robin_fair Py.lower none [deskRule, companyRule] (by decide) deskRule (by simp) rfl (by decide)
    [newLead, newLead, newLead] 3 "ravi" "asha" (by decide) (by decide) rfl rfl

end RevenueOS.Leads
