import RevenueOS.Leads.Importer
import RevenueOS.Leads.Formulas
import RevenueOS.Lib.Trace

/-!
# RevenueOS.Leads.Assignment — assignment rules, applied to a lead and during an import

`domain/leads/assignment.py`, `apply_rules` (`application/leads/assignment_rules.py`) and `_assign`
(`application/leads/importer.py`).  A stored rule went through `validate_rule`, so its clauses have a field, an
operator and a strategy of the tables; a view says what `lead.get(field)` returns.

The two callers build the view from different places: `apply_rules` from the columns and the capture of the lead,
`_assign` from the values of the row, which have no city, no company, no status, and no channel when the file has none.

* `selectAssignee_eq`: the first rule that applies decides.
* `view_lead`, `views_agree_iff`: what the lead of a row is read as, and in which fields this agrees with the values of
  the row, from the cells of the file.
* `assign_agrees_iff`, `import_agrees_iff`: when the two callers choose the same person, for a row and for an import.
-/

namespace RevenueOS.Leads

open RevenueOS.Py RevenueOS.Lib RevenueOS.Workflows

/-! ## Rules -/

/-- `CONDITION_FIELDS`. -/
inductive ConditionField where
  | source | sourceChannel | city | company | category | qualificationScore | status
deriving DecidableEq, Repr

def ConditionField.name : ConditionField → String
  | source => "source"
  | sourceChannel => "source_channel"
  | city => "city"
  | company => "company"
  | category => "category"
  | qualificationScore => "qualification_score"
  | status => "status"

/-- `OPERATORS`. -/
inductive Operator where
  | equals | notEquals | contains | startsWith | within | isSet | isNotSet
deriving DecidableEq, Repr

/-- `STRATEGIES`. -/
inductive Strategy where
  | roundRobin | firstAvailable | loadBalanced
deriving DecidableEq, Repr

structure Clause where
  field : ConditionField
  operator : Operator
  value : Json

/-- A row of `assignment_rules`, as the callers hand it to `select_assignee`. -/
structure AssignmentRule where
  id : String
  name : String
  strategy : Strategy
  conditions : List Clause
  targets : List String
  position : ℤ
  isActive : Bool
  cursor : ℤ

/-- `lead.get(field)`. -/
abbrev LeadView := ConditionField → Json

/-- `x in (None, "")`. -/
def isBlank (x : Json) : Bool := x.pyEq .null || x.pyEq (.str "")

section Lower

variable (lower : String → String)

/-- `str(x).strip().lower()`. -/
def folded (x : Json) : String := lower (strip x.text)

/-- Numbers compare as numbers, everything else without regard to case. -/
def sameValue (actual expected : Json) : Bool :=
  match actual.num?, expected.num? with
  | some p, some q => p == q
  | _, _ => folded lower actual == folded lower expected

/-- `_clause_matches`. -/
def clauseMatches (clause : Clause) (view : LeadView) : Bool :=
  let actual := view clause.field
  match clause.operator with
  | .isSet => !isBlank actual
  | .isNotSet => isBlank actual
  | operator =>
    if actual.pyEq .null then false
    else
      match operator with
      | .equals => sameValue lower actual clause.value
      | .notEquals => !sameValue lower actual clause.value
      | .contains => Py.contains (lower actual.text) (folded lower clause.value)
      | .startsWith => Py.startsWith (lower actual.text) (folded lower clause.value)
      | .within =>
        ((clause.value.list?.getD [clause.value]).map (folded lower)).contains (folded lower actual)
      | _ => false

/-- `rule_matches`. -/
def ruleMatches (rule : AssignmentRule) (view : LeadView) : Bool :=
  rule.conditions.all fun clause => clauseMatches lower clause view

structure Assignment where
  assigneeId : String
  ruleId : Option String
  ruleName : Option String
  strategy : Strategy
  nextCursor : Option ℤ

/-- `min(targets, key=..)`: the first of the least loaded. -/
def leastLoaded (workload : String → ℤ) : String → List String → String
  | best, [] => best
  | best, t :: targets => leastLoaded workload (if workload t < workload best then t else best) targets

/-- `x if x else None`. -/
def nonEmpty (x : String) : Option String := if x = "" then none else some x

/-- Who a rule gives a lead to, among its targets `first :: rest`. -/
def AssignmentRule.hand (rule : AssignmentRule) (workloads : Option (String → ℤ)) (first : String)
    (rest : List String) : Assignment :=
  let targets := first :: rest
  let round : Assignment :=
    ⟨targets.getD (rule.cursor % targets.length).toNat first, nonEmpty rule.id, nonEmpty rule.name, rule.strategy,
      some ((rule.cursor + 1) % targets.length)⟩
  match rule.strategy, workloads with
  | .loadBalanced, some workload => { round with assigneeId := leastLoaded workload first rest, nextCursor := none }
  | .firstAvailable, _ => { round with assigneeId := first, nextCursor := none }
  | _, _ => round

/-- The body of the loop of `select_assignee`; `none` goes on to the next rule. -/
def AssignmentRule.assigns? (rule : AssignmentRule) (view : LeadView) (workloads : Option (String → ℤ))
    (eligible : Option (List String)) : Option Assignment :=
  if !rule.isActive then none
  else if !ruleMatches lower rule view then none
  else
    match rule.targets.filter (fun t => eligible.all (·.contains t)) with
    | [] => none
    | first :: rest => some (rule.hand workloads first rest)

/-- The key `(position, id)` of the sort. -/
def AssignmentRule.before (a b : AssignmentRule) : Bool :=
  a.position < b.position || (a.position == b.position && decide (a.id ≤ b.id))

/-- `select_assignee`. -/
def selectAssignee (rules : List AssignmentRule) (view : LeadView) (workloads : Option (String → ℤ))
    (eligible : Option (List String)) : Option Assignment :=
  (rules.mergeSort AssignmentRule.before).findSome? fun rule => rule.assigns? lower view workloads eligible

/-! ## The callers -/

def optionText (x : Option String) : Json := x.elim .null .str

/-- What `apply_rules` reads of a lead. -/
def Lead.view (lead : Lead) : LeadView
  | .source => .str lead.source
  | .sourceChannel => optionText lead.sourceChannel
  | .city => lead.capture.get "city"
  | .company => lead.capture.get "company"
  | .category => optionText lead.category
  | .qualificationScore => lead.qualificationScore.elim .null .int
  | .status => .str lead.status.value

/-- What `_assign` reads of the values of a row. -/
def valuesView (values : Texts) : LeadView := fun field => optionText (values.lookup field.name)

/-- What `apply_rules` will read of the lead that a row becomes. -/
def AcceptedRow.storedView (row : AcceptedRow) : LeadView
  | .source => .str (row.values.get "source")
  | .sourceChannel => .str ((orNone (row.values.get "source_channel")).getD "import")
  | .city => row.capture.get "city"
  | .company => row.capture.get "company"
  | .category => .null
  | .qualificationScore => .null
  | .status => .str "new"

/-- The rule's cursor, advanced in place. -/
def advanceCursor (decision : Assignment) (rule : AssignmentRule) : AssignmentRule :=
  match decision.nextCursor with
  | some cursor => if some rule.id = decision.ruleId then { rule with cursor := cursor } else rule
  | none => rule

/-- `_assign`: the assignee, and the rules with their cursors after it. -/
def assign (rules : List AssignmentRule) (values : Texts) : Option String × List AssignmentRule :=
  match selectAssignee lower rules (valuesView values) none none with
  | none => (none, rules)
  | some decision => (some decision.assigneeId, rules.map (advanceCursor decision))

/-- The rules after one row of an import. -/
def assignStep (rules : List AssignmentRule) (row : AcceptedRow) : List AssignmentRule :=
  (assign lower rules row.values).2

/-! ## The first rule that applies -/

/-- The rule is active, has targets, and its conditions hold. -/
def AssignmentRule.applies (rule : AssignmentRule) (view : LeadView) : Bool :=
  rule.isActive && ruleMatches lower rule view && !rule.targets.isEmpty

/-- The target whose turn it is. -/
def AssignmentRule.turn (rule : AssignmentRule) : String :=
  match rule.targets with
  | [] => ""
  | first :: rest => (rule.hand none first rest).assigneeId

variable {lower}

theorem assigns?_eq (rule : AssignmentRule) (view : LeadView) :
    (rule.assigns? lower view none none).map Assignment.assigneeId =
      if rule.applies lower view = true then some rule.turn else none := by
  unfold AssignmentRule.assigns? AssignmentRule.applies AssignmentRule.turn
  have hall : rule.targets.filter (fun t => (none : Option (List String)).all (·.contains t)) = rule.targets :=
    List.filter_eq_self.mpr fun _ _ => rfl
  rw [hall]
  cases rule.isActive with
  | false => rfl
  | true =>
    cases ruleMatches lower rule view with
    | false => rfl
    | true =>
      cases rule.targets with
      | nil => rfl
      | cons first rest => rfl

/-- The first rule that applies decides, and gives the lead to the target whose turn it is. -/
theorem selectAssignee_eq (rules : List AssignmentRule) (view : LeadView) :
    (selectAssignee lower rules view none none).map Assignment.assigneeId =
      ((rules.mergeSort AssignmentRule.before).find? (fun rule => rule.applies lower view)).map
        AssignmentRule.turn := by
  unfold selectAssignee
  induction rules.mergeSort AssignmentRule.before with
  | nil => rfl
  | cons rule rest ih =>
    have hrule := @assigns?_eq lower rule view
    rw [List.findSome?_cons, List.find?_cons]
    cases hassigns : rule.assigns? lower view none none with
    | none =>
      rw [hassigns] at hrule
      split_ifs at hrule with happlies
      · cases hrule
      · rw [Bool.not_eq_true] at happlies
        rw [happlies]
        exact ih
    | some decision =>
      rw [hassigns] at hrule
      split_ifs at hrule with happlies
      · rw [happlies]
        exact hrule
      · cases hrule

theorem assign_assignee (rules : List AssignmentRule) (values : Texts) :
    (assign lower rules values).1 =
      (selectAssignee lower rules (valuesView values) none none).map Assignment.assigneeId := by
  unfold assign
  cases selectAssignee lower rules (valuesView values) none none with
  | none => rfl
  | some decision => rfl

/-! ## Where the callers agree -/

variable (lower)

/-- In the order of the rules, the first that applies to one of two views applies to both; or the one that the other
view falls through to gives the lead to the same target. -/
def Agreeing (view view' : LeadView) : List AssignmentRule → Prop
  | [] => True
  | rule :: rest =>
    match rule.applies lower view, rule.applies lower view' with
    | true, true => True
    | false, false => Agreeing view view' rest
    | true, false => ∃ other, rest.find? (fun r => r.applies lower view') = some other ∧ other.turn = rule.turn
    | false, true => ∃ other, rest.find? (fun r => r.applies lower view) = some other ∧ other.turn = rule.turn

variable {lower}

theorem agreeing_iff (view view' : LeadView) : ∀ rules : List AssignmentRule,
    (rules.find? (fun rule => rule.applies lower view)).map AssignmentRule.turn =
        (rules.find? (fun rule => rule.applies lower view')).map AssignmentRule.turn ↔
      Agreeing lower view view' rules
  | [] => iff_of_true rfl trivial
  | rule :: rest => by
    rw [List.find?_cons, List.find?_cons]
    unfold Agreeing
    cases rule.applies lower view with
    | true =>
      cases rule.applies lower view' with
      | true => exact iff_of_true rfl trivial
      | false =>
        show some rule.turn = _ ↔ _
        rw [eq_comm, Option.map_eq_some_iff]
    | false =>
      cases rule.applies lower view' with
      | true =>
        show _ = some rule.turn ↔ _
        rw [Option.map_eq_some_iff]
      | false => exact agreeing_iff view view' rest

/-- A rule that reads only fields in which the views agree applies to both or to neither. -/
theorem applies_congr {rule : AssignmentRule} {view view' : LeadView}
    (h : ∀ clause ∈ rule.conditions, view clause.field = view' clause.field) :
    rule.applies lower view = rule.applies lower view' := by
  have hmatches : ruleMatches lower rule view = ruleMatches lower rule view' := by
    unfold ruleMatches
    rw [Bool.eq_iff_iff, List.all_eq_true, List.all_eq_true]
    refine forall₂_congr fun clause hclause => ?_
    unfold clauseMatches
    rw [h clause hclause]
  unfold AssignmentRule.applies
  rw [hmatches]

/-- Rules that read only such fields agree. -/
theorem agreeing_of_reads {view view' : LeadView} : ∀ {rules : List AssignmentRule},
    (∀ rule ∈ rules, ∀ clause ∈ rule.conditions, view clause.field = view' clause.field) →
      Agreeing lower view view' rules
  | [], _ => trivial
  | rule :: rest, h => by
    have hrest := agreeing_of_reads fun r hr => h r (List.mem_cons_of_mem rule hr)
    unfold Agreeing
    rw [← applies_congr (h rule List.mem_cons_self)]
    cases rule.applies lower view with
    | true => trivial
    | false => exact hrest

end Lower

/-! ## Where the views agree -/

/-- The fields in which the values of a row and the lead made of it agree. -/
def SameField (mapping : Texts) (raw : Dict) : ConditionField → Prop
  | .sourceChannel => columnCell mapping raw "source_channel" ≠ ""
  | .city => columnCell mapping raw "city" = ""
  | .company => columnCell mapping raw "company" = ""
  | .status => False
  | _ => True

/-- A captured field is missing from the values, and in the lead when the file has it. -/
theorem captured_agrees_iff {lower : String → String} {mapping : Texts} (hnodup : (mapping.map Prod.snd).Nodup)
    {defaultSource : String} {raw : Dict} {field : String} (hcaptured : captureFields.contains field = true)
    (hextra : field ≠ "extra") (hbusiness : field ≠ "name_is_business") :
    Json.null = (judgeRow lower mapping defaultSource raw).capture.get field ↔ columnCell mapping raw field = "" := by
  have hlookup : (judgeRow lower mapping defaultSource raw).capture.lookup field =
      if columnCell mapping raw field = "" then none
      else some (.str (neutraliseFormula (slice (columnCell mapping raw field) 500))) := by
    rw [judgeRow_capture, nameRow_capture _ _ hbusiness, rowCapture_lookup hnodup raw hextra]
    by_cases hempty : columnCell mapping raw field = ""
    · rw [if_pos hempty, if_neg (fun hboth => hboth.2 hempty)]
    · rw [if_neg hempty, if_pos ⟨hcaptured, hempty⟩]
  rw [Dict.get, hlookup]
  by_cases hempty : columnCell mapping raw field = ""
  · rw [if_pos hempty]
    exact iff_of_true rfl hempty
  · rw [if_neg hempty]
    exact iff_of_false Json.noConfusion hempty

/-- The row is what a raw row of a file was accepted as, under a mapping that is in order. -/
structure FromCells (lower : String → String) (m : Mapping) (mapping : Texts) (defaultSource : String) (raw : Dict)
    (row : AcceptedRow) : Prop where
  mapped : validateMapping m = .ok mapping
  unreproached : (judgeRow lower mapping defaultSource raw).reasons = []
  values_eq : row.values = (judgeRow lower mapping defaultSource raw).values
  capture_eq : row.capture = (judgeRow lower mapping defaultSource raw).capture

/-- The lead of a row is read as the row says. -/
theorem view_lead (lower : String → String) (c : ImportCall) (row : AcceptedRow) :
    (c.lead lower row).view = row.storedView := by
  have hbatch : ∀ {key : String}, key ≠ "import_batch_id" →
      (Dict.merge row.capture [("import_batch_id", .str c.batchId.text)]).get key = row.capture.get key := by
    intro key hkey
    rw [Dict.get, Dict.get, Dict.lookup_merge_of_none _ (by rw [List.lookup_cons, beq_false_of_ne hkey]; rfl)]
  funext field
  cases field with
  | city => exact hbatch (by decide)
  | company => exact hbatch (by decide)
  | _ => rfl

section Cells

variable {lower : String → String} {m : Mapping} {mapping : Texts} {defaultSource : String} {raw : Dict}
  {row : AcceptedRow}

theorem FromCells.targets (h : FromCells lower m mapping defaultSource raw row) : (mapping.map Prod.snd).Nodup :=
  (targets_of_validateMapping h.mapped).1

/-- What no column can be mapped to, and what is captured, is missing from the values. -/
theorem FromCells.values_missing (h : FromCells lower m mapping defaultSource raw row) {key : String}
    (hown : key ∉ ["phone", "source", "email", "first_name"])
    (hnone : captureFields.contains key = true ∨ key ∉ importableFields) : row.values.lookup key = none := by
  simp only [List.mem_cons, List.not_mem_nil, or_false, not_or] at hown
  obtain ⟨hphone, hsource, hemail, hfirst⟩ := hown
  rw [h.values_eq, judgeRow_lookup h.targets h.unreproached hphone, if_neg hsource,
    if_neg (fun hboth => hemail hboth.1), if_neg hfirst, if_neg]
  rintro ⟨hcaptured, hcell⟩
  rcases hnone with hnone | hnone
  · rw [hcaptured] at hnone
    cases hnone
  · exact hcell (columnCell_of_not_mem (fun hmem => hnone ((targets_of_validateMapping h.mapped).2 key hmem)) raw)

/-- A row has its source among its values. -/
theorem FromCells.values_source (h : FromCells lower m mapping defaultSource raw row) :
    row.values.lookup "source" = some (row.values.get "source") := by
  rw [Texts.get, h.values_eq, judgeRow_lookup h.targets h.unreproached (by decide), if_pos rfl]
  rfl

/-- The source channel is among the values if the row has one. -/
theorem FromCells.values_sourceChannel (h : FromCells lower m mapping defaultSource raw row) :
    row.values.lookup "source_channel" = orNone (columnCell mapping raw "source_channel") := by
  rw [h.values_eq, judgeRow_lookup h.targets h.unreproached (by decide), if_neg (by decide),
    if_neg (fun hboth => absurd hboth.1 (by decide)), if_neg (by decide), orNone]
  by_cases hempty : columnCell mapping raw "source_channel" = ""
  · rw [if_pos hempty, if_neg (fun hboth => hboth.2 hempty)]
  · rw [if_neg hempty, if_pos ⟨by decide, hempty⟩]

theorem views_agree_iff (h : FromCells lower m mapping defaultSource raw row) (field : ConditionField) :
    valuesView row.values field = row.storedView field ↔ SameField mapping raw field := by
  cases field with
  | source =>
    refine iff_of_true ?_ trivial
    show optionText (row.values.lookup "source") = .str (row.values.get "source")
    rw [h.values_source]
    rfl
  | sourceChannel =>
    show optionText (row.values.lookup "source_channel") =
      .str ((orNone ((row.values.lookup "source_channel").getD "")).getD "import") ↔
        columnCell mapping raw "source_channel" ≠ ""
    rw [h.values_sourceChannel]
    by_cases hempty : columnCell mapping raw "source_channel" = ""
    · rw [orNone, if_pos hempty]
      exact iff_of_false Json.noConfusion (fun hne => hne hempty)
    · rw [orNone, if_neg hempty, Option.getD_some, orNone, if_neg hempty]
      exact iff_of_true rfl hempty
  | city =>
    show optionText (row.values.lookup "city") = row.capture.get "city" ↔ _
    rw [h.values_missing (by decide) (Or.inl (by decide)), h.capture_eq]
    exact captured_agrees_iff h.targets (by decide) (by decide) (by decide)
  | company =>
    show optionText (row.values.lookup "company") = row.capture.get "company" ↔ _
    rw [h.values_missing (by decide) (Or.inl (by decide)), h.capture_eq]
    exact captured_agrees_iff h.targets (by decide) (by decide) (by decide)
  | category =>
    refine iff_of_true ?_ trivial
    show optionText (row.values.lookup "category") = .null
    rw [h.values_missing (by decide) (Or.inr (by decide))]
    rfl
  | qualificationScore =>
    refine iff_of_true ?_ trivial
    show optionText (row.values.lookup "qualification_score") = .null
    rw [h.values_missing (by decide) (Or.inr (by decide))]
    rfl
  | status =>
    refine iff_of_false ?_ (fun hfalse => hfalse)
    show optionText (row.values.lookup "status") ≠ .str "new"
    rw [h.values_missing (by decide) (Or.inr (by decide))]
    exact Json.noConfusion

end Cells

/-- **When `_assign` chooses, for a row, whom the rules would give the stored lead to.** -/
theorem assign_agrees_iff {lower : String → String} (c : ImportCall) (rules : List AssignmentRule) (row : AcceptedRow) :
    (assign lower rules row.values).1 =
        (selectAssignee lower rules (c.lead lower row).view none none).map Assignment.assigneeId ↔
      Agreeing lower (valuesView row.values) row.storedView (rules.mergeSort AssignmentRule.before) := by
  rw [assign_assignee, selectAssignee_eq, selectAssignee_eq, agreeing_iff, view_lead]

/-- **When an import assigns every row as the rules would assign the lead it creates**, by what the row and its lead are
read as; and these differ in the fields that `SameField` denies, by the cells of the file. -/
theorem import_agrees_iff (lower : String → String) (c : ImportCall) (rules : List AssignmentRule)
    (rows : List AcceptedRow) :
    (Meets (assignStep lower) (fun rules row => (assign lower rules row.values).1 =
        (selectAssignee lower rules (c.lead lower row).view none none).map Assignment.assigneeId) rules rows ↔
      Meets (assignStep lower) (fun rules row =>
        Agreeing lower (valuesView row.values) row.storedView (rules.mergeSort AssignmentRule.before)) rules rows) ∧
      ∀ m mapping defaultSource raw, ∀ row ∈ rows, FromCells lower m mapping defaultSource raw row → ∀ field,
        valuesView row.values field = row.storedView field ↔ SameField mapping raw field :=
  ⟨@meets_congr_of_inv _ _ _ (fun _ => True) _ _ (fun _ _ _ => trivial)
    (fun rules row _ => assign_agrees_iff c rules row) rows rules trivial,
    fun _ _ _ _ _ _ h field => views_agree_iff h field⟩

/-- Leads of one company go to one person. -/
def companyRule : AssignmentRule where
  id := "rule-1"
  name := "Key accounts"
  strategy := .roundRobin
  conditions := [⟨.company, .equals, .str "Asha Stores"⟩]
  targets := ["ravi"]
  position := 0
  isActive := true
  cursor := 0

/-- The import of a file with that company in it gives the row to nobody; the rules give the lead to that person. -/
theorem company_rule_missed : ∃ plan, (sampleCall "june" "09845012201" "new@asha.in" '2').plan Py.lower = .ok plan ∧
    ¬Meets (assignStep Py.lower) (fun rules row => (assign Py.lower rules row.values).1 =
      (selectAssignee Py.lower rules ((sampleCall "june" "09845012201" "new@asha.in" '2').lead Py.lower row).view none
        none).map Assignment.assigneeId) [companyRule] plan.accepted := by
  have happlies : ((sampleCall "june" "09845012201" "new@asha.in" '2').plan Py.lower).toOption.map
      (fun plan => plan.accepted.map fun row => (companyRule.applies Py.lower (valuesView row.values),
        companyRule.applies Py.lower row.storedView)) =
      some [(false, true)] := by decide +kernel
  obtain ⟨plan, hplan, hrows⟩ := Option.map_eq_some_iff.mp happlies
  refine ⟨plan, eq_ok_of_toOption hplan, fun hmeets => ?_⟩
  obtain ⟨row, rest, haccepted, hrow, -⟩ := List.map_eq_cons_iff.mp hrows
  rw [haccepted] at hmeets
  have hagreeing := (assign_agrees_iff _ _ row).mp hmeets.1
  obtain ⟨hvalues, hstored⟩ := Prod.mk.inj hrow
  rw [List.mergeSort_singleton] at hagreeing
  unfold Agreeing at hagreeing
  rw [hvalues, hstored] at hagreeing
  obtain ⟨other, hnone, -⟩ := hagreeing
  cases hnone

end RevenueOS.Leads
