import RevenueOS.Leads.Importer
import RevenueOS.Lib.Slots
import RevenueOS.Lib.Trace

/-!
# RevenueOS.Leads.ImportRuns — imports that run at the same time

Interleaved calls of `commit_import` for one tenant, under read committed: the plan, the replay count, the read of
the leads (a session of its own) and the commit are steps, and other transactions come between them.  A commit is
atomic and checks the constraint `source_idem`.  The source events are append-only at the database level, so other
transactions add events and do to the leads whatever they like.

* `after_alone`: undisturbed, the four steps are `commitImport`.
* `imports_commit_once`: at most one call of an import key commits, and a call that does not commit writes nothing.
-/

namespace RevenueOS.Leads

open RevenueOS.Py RevenueOS.Lib RevenueOS.Workflows

/-! ## The system -/

/-- Where a call of `commit_import` stands. -/
inductive ImportPhase where
  | planned (plan : ImportPlan)
  | checked (plan : ImportPlan)
  | matched (plan : ImportPlan) (found : List (String × Match))
  | committed (result : ImportResult)
  | raised (error : LeadError)

def ImportPhase.isCommitted : ImportPhase → Bool
  | .committed _ => true
  | _ => false

/-- The call has neither returned nor raised. -/
def ImportPhase.unfinished : ImportPhase → Bool
  | .committed _ => false
  | .raised _ => false
  | _ => true

structure ImportRun where
  call : ImportCall
  phase : ImportPhase

structure ImportState where
  tables : LeadTables
  runs : List ImportRun

namespace ImportState

/-- No call was made yet. -/
def start (tables : LeadTables) : ImportState := ⟨tables, []⟩

/-- The phase of a call changes, and nothing else. -/
def move (s : ImportState) (k : ℕ) (run : ImportRun) (phase : ImportPhase) : ImportState :=
  { s with runs := s.runs.set k ⟨run.call, phase⟩ }

/-- The call has committed. -/
def committed (s : ImportState) (k : ℕ) : Bool := s.runs[k]?.any fun run => run.phase.isCommitted

end ImportState

/-- What a call does next: the replay count, the read of the leads, the commit (which the database may refuse for a
reason of its own); or it fails. -/
inductive ImportAction where
  | check
  | readMatches
  | commit (refused : Bool)
  | fail (error : LeadError)

inductive ImportStep where
  | plan (call : ImportCall)
  | act (k : ℕ) (action : ImportAction)
  | other (leads : Table Lead.id) (events : List LeadSourceEvent)

/-- The call a step belongs to. -/
def ImportStep.actor? (s : ImportState) : ImportStep → Option ℕ
  | .plan _ => some s.runs.length
  | .act k _ => some k
  | .other _ _ => none

section Lower

variable (lower : String → String)

/-- What a call is after its plan. -/
def planPhase (c : ImportCall) : ImportPhase :=
  match c.plan lower with
  | .ok plan => .planned plan
  | .error error => .raised error

/-- The replay count. -/
def checkPhase (tables : LeadTables) (c : ImportCall) (plan : ImportPlan) : ImportPhase :=
  if replayed tables c.importKey then .raised (.conflict "That import has already been committed.") else .checked plan

namespace ImportState

/-- The commit of a call; what is refused or violates a constraint is rolled back. -/
def commit (s : ImportState) (k : ℕ) (run : ImportRun) (plan : ImportPlan) (found : List (String × Match))
    (refused : Bool) : ImportState :=
  match if refused then none else run.call.write lower s.tables plan found with
  | none => s.move k run (.raised .integrity)
  | some tables =>
    ⟨tables, s.runs.set k ⟨run.call, .committed ⟨createdRows plan found, duplicateRows plan found, plan.rejected⟩⟩⟩

/-- A step of the call `run`, number `k`. -/
def act (s : ImportState) (k : ℕ) (run : ImportRun) : ImportAction → ImportState
  | .check =>
    match run.phase with
    | .planned plan => s.move k run (checkPhase s.tables run.call plan)
    | _ => s
  | .readMatches =>
    match run.phase with
    | .checked plan => s.move k run (.matched plan (existingMatches lower s.tables.leads.rows plan))
    | _ => s
  | .commit refused =>
    match run.phase with
    | .matched plan found => s.commit lower k run plan found refused
    | _ => s
  | .fail error => if run.phase.unfinished then s.move k run (.raised error) else s

/-- Another transaction: its events keep the constraint, or it is rolled back. -/
def other (s : ImportState) (leads : Table Lead.id) (events : List LeadSourceEvent) : ImportState :=
  match s.tables.events.append? events with
  | some events => { s with tables := ⟨leads, events⟩ }
  | none => s

def step (s : ImportState) : ImportStep → ImportState
  | .plan c => { s with runs := s.runs ++ [⟨c, planPhase lower c⟩] }
  | .act k action =>
    match s.runs[k]? with
    | some run => s.act lower k run action
    | none => s
  | .other leads events => s.other leads events

end ImportState

/-- The steps of one call, number `k`, with nothing between them. -/
def aloneSteps (k : ℕ) (c : ImportCall) : List ImportStep :=
  [.plan c, .act k .check, .act k .readMatches, .act k (.commit false)]

/-! ## One call alone -/

variable {lower}

theorem step_last {tables : LeadTables} {runs : List ImportRun} {run : ImportRun} {action : ImportAction} :
    ImportState.step lower ⟨tables, runs ++ [run]⟩ (.act runs.length action) =
      ImportState.act lower ⟨tables, runs ++ [run]⟩ runs.length run action := by
  unfold ImportState.step
  dsimp only
  rw [List.getElem?_concat_length]

/-- The last call is in another phase. -/
theorem move_last {tables : LeadTables} {runs : List ImportRun} {run : ImportRun} {phase : ImportPhase} :
    ImportState.move ⟨tables, runs ++ [run]⟩ runs.length run phase = ⟨tables, runs ++ [⟨run.call, phase⟩]⟩ := by
  unfold ImportState.move
  rw [List.set_append_right _ _ le_rfl, Nat.sub_self]
  rfl

/-- **Undisturbed, a call does what `commitImport` says.** -/
theorem after_alone (s : ImportState) (c : ImportCall) :
    after (ImportState.step lower) s (aloneSteps s.runs.length c) =
      match commitImport lower s.tables c with
      | .ok (tables, result) => ⟨tables, s.runs ++ [⟨c, .committed result⟩]⟩
      | .error error => ⟨s.tables, s.runs ++ [⟨c, .raised error⟩]⟩ := by
  obtain ⟨tables, runs⟩ := s
  change ImportState.step lower (ImportState.step lower (ImportState.step lower
    ⟨tables, runs ++ [⟨c, planPhase lower c⟩]⟩ (.act runs.length .check)) (.act runs.length .readMatches))
    (.act runs.length (.commit false)) = _
  unfold commitImport planPhase
  cases c.plan lower with
  | error error => simp only [step_last, ImportState.act, bind, Except.bind]
  | ok plan =>
    simp only [step_last, ImportState.act, move_last, checkPhase, bind, Except.bind]
    by_cases hreplay : replayed tables c.importKey = true
    · simp only [hreplay, if_true, step_last, ImportState.act]
      rfl
    · simp only [hreplay, if_false, Bool.false_eq_true, step_last, ImportState.act, move_last, ImportState.commit]
      cases c.write lower tables plan (existingMatches lower tables.leads.rows plan) with
      | none => rfl
      | some tables' =>
        dsimp only
        rw [List.set_append_right _ _ le_rfl, Nat.sub_self]
        rfl

/-! ## What a step can do -/

/-- The step leaves the tables alone, and does not make a call a committed one. -/
structure Idle (s s' : ImportState) : Prop where
  tables_eq : s'.tables = s.tables
  kept : ∀ (k : ℕ) (run : ImportRun), s.runs[k]? = some run → run.phase.isCommitted = true → s'.runs[k]? = some run
  from_old : ∀ (k : ℕ) (run : ImportRun), s'.runs[k]? = some run → run.phase.isCommitted = true → s.runs[k]? = some run

/-- The commit of the call `k` wrote. -/
structure Wrote (lower : String → String) (s s' : ImportState) (k : ℕ) (c : ImportCall) (plan : ImportPlan)
    (found : List (String × Match)) : Prop where
  write : c.write lower s.tables plan found = some s'.tables
  matched : s.runs[k]? = some ⟨c, .matched plan found⟩
  runs_eq : s'.runs = s.runs.set k
    ⟨c, .committed ⟨createdRows plan found, duplicateRows plan found, plan.rejected⟩⟩

theorem Idle.refl (s : ImportState) : Idle s s := ⟨rfl, fun _ _ h _ => h, fun _ _ h _ => h⟩

theorem idle_move {s : ImportState} {k : ℕ} {run : ImportRun} {phase : ImportPhase} (hk : s.runs[k]? = some run)
    (hbefore : run.phase.isCommitted = false) (hafter : phase.isCommitted = false) : Idle s (s.move k run phase) := by
  refine ⟨rfl, fun j run' hj hcommitted => ?_, fun j run' hj hcommitted => ?_⟩
  · have hne : k ≠ j := by
      rintro rfl
      obtain rfl := Option.some.inj (hk.symm.trans hj)
      rw [hbefore] at hcommitted
      cases hcommitted
    unfold ImportState.move
    rw [List.getElem?_set_ne hne]
    exact hj
  · rcases getElem?_set_cases hj with ⟨-, rfl⟩ | ⟨-, hj⟩
    · rw [hafter] at hcommitted
      cases hcommitted
    · exact hj

theorem idle_plan (s : ImportState) (c : ImportCall) : Idle s (s.step lower (.plan c)) := by
  refine ⟨rfl, fun k run hk _ => getElem?_concat_of_some hk, fun k run hk hcommitted => ?_⟩
  rcases getElem?_concat_cases hk with rfl | hk
  · unfold planPhase at hcommitted
    cases hplan : c.plan lower with
    | ok plan =>
      rw [hplan] at hcommitted
      cases hcommitted
    | error error =>
      rw [hplan] at hcommitted
      cases hcommitted
  · exact hk

theorem commit_cases {s : ImportState} {k : ℕ} {c : ImportCall} {plan : ImportPlan} {found : List (String × Match)}
    {refused : Bool} (hk : s.runs[k]? = some ⟨c, .matched plan found⟩) :
    Idle s (s.commit lower k ⟨c, .matched plan found⟩ plan found refused) ∨
      Wrote lower s (s.commit lower k ⟨c, .matched plan found⟩ plan found refused) k c plan found := by
  unfold ImportState.commit
  split
  · exact Or.inl (idle_move hk rfl rfl)
  · rename_i tables hwrite
    split_ifs at hwrite
    exact Or.inr ⟨hwrite, hk, rfl⟩

theorem act_cases {s : ImportState} {k : ℕ} {run : ImportRun} {action : ImportAction} (hk : s.runs[k]? = some run) :
    Idle s (s.act lower k run action) ∨ ∃ plan found, Wrote lower s (s.act lower k run action) k run.call plan found := by
  obtain ⟨c, phase⟩ := run
  cases action with
  | check =>
    refine Or.inl ?_
    unfold ImportState.act
    cases phase with
    | planned plan =>
      refine idle_move hk rfl ?_
      unfold checkPhase
      split_ifs <;> rfl
    | _ => exact Idle.refl s
  | readMatches =>
    refine Or.inl ?_
    unfold ImportState.act
    cases phase with
    | checked plan => exact idle_move hk rfl rfl
    | _ => exact Idle.refl s
  | commit refused =>
    unfold ImportState.act
    cases phase with
    | matched plan found =>
      rcases commit_cases hk with hidle | hwrote
      · exact Or.inl hidle
      · exact Or.inr ⟨plan, found, hwrote⟩
    | _ => exact Or.inl (Idle.refl s)
  | fail error =>
    refine Or.inl ?_
    unfold ImportState.act
    cases phase with
    | committed result => exact Idle.refl s
    | raised error' => exact Idle.refl s
    | _ => exact idle_move hk rfl rfl

/-- **What a step can do**: nothing to the tables, the commit of one call, or what another transaction does. -/
theorem import_step_cases (s : ImportState) (l : ImportStep) :
    Idle s (s.step lower l) ∨
      (∃ k c plan found, l.actor? s = some k ∧ Wrote lower s (s.step lower l) k c plan found) ∨
      (l.actor? s = none ∧ (s.step lower l).runs = s.runs ∧
        ∃ added, (s.step lower l).tables.events.rows = s.tables.events.rows ++ added) := by
  cases l with
  | plan c => exact Or.inl (idle_plan s c)
  | act k action =>
    unfold ImportState.step
    dsimp only
    cases hk : s.runs[k]? with
    | none => exact Or.inl (Idle.refl s)
    | some run =>
      rcases act_cases hk with hidle | ⟨plan, found, hwrote⟩
      · exact Or.inl hidle
      · exact Or.inr (Or.inl ⟨k, run.call, plan, found, rfl, hwrote⟩)
  | other leads events =>
    refine Or.inr (Or.inr ⟨rfl, ?_⟩)
    unfold ImportState.step ImportState.other
    dsimp only
    split
    · rename_i table happend
      exact ⟨rfl, events, Table.rows_append? happend⟩
    · exact ⟨rfl, [], (List.append_nil _).symm⟩

/-! ## At most one commit -/

/-- No two calls of one import key have committed. -/
def CommittedOnce (s : ImportState) : Prop :=
  ∀ (i j : ℕ) (a b : ImportRun), s.runs[i]? = some a → s.runs[j]? = some b → a.phase.isCommitted = true →
    b.phase.isCommitted = true → a.call.importKey = b.call.importKey → i = j

/-- A committed call has left its batch marker. -/
def Marked (s : ImportState) : Prop :=
  ∀ (k : ℕ) (run : ImportRun), s.runs[k]? = some run → run.phase.isCommitted = true →
    run.call.marker.key ∈ s.tables.events.rows.map LeadSourceEvent.key

theorem marker_key (c : ImportCall) : c.marker.key = ("csv_import", c.importKey) := rfl

/-- A write adds the marker, which was not there. -/
theorem write_marker {c : ImportCall} {tables tables' : LeadTables} {plan : ImportPlan} {found : List (String × Match)}
    (h : c.write lower tables plan found = some tables') :
    c.marker.key ∉ tables.events.rows.map LeadSourceEvent.key ∧
      ∃ added, tables'.events.rows = tables.events.rows ++ added ∧ c.marker ∈ added := by
  have hevents := (append?_of_insert? h).2
  have hmem : c.marker ∈ plan.accepted.map (c.rowEvent found) ++ [c.marker] :=
    List.mem_append_right _ (List.mem_singleton_self _)
  refine ⟨fun htaken => ?_, _, Table.rows_append? hevents, hmem⟩
  rw [Table.append?_eq_none hmem htaken] at hevents
  cases hevents

/-- The markers of the calls that have committed stay. -/
theorem Marked.grow {s s' : ImportState} (h : Marked s) {added : List LeadSourceEvent}
    (hevents : s'.tables.events.rows = s.tables.events.rows ++ added) {k : ℕ} {run : ImportRun}
    (hk : s.runs[k]? = some run) (hcommitted : run.phase.isCommitted = true) :
    run.call.marker.key ∈ s'.tables.events.rows.map LeadSourceEvent.key := by
  rw [hevents, List.map_append]
  exact List.mem_append_left _ (h k run hk hcommitted)

theorem marked_wrote {s s' : ImportState} {k : ℕ} {c : ImportCall} {plan : ImportPlan} {found : List (String × Match)}
    (hmarked : Marked s) (honce : CommittedOnce s) (h : Wrote lower s s' k c plan found) :
    Marked s' ∧ CommittedOnce s' := by
  obtain ⟨hnew, added, hevents, hmem⟩ := write_marker h.write
  -- the call that commits has a key no committed call has
  have hfresh : ∀ j run, j ≠ k → s'.runs[j]? = some run → run.phase.isCommitted = true →
      s.runs[j]? = some run ∧ run.call.importKey ≠ c.importKey := by
    intro j run hne hj hcommitted
    rw [h.runs_eq, List.getElem?_set_ne hne.symm] at hj
    refine ⟨hj, fun hkey => hnew ?_⟩
    have := hmarked j run hj hcommitted
    rwa [marker_key, hkey] at this
  have hself : ∀ run, s'.runs[k]? = some run → run.call = c := by
    intro run hk
    rw [h.runs_eq, getElem?_set_of_some h.matched] at hk
    rw [← Option.some.inj hk]
  constructor
  · intro j run hj hcommitted
    by_cases hjk : j = k
    · subst hjk
      rw [hself run hj, hevents, List.map_append]
      exact List.mem_append_right _ (List.mem_map_of_mem hmem)
    · exact hmarked.grow hevents (hfresh j run hjk hj hcommitted).1 hcommitted
  · intro i j a b hi hj ha hb hkey
    by_cases hik : i = k
    · by_cases hjk : j = k
      · rw [hik, hjk]
      · subst hik
        exact absurd (hkey.symm.trans (congrArg _ (hself a hi))) (hfresh j b hjk hj hb).2
    · by_cases hjk : j = k
      · subst hjk
        exact absurd (hkey.trans (congrArg _ (hself b hj))) (hfresh i a hik hi ha).2
      · exact honce i j a b (hfresh i a hik hi ha).1 (hfresh j b hjk hj hb).1 ha hb hkey

theorem marked_step (s : ImportState) (l : ImportStep) (h : Marked s ∧ CommittedOnce s) :
    Marked (s.step lower l) ∧ CommittedOnce (s.step lower l) := by
  obtain ⟨hmarked, honce⟩ := h
  rcases @import_step_cases lower s l with hidle | ⟨k, c, plan, found, -, hwrote⟩ | ⟨-, hruns, added, hevents⟩
  · refine ⟨fun k run hk hcommitted => ?_, fun i j a b hi hj ha hb hkey => ?_⟩
    · rw [hidle.tables_eq]
      exact hmarked k run (hidle.from_old k run hk hcommitted) hcommitted
    · exact honce i j a b (hidle.from_old i a hi ha) (hidle.from_old j b hj hb) ha hb hkey
  · exact marked_wrote hmarked honce hwrote
  · refine ⟨fun k run hk hcommitted => ?_, fun i j a b hi hj ha hb hkey => ?_⟩
    · rw [hruns] at hk
      exact hmarked.grow hevents hk hcommitted
    · rw [hruns] at hi hj
      exact honce i j a b hi hj ha hb hkey

/-! ## A call that does not commit -/

theorem committed_iff {s : ImportState} {k : ℕ} :
    s.committed k = true ↔ ∃ run, s.runs[k]? = some run ∧ run.phase.isCommitted = true := by
  unfold ImportState.committed
  rw [Option.any_eq_true]

/-- A call that has committed stays so. -/
theorem committed_step {s : ImportState} {k : ℕ} (l : ImportStep) (h : s.committed k = true) :
    (s.step lower l).committed k = true := by
  rw [committed_iff] at h ⊢
  obtain ⟨run, hk, hcommitted⟩ := h
  rcases @import_step_cases lower s l with hidle | ⟨j, c, plan, found, -, hwrote⟩ | ⟨-, hruns, -⟩
  · exact ⟨run, hidle.kept k run hk hcommitted, hcommitted⟩
  · by_cases hjk : j = k
    · subst hjk
      exact ⟨_, by rw [hwrote.runs_eq, getElem?_set_of_some hk], rfl⟩
    · exact ⟨run, by rw [hwrote.runs_eq, List.getElem?_set_ne hjk, hk], hcommitted⟩
  · exact ⟨run, by rw [hruns, hk], hcommitted⟩

theorem committed_after {k : ℕ} : ∀ (steps : List ImportStep) {s : ImportState}, s.committed k = true →
    (after (ImportState.step lower) s steps).committed k = true
  | [], _, h => h
  | l :: steps, _, h => committed_after steps (committed_step l h)

variable (lower) in
/-- The step leaves the leads and the source events alone, unless its call has committed in the end. -/
def WritesIfCommitted (final s : ImportState) (l : ImportStep) : Prop :=
  ∀ k, l.actor? s = some k → final.committed k = true ∨ (s.step lower l).tables = s.tables

theorem writesIfCommitted_after (steps : List ImportStep) : ∀ s : ImportState,
    Meets (ImportState.step lower) (WritesIfCommitted lower (after (ImportState.step lower) s steps)) s steps := by
  induction steps with
  | nil => exact fun _ => trivial
  | cons l steps ih =>
    refine fun s => ⟨fun k hactor => ?_, ih (s.step lower l)⟩
    rcases @import_step_cases lower s l with hidle | ⟨j, c, plan, found, hj, hwrote⟩ | ⟨hnone, -⟩
    · exact Or.inr hidle.tables_eq
    · obtain rfl := Option.some.inj (hj.symm.trans hactor)
      have hcommitted : (s.step lower l).committed j = true :=
        committed_iff.mpr ⟨_, by rw [hwrote.runs_eq, getElem?_set_of_some hwrote.matched], rfl⟩
      exact Or.inl (committed_after steps hcommitted)
    · rw [hnone] at hactor
      cases hactor

/-- **An import key commits once**: in every run, no two calls of one import key commit, and a call that does not
commit leaves no lead and no source event behind. -/
theorem imports_commit_once (lower : String → String) (tables : LeadTables) (steps : List ImportStep) :
    CommittedOnce (after (ImportState.step lower) (.start tables) steps) ∧
      Meets (ImportState.step lower) (WritesIfCommitted lower (after (ImportState.step lower) (.start tables) steps))
        (.start tables) steps := by
  have hstart : Marked (.start tables) ∧ CommittedOnce (.start tables) :=
    ⟨fun k run hk => absurd hk (by simp [ImportState.start]),
      fun i j a b hi => absurd hi (by simp [ImportState.start])⟩
  have hinv := inv_after (C := fun _ _ => True) (fun s => Marked s ∧ CommittedOnce s)
    (fun s l h _ => @marked_step lower s l h) steps _ hstart
    (meets_of_forall (fun _ _ => trivial) steps _)
  exact ⟨hinv.2, writesIfCommitted_after steps _⟩

end Lower

end RevenueOS.Leads
