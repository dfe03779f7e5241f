import RevenueOS.Workflows.DslFacts
import RevenueOS.Workflows.Tasks

/-!
# RevenueOS.Workflows.Wakeups — no wake-up is lost

A waiting execution is woken by its `resume_at` (through the sweep), by a decision on the approval it waits for,
or by a `resume_execution` task in flight.  Which of the three it has changes hands: the sweep trades
`resume_at` for a task, the first transaction of a run clears it, and a resume task may return early.

* `execute_suspended`: where a run of the engine suspends.
* `Wakeable`: the invariant, and `wakeable_step`, which says under which conditions a step keeps it.
* `wakeups_kept`: along every run of such steps no wake-up is lost.
* `killed_wakeup_lost`: a delay whose resume task meets an engaged kill switch waits for ever.
-/

namespace RevenueOS.Workflows

open RevenueOS.Py RevenueOS.Lib

/-! ## Where a run suspends -/

section Engine

variable {W : Type} {env : Env W} {plan : Plan}

/-- A waiting result names a node of the plan that has a `resume_at` or is an approval. -/
def SuspendsAt (plan : Plan) (r : ExecutionResult) : Prop :=
  r.state = .waiting → ∃ x node, r.waitingOn = some x ∧ plan.nodes.lookup x = some node ∧
    (r.resumeAt ≠ none ∨ NodeType.ofJson? (Dict.get node "type") = some .approval)

theorem extend_ne_done {σ σ' : Loop W} {next : Except PyError (List String)} {r : ExecutionResult} :
    σ.extend next ≠ .done r σ' := by
  cases next <;> simp [Loop.extend]

theorem processNode_done {x : String} {σ σ' : Loop W} {r : ExecutionResult}
    (h : processNode env plan x σ = .done r σ') : SuspendsAt plan r := by
  unfold processNode at h
  split at h
  · cases h
  rename_i node hl
  split at h
  · unfold processCondition at h
    split at h
    · cases h
    · exact absurd h extend_ne_done
  · -- a delay: the result carries `resume_at`
    unfold processDelay at h
    split at h
    · cases h
    · simp only at h
      split at h
      · cases h
      · obtain ⟨rfl, -⟩ := Turn.done.inj h
        exact fun _ => ⟨x, node, rfl, hl, Or.inl (by simp [Loop.suspended])⟩
  · rename_i ht
    unfold processApproval at h
    simp only at h
    split at h
    · cases h
    · obtain ⟨rfl, -⟩ := Turn.done.inj h
      exact fun _ => ⟨x, node, rfl, hl, Or.inr ht⟩
  · unfold processLoop at h
    split at h
    · cases h
    · simp only at h
      split_ifs at h
      · obtain ⟨rfl, -⟩ := Turn.done.inj h
        exact fun hw => by cases hw
      · exact absurd h extend_ne_done
  · exact absurd h extend_ne_done
  · unfold processAction at h
    simp only at h
    split at h
    · cases h
    · split_ifs at h
      · obtain ⟨rfl, -⟩ := Turn.done.inj h
        exact fun hw => by cases hw
      · exact absurd h extend_ne_done
  · exact absurd h extend_ne_done

theorem turn_done {deadline : Instant} {σ σ' : Loop W} {r : ExecutionResult}
    (h : turn env plan deadline σ = .done r σ') : SuspendsAt plan r := by
  unfold turn at h
  split at h
  · obtain ⟨rfl, -⟩ := Turn.done.inj h
    exact fun hw => by cases hw
  · simp only at h
    split_ifs at h
    · obtain ⟨rfl, -⟩ := Turn.done.inj h
      exact fun hw => by cases hw
    · obtain ⟨rfl, -⟩ := Turn.done.inj h
      exact fun hw => by cases hw
    · exact processNode_done h

theorem runTurns_done {deadline : Instant} {σ' : Loop W} {r : ExecutionResult} : ∀ {n : ℕ} {σ : Loop W},
    runTurns env plan deadline n σ = .done r σ' → SuspendsAt plan r
  | 0, _, h => by cases h
  | n + 1, σ, h => by
    rw [runTurns] at h
    split at h
    · exact runTurns_done h
    · exact turn_done h

/-- Every result of the engine. -/
theorem execute_suspended {n : ℕ} {ctx : ExecutionContext} {resumeFrom : Option (List String)} {w : W}
    {σ : Loop W} {r : ExecutionResult} (h : execute env plan n ctx resumeFrom w = .done r σ) :
    SuspendsAt plan r := by
  unfold execute at h
  simp only at h
  split_ifs at h
  split at h
  · cases h
  · exact runTurns_done h

end Engine

/-- The node under a known id is the first one of the document with that id. -/
theorem nodeById_of_lookup {x : String} {node : Dict} : ∀ {nodes : List (String × Dict)},
    (∀ q ∈ nodes, Dict.get q.2 "id" = .str q.1) → nodes.lookup x = some node →
    nodeById x (nodes.map (fun q => .obj q.2)) = .ok (some node)
  | [], _, h => by cases h
  | (y, d) :: nodes, hid, h => by
    have hy : Dict.get d "id" = .str y := hid (y, d) List.mem_cons_self
    rw [List.map_cons, nodeById]
    simp only [Json.asDict, bind, Except.bind, hy, Json.text]
    by_cases hx : y = x
    · subst hx
      rw [List.lookup_cons_self] at h
      obtain rfl := Option.some.inj h
      simp [pure, Except.pure]
    · rw [List.lookup_cons, beq_false_of_ne (Ne.symm hx)] at h
      rw [if_neg hx]
      exact nodeById_of_lookup (fun q hq => hid q (List.mem_cons_of_mem _ hq)) h

/-- `plan_source.get("nodes", [])` iterates over the documented nodes, where there are any. -/
theorem iter_nodes {doc : Dict} (h : (documentNodes doc).1 ≠ []) :
    (doc.getD "nodes" (.arr [])).iter = .ok (documentNodes doc).1 := by
  unfold documentNodes Dict.get at h ⊢
  unfold Dict.getD
  cases hv : doc.lookup "nodes" with
  | none => simp [hv, Json.or, Json.truthy, Json.list?] at h
  | some v =>
    simp only [hv, Option.getD_some] at h ⊢
    unfold Json.or at h ⊢
    split_ifs at h ⊢ with ht
    · cases v with
      | arr xs => cases xs <;> simp_all [Json.list?, Json.iter]
      | _ => simp [Json.list?] at h
    · simp [Json.list?] at h

section Persist

variable {p : Pinned} {plan : Plan} {x approvalId : String} {now : ℤ} {node : Dict}
  {approvals approvals' : String → Option Approval}

/-- The row is inserted unless there is one for its node. -/
theorem insertApproval_ok {row : Approval} (h : insertApproval row approvals = .ok approvals') :
    (approvals row.nodeId).isSome = true ∧ approvals' = approvals ∨
      approvals' = Function.update approvals row.nodeId (some row) := by
  unfold insertApproval at h
  split_ifs at h with hdue hrow hsome
  · exact Or.inl ⟨hsome, (Except.ok.inj h).symm⟩
  · exact Or.inr (Except.ok.inj h).symm

/-- The approval of the node is the one that was there, or a new request. -/
theorem persistApproval_keeps (h : persistApproval p (some x) approvalId now approvals = .ok approvals') :
    approvals' x = approvals x ∨ ∃ a, approvals' x = some a ∧ a.state = .requested := by
  unfold persistApproval at h
  by_cases hx : x = ""
  · simp only [if_pos hx] at h
    exact Or.inl (by rw [Except.ok.inj h])
  · simp only [if_neg hx] at h
    obtain ⟨found, -, h⟩ := bind_eq_ok.mp h
    split at h
    · exact Or.inl (by rw [pure_eq_ok.mp h])
    · rename_i node
      by_cases ht : NodeType.ofJson? (node.get "type") = some .approval
      · rw [if_pos ht] at h
        obtain ⟨a, ha, h⟩ := bind_eq_ok.mp h
        have ha := mapError_eq_ok.mp ha
        rcases insertApproval_ok h with ⟨-, rfl⟩ | rfl
        · exact Or.inl rfl
        · rw [newApproval_nodeId ha]
          exact Or.inr ⟨a, Function.update_self .., (newApproval_ok ha).1.1⟩
      · rw [if_neg ht] at h
        exact Or.inl (by rw [pure_eq_ok.mp h])

/-- `_persist_approval` for a node of the plan. -/
theorem persistApproval_eq (hc : Compiled p.planSource plan) (hl : plan.nodes.lookup x = some node) :
    persistApproval p (some x) approvalId now approvals =
      if NodeType.ofJson? (Dict.get node "type") = some .approval then
        (newApproval approvalId p.executionId x now node).mapError .python >>= (insertApproval · approvals)
      else .ok approvals := by
  obtain ⟨⟨hmem, -⟩, t, hok⟩ := hc.node hl
  have hids : ∀ q ∈ plan.nodes, Dict.get q.2 "id" = .str q.1 := fun q hq =>
    (hc.node (lookup_of_mem hc.ids_nodup hq)).1.2
  have hfind : nodeById x (documentNodes p.planSource).1 = .ok (some node) := by
    rw [hc.document]
    exact nodeById_of_lookup hids hl
  unfold persistApproval
  simp only [if_neg hok.id_ne, iter_nodes (List.ne_nil_of_mem hmem), hfind, bind, Except.bind, Except.mapError]
  rfl

/-- Suspended at an approval node, the execution has an approval. -/
theorem persistApproval_isSome (hc : Compiled p.planSource plan) (hl : plan.nodes.lookup x = some node)
    (ht : NodeType.ofJson? (Dict.get node "type") = some .approval)
    (h : persistApproval p (some x) approvalId now approvals = .ok approvals') : approvals' x ≠ none := by
  rw [persistApproval_eq hc hl, if_pos ht] at h
  obtain ⟨a, ha, h⟩ := bind_eq_ok.mp h
  have hx := newApproval_nodeId (mapError_eq_ok.mp ha)
  rcases insertApproval_ok h with ⟨hsome, rfl⟩ | rfl
  · exact Option.isSome_iff_ne_none.mp (hx ▸ hsome)
  · simp [hx]

/-- It goes through for a node that asks for no approval, or for one that can be stored. -/
theorem persistApproval_total (hc : Compiled p.planSource plan) (hl : plan.nodes.lookup x = some node)
    (hask : NodeType.ofJson? (Dict.get node "type") = some .approval → Requestable now node)
    (hfits : x.length ≤ 120) (approvalId : String) (approvals : String → Option Approval) :
    ∃ approvals', persistApproval p (some x) approvalId now approvals = .ok approvals' := by
  rw [persistApproval_eq hc hl]
  split_ifs with ht
  · obtain ⟨-, t, hok⟩ := hc.node hl
    obtain rfl := Option.some.inj (hok.type_eq.symm.trans ht)
    obtain ⟨path, check, hcheck, hnil⟩ := hok.branch
    obtain rfl := Except.ok.inj hcheck
    obtain ⟨row, hrow, hdue, hstorable⟩ := (hask ht).storable hnil hfits
    have hinsert : ∃ approvals', insertApproval row approvals = .ok approvals' := by
      unfold insertApproval
      simp only [hdue, hstorable, Bool.not_true, Bool.false_eq_true, if_false]
      split_ifs
      · exact ⟨_, rfl⟩
      · exact ⟨_, rfl⟩
    obtain ⟨approvals', hinsert⟩ := hinsert
    exact ⟨approvals', bind_eq_ok.mpr ⟨row, mapError_eq_ok.mpr hrow, hinsert⟩⟩
  · exact ⟨approvals, rfl⟩

/-- The last transaction goes through the insertion of the approval. -/
theorem persistApproval_of_run {r : ExecutionResult} (h : persistRun p r approvalId now approvals = .ok approvals') :
    persistApproval p r.waitingOn approvalId now approvals = .ok approvals' := by
  unfold persistRun at h
  split_ifs at h
  exact h

end Persist

/-! ## Wake-ups -/

/-- The read of `_resume_execution_once` is done, the kill check is next. -/
def TaskPc.isFound : TaskPc → Bool
  | .found _ => true
  | _ => false

/-- The task has neither returned nor been dead-lettered. -/
def TaskPc.inFlight : TaskPc → Bool
  | .returned | .dead => false
  | _ => true

namespace TaskState

/-- The approval of `waiting_on` is requested. -/
def requested (s : TaskState) : Bool :=
  s.row.waitingOn.any (fun x => (s.approvals x).any (fun a => a.state == .requested))

/-- Task `k` is a resume task that has not begun its run. -/
def pending (s : TaskState) (k : ℕ) : Bool := s.tasks[k]?.any (fun t => t.kind == .resume && t.pc.unstarted)

end TaskState

/-- A waiting execution has a `resume_at`, a requested approval, or a resume task in flight. -/
def Wakes (s : TaskState) : Prop :=
  s.row.state = .waiting → s.row.resumeAt ≠ none ∨ s.requested = true ∨
    ∃ t ∈ s.tasks, t.kind = .resume ∧ t.pc.inFlight = true

instance (s : TaskState) : Decidable (Wakes s) :=
  inferInstanceAs (Decidable (s.row.state = .waiting → s.row.resumeAt ≠ none ∨ s.requested = true ∨
    ∃ t ∈ s.tasks, t.kind = .resume ∧ t.pc.inFlight = true))

section Wakeups

variable {W : Type} (py : Interpreter) (env : Env W) (p : Pinned)

/-- The steps that may cost a waiting execution its wake-up do not: a resume task gives up at the kill check
only where `resume_at` is still there; a run suspends only with a continuation and at an approval that is
not resolved already; a sweep clears `resume_at` only while the task it has sent has not begun its run; and one that
has not is dead-lettered only where `resume_at` or the request is still there. -/
def KeepsWakeup (s : TaskState) : TaskStep W → Prop
  | .killCheck k up => s.tasks[k]?.any (·.pc.isFound) = true → (isKilled up p.tenantId none s.kill).1 = true →
      s.row.state = .waiting → s.row.resumeAt ≠ none
  | .commit k _ _ => ∀ t ∈ s.tasks[k]?, ∀ r ∈ t.pc.result?, r.state = .waiting →
      r.resumeNodes ≠ [] ∧ ∀ x ∈ r.waitingOn, ∀ a ∈ s.approvals x, a.state = .requested
  | .sweepCommit i => ∀ k ∈ s.sweeps[i]?, s.row.state = .waiting → s.row.resumeAt = none ∨ s.pending k = true
  | .fail k kind => s.pending k = true → (∀ t ∈ s.tasks[k]?, (t.raised kind).pc.inFlight = false) →
      s.row.state = .waiting → s.row.resumeAt ≠ none ∨ s.requested = true
  | _ => True

instance decidableKeepsWakeup (s : TaskState) : ∀ l : TaskStep W, Decidable (KeepsWakeup p s l)
  | .killCheck k up => inferInstanceAs (Decidable (s.tasks[k]?.any (·.pc.isFound) = true →
      (isKilled up p.tenantId none s.kill).1 = true → s.row.state = .waiting → s.row.resumeAt ≠ none))
  | .commit k _ _ => inferInstanceAs (Decidable (∀ t ∈ s.tasks[k]?, ∀ r ∈ t.pc.result?, r.state = .waiting →
      r.resumeNodes ≠ [] ∧ ∀ x ∈ r.waitingOn, ∀ a ∈ s.approvals x, a.state = .requested))
  | .sweepCommit i => inferInstanceAs (Decidable (∀ k ∈ s.sweeps[i]?, s.row.state = .waiting →
      s.row.resumeAt = none ∨ s.pending k = true))
  | .fail k kind => inferInstanceAs (Decidable (s.pending k = true →
      (∀ t ∈ s.tasks[k]?, (t.raised kind).pc.inFlight = false) → s.row.state = .waiting →
        s.row.resumeAt ≠ none ∨ s.requested = true))
  | .enqueue _ | .read _ | .start _ | .run _ _ _ _ | .redeliver _ | .decide _ _ | .sweepRead _
  | .engage _ _ | .release _ _ | .elapse _ => .isTrue trivial

/-- A waiting execution can be woken and continued; results not yet committed are results of the engine. -/
structure Wakeable (s : TaskState) : Prop where
  continues : s.row.state = .waiting → s.row.resumeNodes ≠ []
  approvable : s.row.state = .waiting → ∀ x a, s.row.waitingOn = some x → s.approvals x = some a →
    a.state = .requested ∨ a.state = .approved
  wakes : s.row.state = .waiting → s.row.resumeAt ≠ none ∨ s.requested = true ∨ ∃ k, s.pending k = true
  results : ∀ (k : ℕ) (t : Task) (r : ExecutionResult), s.tasks[k]? = some t → t.pc.result? = some r →
    ∃ plan, Compiled p.planSource plan ∧ SuspendsAt plan r

variable {p} {s s' : TaskState}

theorem pending_iff {k : ℕ} : s.pending k = true ↔
    ∃ t, s.tasks[k]? = some t ∧ t.kind = .resume ∧ t.pc.unstarted = true := by
  simp [TaskState.pending, Option.any_eq_true]

/-- The invariant gives what is claimed of a waiting execution. -/
theorem Wakeable.toWakes (h : Wakeable p s) : Wakes s := by
  intro hw
  refine (h.wakes hw).imp_right (Or.imp_right ?_)
  rintro ⟨k, hk⟩
  obtain ⟨t, ht, hkind, hpc⟩ := pending_iff.mp hk
  refine ⟨t, List.mem_of_getElem? ht, hkind, ?_⟩
  cases h : t.pc <;> simp_all [TaskPc.unstarted, TaskPc.inFlight]

/-- Only tasks changed: what was pending still is, or is not needed. -/
theorem Wakeable.of_tasks (h : Wakeable p s) (hrow : s'.row = s.row) (happ : s'.approvals = s.approvals)
    (hpend : s.row.state = .waiting → ∀ k, s.pending k = true →
      s.row.resumeAt ≠ none ∨ s.requested = true ∨ s'.pending k = true)
    (hres : ∀ (k : ℕ) (t : Task) (r : ExecutionResult), s'.tasks[k]? = some t → t.pc.result? = some r →
      ∃ plan, Compiled p.planSource plan ∧ SuspendsAt plan r) : Wakeable p s' := by
  have hreq : s'.requested = s.requested := by rw [TaskState.requested, TaskState.requested, hrow, happ]
  refine ⟨hrow ▸ h.continues, ?_, ?_, hres⟩
  · rw [hrow, happ]
    exact h.approvable
  · intro hw
    rw [hrow] at hw ⊢
    rw [hreq]
    rcases h.wakes hw with hr | hr | ⟨k, hk⟩
    · exact Or.inl hr
    · exact Or.inr (Or.inl hr)
    · exact (hpend hw k hk).imp_right (Or.imp_right (fun hk' => ⟨k, hk'⟩))

theorem Wakeable.of_concat (h : Wakeable p s) (t : Task) (ht : t.pc.result? = none) (sweeps : List ℕ) :
    Wakeable p { s with tasks := s.tasks ++ [t], sweeps } := by
  refine h.of_tasks rfl rfl (fun _ k hk => Or.inr (Or.inr ?_)) (fun k t' r hk hr => ?_)
  · obtain ⟨t', ht', hkind⟩ := pending_iff.mp hk
    exact pending_iff.mpr ⟨t', getElem?_concat_of_some ht', hkind⟩
  · rcases getElem?_concat_cases hk with rfl | hk
    · rw [ht] at hr
      cases hr
    · exact h.results k t' r hk hr

/-- Task `k` moves on, and was not pending, stays so, or is not needed. -/
theorem Wakeable.of_set (h : Wakeable p s) {k : ℕ} {t t' : Task} (ht : s.tasks[k]? = some t)
    (hsame : t'.kind = t.kind) (hpend : t.kind = .resume → t.pc.unstarted = true → t'.pc.unstarted = true ∨
      (s.row.state = .waiting → s.row.resumeAt ≠ none ∨ s.requested = true))
    (hres : ∀ r, t'.pc.result? = some r → ∃ plan, Compiled p.planSource plan ∧ SuspendsAt plan r)
    (kill : KillWorld) : Wakeable p { s with kill, tasks := s.tasks.set k t' } := by
  refine h.of_tasks rfl rfl ?_ ?_
  · intro hw j hj
    obtain ⟨u, hu, hkind, hun⟩ := pending_iff.mp hj
    by_cases hjk : j = k
    · subst hjk
      obtain rfl : t = u := Option.some.inj (ht.symm.trans hu)
      rcases hpend hkind hun with hpc | hother
      · exact Or.inr (Or.inr (pending_iff.mpr ⟨_, getElem?_set_of_some ht, hsame.trans hkind, hpc⟩))
      · exact (hother hw).imp_right Or.inl
    · refine Or.inr (Or.inr (pending_iff.mpr ⟨u, ?_, hkind, hun⟩))
      rw [List.getElem?_set_ne (Ne.symm hjk)]
      exact hu
  · intro j u r hj hr
    rcases getElem?_set_cases hj with ⟨-, rfl⟩ | ⟨-, hj⟩
    · exact hres r hr
    · exact h.results j u r hj hr

theorem Wakeable.of_move (h : Wakeable p s) {k : ℕ} {t : Task} {pc : TaskPc} (ht : s.tasks[k]? = some t)
    (hpend : t.kind = .resume → t.pc.unstarted = true → pc.unstarted = true ∨
      (s.row.state = .waiting → s.row.resumeAt ≠ none ∨ s.requested = true))
    (hres : ∀ r, pc.result? = some r → ∃ plan, Compiled p.planSource plan ∧ SuspendsAt plan r)
    (kill : KillWorld) : Wakeable p ({ s with kill }.move k t pc) :=
  h.of_set ht (show ({ t with pc } : Task).kind = t.kind from rfl) hpend hres kill

/-- A task that raises is pending again, or dead-lettered; it has no result. -/
theorem raised_cases (t : Task) (kind : ExceptionKind) : (t.raised kind).kind = t.kind ∧
    (t.raised kind).pc.result? = none ∧
      ((t.raised kind).pc.unstarted = true ∨ (t.raised kind).pc.inFlight = false) := by
  unfold Task.raised
  split_ifs
  · exact ⟨rfl, rfl, Or.inl rfl⟩
  · exact ⟨rfl, rfl, Or.inr rfl⟩

theorem Wakeable.of_fail (h : Wakeable p s) {k : ℕ} {t : Task} {kind : ExceptionKind} (ht : s.tasks[k]? = some t)
    (hpend : t.kind = .resume → t.pc.unstarted = true → (t.raised kind).pc.inFlight = false →
      s.row.state = .waiting → s.row.resumeAt ≠ none ∨ s.requested = true) :
    Wakeable p (s.fail k t kind) := by
  obtain ⟨hsame, hres, hpc⟩ := raised_cases t kind
  refine h.of_set ht hsame (fun hkind hun => hpc.imp_right (hpend hkind hun)) ?_ s.kill
  rw [hres]
  exact fun r hr => by cases hr

/-- An execution that is not waiting needs no wake-up. -/
theorem Wakeable.of_not_waiting (hw : s.row.state ≠ .waiting)
    (hres : ∀ (k : ℕ) (t : Task) (r : ExecutionResult), s.tasks[k]? = some t → t.pc.result? = some r →
      ∃ plan, Compiled p.planSource plan ∧ SuspendsAt plan r) : Wakeable p s :=
  ⟨fun h => absurd h hw, fun h => absurd h hw, fun h => absurd h hw, hres⟩

theorem results_move (h : Wakeable p s) (k : ℕ) (t : Task) {pc : TaskPc} (hpc : pc.result? = none) :
    ∀ (j : ℕ) (t' : Task) (r : ExecutionResult), (s.tasks.set k { t with pc })[j]? = some t' →
      t'.pc.result? = some r → ∃ plan, Compiled p.planSource plan ∧ SuspendsAt plan r := by
  intro j t' r hj hr
  rcases getElem?_set_cases hj with ⟨-, rfl⟩ | ⟨-, hj⟩
  · rw [show (({ t with pc } : Task).pc) = pc from rfl, hpc] at hr
    cases hr
  · exact h.results j t' r hj hr

/-- An early return of `_resume_execution_once` leaves another wake-up. -/
theorem continuation_none (h : Wakeable p s) (hc : s.continuation = none) (hw : s.row.state = .waiting) :
    s.requested = true := by
  unfold TaskState.continuation at hc
  simp only [hw, ne_eq, not_true_eq_false, if_false] at hc
  split_ifs at hc with hb
  · unfold TaskState.approvalBlocks at hb
    split at hb
    · cases hb
    · rename_i x hx
      simp only [Bool.and_eq_true, bne_iff_ne, ne_eq, Option.any_eq_true] at hb
      obtain ⟨-, a, ha, hstate⟩ := hb
      have hreq := (h.approvable hw x a hx ha).resolve_right hstate
      simp [TaskState.requested, hx, ha, hreq]
  · simp only [ExecutionRow.resumeFrom, hw, ne_eq, not_true_eq_false, if_false, if_neg (h.continues hw)] at hc
    cases hc

/-- The state of an approval after a call, by what the call resolves it to. -/
theorem decideApproval_state {a : Approval} {c : DecideCall} {o : DecideOutcome}
    (h : decideApproval a c = .ok o) : o.approval.state = o.resolved.getD a.state := by
  unfold decideApproval at h
  split at h
  · cases h
  · split_ifs at h
    · split at h
      · split_ifs at h
        rw [← Except.ok.inj h]
        rfl
      · cases h
    · rw [← Except.ok.inj h]
      exact withDecision_state _

theorem applyCall_state {nodeId : String} {a : Approval} (c : DecideCall) (ha : s.approvals nodeId = some a) :
    (applyCall a c).state = (s.resolves nodeId c).getD a.state := by
  unfold applyCall TaskState.resolves
  simp only [ha, Option.bind_some]
  cases hd : decideApproval a c with
  | error e => rfl
  | ok o => exact decideApproval_state hd

theorem resolvedState_cases (strategy : String) (quorum : ℤ) (assignees : List String)
    (decisions : List Decision) :
    resolvedState strategy quorum assignees decisions = some .approved ∨
      resolvedState strategy quorum assignees decisions = some .rejected ∨
      resolvedState strategy quorum assignees decisions = none := by
  unfold resolvedState
  simp only
  split_ifs <;> simp

/-- A call approves, rejects, or resolves nothing. -/
theorem resolves_cases (s : TaskState) (nodeId : String) (c : DecideCall) :
    s.resolves nodeId c = some .approved ∨ s.resolves nodeId c = some .rejected ∨ s.resolves nodeId c = none := by
  unfold TaskState.resolves
  cases s.approvals nodeId with
  | none => exact Or.inr (Or.inr rfl)
  | some a =>
    cases hd : decideApproval a c with
    | error e => exact Or.inr (Or.inr (by simp [hd, Except.toOption]))
    | ok o =>
      simp only [Option.bind_some, hd, Except.toOption]
      unfold decideApproval at hd
      split at hd
      · cases hd
      · split_ifs at hd
        · split at hd
          · split_ifs at hd
            rw [← Except.ok.inj hd]
            exact Or.inr (Or.inr rfl)
          · cases hd
        · rw [← Except.ok.inj hd]
          exact resolvedState_cases _ _ _ _

theorem engineRun_result {resumeFrom : Option (List String)} {startedAt : Instant} {turns : ℕ} {w : W}
    {pc : TaskPc} (h : engineRun py env p resumeFrom startedAt turns w = .ok pc) {r : ExecutionResult}
    (hr : pc.result? = some r) : ∃ plan, Compiled p.planSource plan ∧ SuspendsAt plan r := by
  unfold engineRun at h
  split at h
  · cases h
  · rename_i plan hplan
    split at h
    · rename_i result σ hrun
      obtain rfl := Except.ok.inj h
      obtain rfl := Option.some.inj hr
      exact ⟨plan, compileWorkflow_ok hplan, execute_suspended hrun⟩
    · rw [← Except.ok.inj h] at hr
      cases hr
    · cases h

/-- The commit of a result that suspends: the execution can be woken and continued. -/
theorem wakeable_commit (h : Wakeable p s) {k n : ℕ} {kind : TaskKind} {r : ExecutionResult}
    {approvalId : String} {now : ℤ} {approvals : String → Option Approval}
    (ht : s.tasks[k]? = some ⟨kind, .ran r, n⟩)
    (hpersist : persistApproval p r.waitingOn approvalId now s.approvals = .ok approvals)
    (hkeep : r.state = .waiting → r.resumeNodes ≠ [] ∧
      ∀ x ∈ r.waitingOn, ∀ a ∈ s.approvals x, a.state = .requested) :
    Wakeable p ({ s with row := .ofResult r, approvals }.move k ⟨kind, .ran r, n⟩ .returned) := by
  obtain ⟨plan, hc, hsus⟩ := h.results k _ r ht rfl
  by_cases hw : r.state = .waiting
  · obtain ⟨hcont, hopen⟩ := hkeep hw
    obtain ⟨x, node, hx, hl, hcase⟩ := hsus hw
    rw [hx] at hpersist
    -- whatever approval the node has now, it is requested
    have hreq : ∀ a, approvals x = some a → a.state = .requested := by
      intro a ha
      rcases persistApproval_keeps hpersist with hsame | ⟨b, hb, hstate⟩
      · exact hopen x hx a (hsame ▸ ha)
      · obtain rfl := Option.some.inj (ha.symm.trans hb)
        exact hstate
    refine ⟨fun _ => hcont, ?_, ?_, results_move h k _ rfl⟩
    · intro _ y a hy ha
      obtain rfl : x = y := Option.some.inj (hx.symm.trans hy)
      exact Or.inl (hreq a ha)
    · intro _
      rcases hcase with hresume | htype
      · exact Or.inl hresume
      · obtain ⟨a, ha⟩ := Option.ne_none_iff_exists'.mp (persistApproval_isSome hc hl htype hpersist)
        refine Or.inr (Or.inl ?_)
        simp [TaskState.requested, TaskState.move, ExecutionRow.ofResult, hx, ha, hreq a ha]
  · exact .of_not_waiting hw (results_move h k _ rfl)

theorem wakeable_decide (h : Wakeable p s) {nodeId : String} {a : Approval} (c : DecideCall)
    (ha : s.approvals nodeId = some a) : Wakeable p { s with
      row := TaskState.decided s.row c.moment (s.resolves nodeId c)
      approvals := Function.update s.approvals nodeId (some (applyCall a c)) } := by
  have hstate := applyCall_state c ha
  have hother : ∀ {x b}, Function.update s.approvals nodeId (some (applyCall a c)) x = some b →
      x = nodeId ∧ b = applyCall a c ∨ s.approvals x = some b := by
    intro x b hb
    by_cases hx : x = nodeId
    · subst hx
      rw [Function.update_self] at hb
      exact Or.inl ⟨rfl, (Option.some.inj hb).symm⟩
    · rw [Function.update_of_ne hx] at hb
      exact Or.inr hb
  rcases resolves_cases s nodeId c with hr | hr | hr <;> rw [hr] at hstate ⊢
  · -- approved: `resume_at` is set
    refine ⟨h.continues, ?_, fun _ => Or.inl (by simp [TaskState.decided]), h.results⟩
    intro hw x b hx hb
    rcases hother hb with ⟨-, rfl⟩ | hb
    · exact Or.inr hstate
    · exact h.approvable hw x b hx hb
  · exact .of_not_waiting (by simp [TaskState.decided]) h.results
  · -- nothing was resolved: the approval is as open as it was
    refine ⟨h.continues, ?_, ?_, h.results⟩
    · intro hw x b hx hb
      rcases hother hb with ⟨rfl, rfl⟩ | hb
      · rw [hstate]
        exact h.approvable hw x a hx ha
      · exact h.approvable hw x b hx hb
    · intro hw
      rcases h.wakes hw with hr | hr | hr
      · exact Or.inl hr
      · refine Or.inr (Or.inl ?_)
        simp only [TaskState.requested, Option.any_eq_true, beq_iff_eq] at hr ⊢
        obtain ⟨x, hx, b, hb, hreq⟩ := hr
        by_cases hxn : x = nodeId
        · subst hxn
          obtain rfl := Option.some.inj (ha.symm.trans hb)
          exact ⟨x, hx, _, Function.update_self .., hstate.trans hreq⟩
        · exact ⟨x, hx, b, by rw [Function.update_of_ne hxn]; exact hb, hreq⟩
      · exact Or.inr (Or.inr hr)

/-- **One step** that keeps the wake-up keeps the invariant. -/
theorem wakeable_step (h : Wakeable p s) (l : TaskStep W) (hl : KeepsWakeup p s l) :
    Wakeable p (s.step py env p l) := by
  cases l with
  | enqueue kind => exact h.of_concat _ rfl s.sweeps
  | read k =>
    simp only [TaskState.step]
    split
    · rename_i ht
      split
      · exact h.of_move ht (fun _ _ => Or.inl rfl) (fun r hr => by cases hr) s.kill
      · rename_i hc
        exact h.of_move ht (fun _ _ => Or.inr (fun hw => Or.inr (continuation_none h hc hw)))
          (fun r hr => by cases hr) s.kill
    · exact h
  | killCheck k up =>
    simp only [TaskState.step]
    split
    · rename_i ht
      exact h.of_move ht (fun hk => by cases hk) (fun r hr => by split_ifs at hr <;> cases hr) _
    · rename_i r₀ n ht
      refine h.of_move ht (fun _ _ => ?_) (fun r hr => by split_ifs at hr <;> cases hr) _
      by_cases hkill : (isKilled up p.tenantId none s.kill).1 = true
      · exact Or.inr (fun hw => Or.inl (hl (by rw [ht]; rfl) hkill hw))
      · rw [if_neg hkill]
        exact Or.inl rfl
    · exact h
  | start k =>
    simp only [TaskState.step]
    split
    · split_ifs with hterm
      · refine .of_not_waiting ?_ (results_move h k _ rfl)
        intro hw
        rw [show s.row.state = .waiting from hw] at hterm
        cases hterm
      · exact .of_not_waiting (by simp [TaskState.move]) (results_move h k _ rfl)
    · exact h
  | run k startedAt turns w =>
    simp only [TaskState.step]
    split
    · rename_i ht
      split
      · rename_i hrun
        exact h.of_move ht (fun _ hun => by cases hun) (fun r hr => engineRun_result py env hrun hr) s.kill
      · exact h.of_fail ht (fun _ hun => by cases hun)
    · exact h
  | commit k approvalId now =>
    simp only [TaskState.step]
    split
    · rename_i kind r n ht
      split
      · exact h.of_fail ht (fun _ hun => by cases hun)
      · rename_i hpersist
        exact wakeable_commit h ht (persistApproval_of_run hpersist) (hl _ ht r rfl)
    · exact h
  | redeliver k =>
    simp only [TaskState.step]
    split
    · exact h
    · exact h
    · rename_i ht
      exact h.of_move ht (fun _ _ => Or.inl rfl) (fun r hr => by cases hr) s.kill
    · exact h
  | fail k kind =>
    simp only [TaskState.step]
    split
    · exact h
    · exact h
    · rename_i t _ _ ht
      refine h.of_fail ht fun hkind hun hdead hw => ?_
      refine hl (pending_iff.mpr ⟨t, ht, hkind, hun⟩) ?_ hw
      intro t' ht'
      rw [ht] at ht'
      rw [← Option.some.inj ht']
      exact hdead
    · exact h
  | decide nodeId call =>
    simp only [TaskState.step]
    split
    · exact h
    · exact wakeable_decide h call ‹_›
  | sweepRead now =>
    simp only [TaskState.step]
    split_ifs
    · exact h.of_concat _ rfl _
    · exact h
  | sweepCommit i =>
    simp only [TaskState.step]
    split
    · rename_i k hk
      refine ⟨h.continues, h.approvable, ?_, h.results⟩
      intro hw
      rcases hl k hk hw with hnone | hpend
      · exact (h.wakes hw).imp_left (fun hc => absurd hnone hc)
      · exact Or.inr (Or.inr ⟨k, hpend⟩)
    · exact h
  | engage up scope =>
    simp only [TaskState.step]
    split
    · exact ⟨h.continues, h.approvable, h.wakes, h.results⟩
    · exact h
  | release up scope =>
    simp only [TaskState.step]
    split
    · exact ⟨h.continues, h.approvable, h.wakes, h.results⟩
    · exact h
  | elapse d => exact ⟨h.continues, h.approvable, h.wakes, h.results⟩

variable (p)

/-- **No wake-up is lost** along a run whose steps keep it, in any state it reaches. -/
theorem wakeups_kept (kill : KillWorld) (steps : List (TaskStep W))
    (h : Meets (TaskState.step py env p) (KeepsWakeup p) (.initial kill) steps) :
    Always (TaskState.step py env p) Wakes (.initial kill) steps := by
  have hinitial : Wakeable p (.initial kill) :=
    .of_not_waiting (by simp [TaskState.initial]) (by simp [TaskState.initial])
  exact always_of_inv (Wakeable p) (fun s hs => hs.toWakes)
    (fun s l hs hl => wakeable_step py env hs l hl) steps _ hinitial h

end Wakeups

/-- A task after a delay of a minute. -/
def pauseDocument : Dict :=
  [("name", .str "Pause"), ("trigger", .obj [("type", .str "manual")]),
    ("nodes", .arr [
      .obj [("id", .str "pause"), ("type", .str "delay"), ("delay_seconds", .int 60)],
      .obj [("id", .str "call"), ("type", .str "action"), ("action", .str "task.create")]]),
    ("edges", .arr [.obj [("source", .str "pause"), ("target", .str "call")]])]

/-- The execution pauses, and the sweep sends the task that wakes it. -/
def sweptRun : List (TaskStep Unit) :=
  .enqueue .execute :: engineSteps 0 ++ [.commit 0 "approval" 0, .sweepRead (seconds 60), .sweepCommit 0]

/-- The swept execution is resumed and completes; at no point is it waiting without a wake-up. -/
theorem swept_run_wakes : Always (TaskState.step plainInterpreter calmEnv (pinnedTo pauseDocument)) Wakes
    (.initial freshWorld) (sweptRun ++ (.read 1 :: engineSteps 1 ++ [.commit 1 "approval" 0])) :=
  wakeups_kept _ _ _ _ _ (by decide +kernel)

/-- The task returns at an engaged kill switch, after the sweep has cleared `resume_at`. -/
theorem killed_wakeup_lost : ¬ ∀ (kill : KillWorld) (steps : List (TaskStep Unit)),
    Always (TaskState.step plainInterpreter calmEnv (pinnedTo pauseDocument)) Wakes (.initial kill) steps := by
  intro h
  have hlast := always_last (h freshWorld (sweptRun ++ [.engage true none, .read 1, .killCheck 1 true]))
  revert hlast
  decide +kernel

end RevenueOS.Workflows
