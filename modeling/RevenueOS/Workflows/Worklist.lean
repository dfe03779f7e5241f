import Mathlib.Algebra.Order.BigOperators.Group.List
import RevenueOS.Workflows.Gating

/-!
# RevenueOS.Workflows.Worklist — the loop of the engine comes to an end

`while queue` of `execute`, for any plan, in any environment: nodes may be missing, edges may be doubled or go round
in circles, loops may be nested.  Every turn spends a visit of a node that is no loop, or one of the iterations of a
loop, or it only makes the queue shorter.

* `turn_more`: what a turn after which the loop goes on can have done.
* `worklist_terminates`: the loop ends; a node that is no loop is processed once, a loop is expanded no more often than
  its limit allows.
-/

namespace RevenueOS.Workflows

open RevenueOS.Py RevenueOS.Lib

variable {W : Type}

/-! ## What a run has done -/

section Run

variable (env : Env W) (plan : Plan) (n : ℕ) (ctx : ExecutionContext) (resumeFrom : Option (List String)) (w : W)

/-- The nodes whose body `execute` has run, in order. -/
def processed : List String := (execute env plan n ctx resumeFrom w).loop.ran

/-- The loop nodes whose successors `execute` has queued, in order. -/
def expansions : List String := (execute env plan n ctx resumeFrom w).loop.expanded

end Run

section Trail

variable (env : Env W) (plan : Plan) (deadline : Instant)

/-- The node whose body a turn runs: the first of the queue, unless the turn ends the run or skips the node. -/
def taken (σ : Loop W) : Option String :=
  match σ.queue with
  | [] => none
  | nodeId :: _ =>
    let (killed, w) := env.killed σ.context σ.world
    if killed then none
    else if deadline < (env.utcnow w).1 then none
    else if nodeId ∈ σ.visited ∧ plan.typeOf nodeId ≠ some .loop then none
    else if (plan.nodes.lookup nodeId).isNone then none
    else some nodeId

/-- The number of times that a loop node may still be expanded. -/
def iterationsLeft (σ : Loop W) (x : String) : ℕ :=
  match (plan.nodes.lookup x).map loopLimit with
  | some (.ok limit) => (limit - (σ.loopCounts.lookup x).getD 0).toNat
  | _ => 0

/-- The loop node whose successors a turn queues. -/
def expanded (σ : Loop W) : Option String :=
  (taken env plan deadline σ).filter fun x => plan.typeOf x = some .loop ∧ 0 < iterationsLeft plan σ x

/-- What the turns of a run have of some kind, in order, of at most `n` turns. -/
def trail (kind : Loop W → Option String) : ℕ → Loop W → List String
  | 0, _ => []
  | n + 1, σ =>
    (kind σ).toList ++
      match turn env plan deadline σ with
      | .more σ' => trail kind n σ'
      | _ => []

end Trail

/-! ## What a turn may do -/

section Turns

variable {env : Env W} {plan : Plan} {deadline : Instant} {σ σ' : Loop W} {x : String} {node : Dict}

theorem extend_eq_more {r : Except PyError (List String)} :
    σ.extend r = .more σ' ↔ ∃ next, r = .ok next ∧ σ' = { σ with queue := σ.queue ++ next } := by
  cases r with
  | ok next => simp [Loop.extend, eq_comm]
  | error e => simp [Loop.extend]

/-- A node was processed, and the run goes on. -/
structure Follows (σ σ' : Loop W) : Prop where
  queue : ∃ next, σ'.queue = σ.queue ++ next
  visited : σ'.visited = σ.visited
  counts : σ'.loopCounts = σ.loopCounts

theorem follows_extend {σ₀ : Loop W} {r : Except PyError (List String)} (h : σ.extend r = .more σ')
    (hq : σ.queue = σ₀.queue) (hv : σ.visited = σ₀.visited) (hc : σ.loopCounts = σ₀.loopCounts) : Follows σ₀ σ' := by
  obtain ⟨next, -, rfl⟩ := extend_eq_more.mp h
  exact ⟨⟨next, by rw [← hq]⟩, hv, hc⟩

theorem processCondition_more (h : processCondition plan x node σ = .more σ') : Follows σ σ' := by
  unfold processCondition at h
  split at h
  · cases h
  · exact follows_extend h rfl rfl rfl

theorem processDelay_not_more : processDelay env plan x node σ ≠ .more σ' := by
  intro h
  unfold processDelay at h
  split at h
  · cases h
  · dsimp only at h
    split at h <;> cases h

theorem processApproval_not_more : processApproval plan x σ ≠ .more σ' := by
  intro h
  unfold processApproval at h
  dsimp only at h
  split at h <;> cases h

theorem processAction_more (h : processAction env plan x node σ = .more σ') : Follows σ σ' := by
  unfold processAction at h
  dsimp only at h
  split at h
  · cases h
  · split_ifs at h
    exact follows_extend h rfl rfl rfl

/-- A node that is no loop. -/
theorem processNode_more (ht : plan.typeOf x ≠ some .loop) (h : processNode env plan x σ = .more σ') :
    Follows σ σ' := by
  unfold processNode at h
  split at h
  · obtain rfl := Turn.more.inj h
    exact ⟨⟨[], (List.append_nil _).symm⟩, rfl, rfl⟩
  · next node hl =>
    split at h
    · obtain ⟨hqueue, hvisited, hcounts⟩ := processCondition_more h
      exact ⟨hqueue, hvisited, hcounts⟩
    · exact absurd h processDelay_not_more
    · exact absurd h processApproval_not_more
    · next hloop => exact absurd (by rw [Plan.typeOf, hl]; exact hloop) ht
    · exact follows_extend h rfl rfl rfl
    · obtain ⟨hqueue, hvisited, hcounts⟩ := processAction_more h
      exact ⟨hqueue, hvisited, hcounts⟩
    · exact follows_extend h rfl rfl rfl

/-- A loop node, beyond its limit or within it. -/
theorem processLoop_more (h : processLoop plan x node σ = .more σ') :
    ∃ limit, loopLimit node = .ok limit ∧
      σ'.loopCounts = (x, (σ.loopCounts.lookup x).getD 0 + 1) :: σ.loopCounts ∧
      ((limit < (σ.loopCounts.lookup x).getD 0 + 1 ∧ σ'.queue = σ.queue ∧ σ'.visited = σ.visited) ∨
        ((σ.loopCounts.lookup x).getD 0 + 1 ≤ limit ∧ (∃ next, σ'.queue = σ.queue ++ next) ∧
          σ'.visited = σ.visited.filter (· != x))) := by
  unfold processLoop at h
  split at h
  · cases h
  · next limit hlimit =>
    dsimp only at h
    refine ⟨limit, hlimit, ?_⟩
    split_ifs at h with hover hstop
    · obtain rfl := Turn.more.inj h
      exact ⟨rfl, .inl ⟨hover, rfl, rfl⟩⟩
    · obtain ⟨next, -, rfl⟩ := extend_eq_more.mp h
      exact ⟨rfl, .inr ⟨not_lt.mp hover, ⟨next, rfl⟩, rfl⟩⟩

/-- What a turn that does not end the run has done with the first node `x` of the queue. -/
inductive Progressed (env : Env W) (plan : Plan) (deadline : Instant) (σ σ' : Loop W) (x : String) (rest : List String) :
    Prop
  | skipped (seen : x ∈ σ.visited) (taken : taken env plan deadline σ = none) (queue : σ'.queue = rest)
    (visited : σ'.visited = σ.visited) (counts : σ'.loopCounts = σ.loopCounts)
  | absent (taken : taken env plan deadline σ = none) (queue : σ'.queue = rest)
    (visited : σ'.visited = insertId σ.visited x) (counts : σ'.loopCounts = σ.loopCounts)
  | visited (present : (plan.nodes.lookup x).isSome = true) (type : plan.typeOf x ≠ some .loop) (fresh : x ∉ σ.visited)
    (taken : taken env plan deadline σ = some x) (queue : ∃ next, σ'.queue = rest ++ next)
    (visited : σ'.visited = insertId σ.visited x) (counts : σ'.loopCounts = σ.loopCounts)
  | exhausted (type : plan.typeOf x = some .loop) (taken : taken env plan deadline σ = some x)
    (spent : iterationsLeft plan σ x = 0) (queue : σ'.queue = rest) (visited : σ'.visited = insertId σ.visited x)
    (counts : σ'.loopCounts = (x, (σ.loopCounts.lookup x).getD 0 + 1) :: σ.loopCounts)
  | iterated (type : plan.typeOf x = some .loop) (taken : taken env plan deadline σ = some x)
    (left : 0 < iterationsLeft plan σ x) (queue : ∃ next, σ'.queue = rest ++ next)
    (visited : σ'.visited = (insertId σ.visited x).filter (· != x))
    (counts : σ'.loopCounts = (x, (σ.loopCounts.lookup x).getD 0 + 1) :: σ.loopCounts)

theorem iterationsLeft_of_lookup {limit : ℤ} (hl : plan.nodes.lookup x = some node) (hlimit : loopLimit node = .ok limit) :
    iterationsLeft plan σ x = (limit - (σ.loopCounts.lookup x).getD 0).toNat := by
  simp only [iterationsLeft, hl, Option.map_some, hlimit]

/-- **One turn** after which the run goes on. -/
theorem turn_more (h : turn env plan deadline σ = .more σ') :
    ∃ x rest, σ.queue = x :: rest ∧ Progressed env plan deadline σ σ' x rest := by
  unfold turn at h
  cases hq : σ.queue with
  | nil =>
    rw [hq] at h
    cases h
  | cons x rest =>
    refine ⟨x, rest, rfl, ?_⟩
    rw [hq] at h
    dsimp only at h
    split_ifs at h with hkilled hlate hskip
    · obtain rfl := Turn.more.inj h
      have htaken : taken env plan deadline σ = none := by
        simp only [taken, hq]
        rw [if_neg hkilled, if_neg hlate, if_pos hskip]
      exact .skipped hskip.1 htaken rfl rfl rfl
    · have htaken : taken env plan deadline σ = if (plan.nodes.lookup x).isNone then none else some x := by
        simp only [taken, hq]
        rw [if_neg hkilled, if_neg hlate, if_neg hskip]
      cases hl : plan.nodes.lookup x with
      | none =>
        rw [hl] at htaken
        simp only [processNode, hl] at h
        obtain rfl := Turn.more.inj h
        exact .absent htaken rfl rfl rfl
      | some node =>
        rw [hl] at htaken
        by_cases ht : plan.typeOf x = some .loop
        · have ht' : NodeType.ofJson? (Dict.get node "type") = some .loop := by
            rw [Plan.typeOf, hl] at ht
            exact ht
          simp only [processNode, hl, ht'] at h
          obtain ⟨limit, hlimit, hcounts, ⟨hover, hqueue, hvisited⟩ | ⟨hwithin, hqueue, hvisited⟩⟩ := processLoop_more h
          · refine .exhausted ht htaken ?_ hqueue hvisited hcounts
            rw [iterationsLeft_of_lookup hl hlimit]
            dsimp only [Loop.enter] at hover
            omega
          · refine .iterated ht htaken ?_ hqueue hvisited hcounts
            rw [iterationsLeft_of_lookup hl hlimit]
            dsimp only [Loop.enter] at hwithin
            omega
        · obtain ⟨hqueue, hvisited, hcounts⟩ := processNode_more ht h
          have hfresh : x ∉ σ.visited := fun hv => hskip ⟨hv, ht⟩
          exact .visited (by rw [hl]; rfl) ht hfresh htaken hqueue hvisited hcounts

/-! ## What a turn records -/

/-- What is appended to the record of a run. -/
structure Logged (σ σ' : Loop W) (ran expanded : List String) : Prop where
  ran : σ'.ran = σ.ran ++ ran
  expanded : σ'.expanded = σ.expanded ++ expanded

theorem Logged.refl (σ : Loop W) : Logged σ σ [] [] := ⟨(List.append_nil _).symm, (List.append_nil _).symm⟩

theorem Logged.trans {σ'' : Loop W} {ran expanded ran' expanded' : List String} (h : Logged σ σ' ran expanded)
    (h' : Logged σ' σ'' ran' expanded') : Logged σ σ'' (ran ++ ran') (expanded ++ expanded') :=
  ⟨by rw [h'.ran, h.ran, List.append_assoc], by rw [h'.expanded, h.expanded, List.append_assoc]⟩

theorem logged_extend {σ₀ : Loop W} {ran expanded : List String} (h : Logged σ₀ σ ran expanded)
    (r : Except PyError (List String)) : Logged σ₀ (σ.extend r).loop ran expanded := by
  cases r with
  | ok next => exact ⟨h.ran, h.expanded⟩
  | error e => exact h

theorem processCondition_logged : Logged σ (processCondition plan x node σ).loop [] [] := by
  unfold processCondition
  split
  · exact .refl σ
  · have h := Logged.refl σ
    refine logged_extend ?_ _
    exact ⟨h.ran, h.expanded⟩

theorem processDelay_logged : Logged σ (processDelay env plan x node σ).loop [] [] := by
  have h := Logged.refl σ
  unfold processDelay
  split
  · exact h
  · dsimp only
    split <;> exact ⟨h.ran, h.expanded⟩

theorem processApproval_logged : Logged σ (processApproval plan x σ).loop [] [] := by
  have h := Logged.refl σ
  unfold processApproval
  dsimp only
  split <;> exact ⟨h.ran, h.expanded⟩

theorem processAction_logged : Logged σ (processAction env plan x node σ).loop [] [] := by
  have h := Logged.refl σ
  unfold processAction
  dsimp only
  split
  · exact ⟨h.ran, h.expanded⟩
  · split_ifs
    · exact ⟨h.ran, h.expanded⟩
    · refine logged_extend ?_ _
      exact ⟨h.ran, h.expanded⟩

/-- A loop node is on record as expanded if it had an iteration left. -/
theorem processLoop_logged (hl : plan.nodes.lookup x = some node) : Logged σ (processLoop plan x node σ).loop []
    (if 0 < iterationsLeft plan σ x then [x] else []) := by
  have h := Logged.refl σ
  unfold processLoop
  cases hlimit : loopLimit node with
  | error e =>
    have hspent : iterationsLeft plan σ x = 0 := by simp only [iterationsLeft, hl, Option.map_some, hlimit]
    rw [hspent, if_neg (lt_irrefl 0)]
    exact h
  | ok limit =>
    dsimp only
    rw [iterationsLeft_of_lookup hl hlimit]
    by_cases hover : limit < (σ.loopCounts.lookup x).getD 0 + 1
    · rw [if_pos hover, if_neg (show ¬0 < (limit - (σ.loopCounts.lookup x).getD 0).toNat by omega)]
      split_ifs <;> exact ⟨h.ran, h.expanded⟩
    · rw [if_neg hover, if_pos (show 0 < (limit - (σ.loopCounts.lookup x).getD 0).toNat by omega)]
      refine logged_extend ?_ _
      exact ⟨h.ran, rfl⟩

theorem processNode_logged : Logged σ (processNode env plan x σ).loop
    (if (plan.nodes.lookup x).isNone then [] else [x])
    (if plan.typeOf x = some .loop ∧ 0 < iterationsLeft plan σ x then [x] else []) := by
  unfold processNode
  cases hl : plan.nodes.lookup x with
  | none =>
    have ht : plan.typeOf x ≠ some .loop := by
      rw [Plan.typeOf, hl]
      exact nofun
    rw [if_neg fun h : _ ∧ _ => ht h.1]
    exact .refl σ
  | some node =>
    have htype : plan.typeOf x = NodeType.ofJson? (Dict.get node "type") := by
      rw [Plan.typeOf, hl]
      rfl
    have henter : ∀ {σ' : Loop W} {expanded : List String}, Logged (σ.enter x) σ' [] expanded →
        Logged σ σ' [x] expanded := fun h => ⟨h.ran.trans (List.append_nil _), h.expanded⟩
    have hother : plan.typeOf x ≠ some .loop → ∀ {σ' : Loop W}, Logged (σ.enter x) σ' [] [] →
        Logged σ σ' [x] (if plan.typeOf x = some .loop ∧ 0 < iterationsLeft plan σ x then [x] else []) := by
      intro ht σ' h
      rw [if_neg fun hc => ht hc.1]
      exact henter h
    have hran : (if (some node).isNone then [] else [x]) = [x] := rfl
    rw [htype] at hother ⊢
    rw [hran]
    dsimp only
    split
    · next ht => exact hother (by rw [ht]; decide) processCondition_logged
    · next ht => exact hother (by rw [ht]; decide) processDelay_logged
    · next ht => exact hother (by rw [ht]; decide) processApproval_logged
    · next ht =>
      have h := henter (@processLoop_logged _ plan (σ.enter x) x node hl)
      rw [ht, if_congr (and_iff_right rfl) rfl rfl]
      exact h
    · next ht =>
      have h := Logged.refl (σ.enter x)
      refine hother (by rw [ht]; decide) (logged_extend ?_ _)
      exact ⟨h.ran, h.expanded⟩
    · next ht => exact hother (by rw [ht]; decide) processAction_logged
    · next hloop _ _ => exact hother hloop (logged_extend (.refl _) _)

/-- What one turn records is the node that it takes. -/
theorem turn_logged : Logged σ (turn env plan deadline σ).loop (taken env plan deadline σ).toList
    (expanded env plan deadline σ).toList := by
  have h := Logged.refl σ
  unfold expanded taken turn
  cases hq : σ.queue with
  | nil => exact h
  | cons x rest =>
    dsimp only
    split_ifs with hkilled hlate hskip hnone
    · exact ⟨h.ran, h.expanded⟩
    · exact ⟨h.ran, h.expanded⟩
    · exact ⟨h.ran, h.expanded⟩
    all_goals
      generalize hσ : ({ σ with queue := rest, world := _, visited := insertId σ.visited x } : Loop W) = σ₁
      have hlogged := @processNode_logged W env plan σ₁ x
      have hleft : iterationsLeft plan σ₁ x = iterationsLeft plan σ x := by
        rw [← hσ]
        rfl
      rw [hleft] at hlogged
      subst hσ
    · have hloop : plan.typeOf x ≠ some .loop := by
        rw [Plan.typeOf, Option.isNone_iff_eq_none.mp hnone]
        exact nofun
      rw [if_pos hnone, if_neg fun hc => hloop hc.1] at hlogged
      exact ⟨hlogged.ran, hlogged.expanded⟩
    · rw [if_neg hnone] at hlogged
      refine ⟨hlogged.ran, hlogged.expanded.trans (congrArg (σ.expanded ++ ·) ?_)⟩
      rw [Option.filter_some]
      simp only [decide_eq_true_iff]
      split_ifs <;> rfl

/-! ## The measure -/

/-- What is left of a node: the visit of one that is no loop, the iterations of a loop. -/
def budget (plan : Plan) (σ : Loop W) (x : String) : ℕ :=
  if plan.typeOf x = some .loop then iterationsLeft plan σ x else if x ∈ σ.visited then 0 else 1

theorem iterationsLeft_cons {y : String} {c : ℤ} (hc : (σ.loopCounts.lookup x).getD 0 < c)
    (h : σ'.loopCounts = (x, c) :: σ.loopCounts) : iterationsLeft plan σ' y ≤ iterationsLeft plan σ y ∧
      (0 < iterationsLeft plan σ x → iterationsLeft plan σ' x < iterationsLeft plan σ x) := by
  unfold iterationsLeft
  rw [h]
  constructor
  · split
    · by_cases hy : y = x
      · subst hy
        rw [List.lookup_cons_self, Option.getD_some]
        omega
      · have hne : (y == x) = false := beq_false_of_ne hy
        rw [List.lookup_cons, hne]
    · exact le_refl 0
  · intro hpos
    rw [List.lookup_cons_self, Option.getD_some]
    split at hpos
    · omega
    · exact absurd hpos (lt_irrefl 0)

theorem iterationsLeft_congr (h : σ'.loopCounts = σ.loopCounts) : iterationsLeft plan σ' x = iterationsLeft plan σ x := by
  unfold iterationsLeft
  rw [h]

theorem budget_mono {y : String} (hleft : iterationsLeft plan σ' y ≤ iterationsLeft plan σ y)
    (hvisited : plan.typeOf y ≠ some .loop → y ∈ σ.visited → y ∈ σ'.visited) : budget plan σ' y ≤ budget plan σ y := by
  unfold budget
  by_cases hloop : plan.typeOf y = some .loop
  · rw [if_pos hloop, if_pos hloop]
    exact hleft
  · rw [if_neg hloop, if_neg hloop]
    by_cases hy : y ∈ σ.visited
    · rw [if_pos hy, if_pos (hvisited hloop hy)]
    · rw [if_neg hy]
      split_ifs <;> omega

/-- A turn gives no node more than it had. -/
theorem budget_le {rest : List String} (h : Progressed env plan deadline σ σ' x rest) (y : String) :
    budget plan σ' y ≤ budget plan σ y := by
  have hinsert : σ'.visited = insertId σ.visited x → y ∈ σ.visited → y ∈ σ'.visited := by
    intro heq hy
    rw [heq]
    exact mem_insertId.mpr (.inl hy)
  cases h with
  | skipped _ _ _ hvisited hcounts =>
    exact budget_mono (iterationsLeft_congr hcounts).le fun _ hy => hvisited ▸ hy
  | absent _ _ hvisited hcounts => exact budget_mono (iterationsLeft_congr hcounts).le fun _ => hinsert hvisited
  | visited _ _ _ _ _ hvisited hcounts =>
    exact budget_mono (iterationsLeft_congr hcounts).le fun _ => hinsert hvisited
  | exhausted _ _ _ _ hvisited hcounts =>
    exact budget_mono (iterationsLeft_cons (lt_add_one _) hcounts).1 fun _ => hinsert hvisited
  | iterated ht _ _ _ hvisited hcounts =>
    refine budget_mono (iterationsLeft_cons (lt_add_one _) hcounts).1 fun hloop hy => ?_
    have hne : y ≠ x := by
      rintro rfl
      exact hloop ht
    rw [hvisited, List.mem_filter]
    exact ⟨mem_insertId.mpr (.inl hy), bne_iff_ne.mpr hne⟩

theorem budget_of_fresh (ht : plan.typeOf x ≠ some .loop) (hfresh : x ∉ σ.visited) : budget plan σ x = 1 := by
  rw [budget, if_neg ht, if_neg hfresh]

/-- A node that is processed and had something left spends it. -/
theorem budget_lt {rest : List String} (h : Progressed env plan deadline σ σ' x rest)
    (htaken : taken env plan deadline σ = some x) (hpos : 0 < budget plan σ x) :
    budget plan σ' x < budget plan σ x := by
  cases h with
  | skipped _ hnone =>
    rw [htaken] at hnone
    cases hnone
  | absent hnone =>
    rw [htaken] at hnone
    cases hnone
  | visited _ ht hfresh _ _ hvisited =>
    have hnow : x ∈ σ'.visited := hvisited ▸ mem_insertId.mpr (.inr rfl)
    rw [budget_of_fresh ht hfresh, budget, if_neg ht, if_pos hnow]
    exact Nat.one_pos
  | exhausted ht _ hspent =>
    rw [budget, if_pos ht, hspent] at hpos
    exact absurd hpos (lt_irrefl 0)
  | iterated ht _ hleft _ _ hcounts =>
    rw [budget, budget, if_pos ht, if_pos ht]
    exact (@iterationsLeft_cons _ plan σ σ' x x _ (lt_add_one _) hcounts).2 hleft

/-- A turn makes the queue shorter, or spends something of a node of the plan. -/
theorem queue_or_budget {rest : List String} (hq : σ.queue = x :: rest)
    (h : Progressed env plan deadline σ σ' x rest) :
    σ'.queue.length < σ.queue.length ∨ x ∈ plan.nodes.map (·.1) ∧ budget plan σ' x < budget plan σ x := by
  have hshorter : σ'.queue = rest → σ'.queue.length < σ.queue.length := by
    intro heq
    rw [heq, hq, List.length_cons]
    exact Nat.lt_succ_self _
  have hmem : (plan.nodes.lookup x).isSome = true → x ∈ plan.nodes.map (·.1) := by
    intro hsome
    obtain ⟨node, hl⟩ := Option.isSome_iff_exists.mp hsome
    exact List.mem_map.mpr ⟨(x, node), mem_of_lookup hl, rfl⟩
  have hspends := budget_lt h
  cases h with
  | skipped _ _ hqueue => exact .inl (hshorter hqueue)
  | absent _ hqueue => exact .inl (hshorter hqueue)
  | exhausted _ _ _ hqueue => exact .inl (hshorter hqueue)
  | visited hpresent ht hfresh htaken =>
    exact .inr ⟨hmem hpresent, hspends htaken (by rw [budget_of_fresh ht hfresh]; exact Nat.one_pos)⟩
  | iterated ht htaken hleft =>
    have hpresent : (plan.nodes.lookup x).isSome = true := by
      by_contra hnone
      rw [Option.not_isSome_iff_eq_none] at hnone
      rw [iterationsLeft, hnone] at hleft
      exact absurd hleft (lt_irrefl 0)
    exact .inr ⟨hmem hpresent, hspends htaken (by rw [budget, if_pos ht]; exact hleft)⟩

/-- What is left of the whole plan. -/
def totalBudget (plan : Plan) (σ : Loop W) : ℕ := ((plan.nodes.map (·.1)).map (budget plan σ)).sum

/-- **Termination**: by what is left of the plan, and by the queue where that stays. -/
theorem runTurns_finite (env : Env W) (plan : Plan) (deadline : Instant) : ∀ (left queued : ℕ) (σ : Loop W),
    totalBudget plan σ ≤ left → σ.queue.length ≤ queued → ∃ n, ∀ σ', runTurns env plan deadline n σ ≠ .more σ' := by
  intro left
  induction left using Nat.strong_induction_on with
  | _ left ihleft =>
    intro queued
    induction queued with
    | zero =>
      intro σ _ hqueued
      have hq : σ.queue = [] := List.eq_nil_of_length_eq_zero (by omega)
      exact ⟨1, fun σ' h => by simp [runTurns, turn, hq] at h⟩
    | succ queued ihqueued =>
      intro σ hleft hqueued
      cases hturn : turn env plan deadline σ with
      | done r σ₁ => exact ⟨1, fun σ' h => by simp [runTurns, hturn] at h⟩
      | raised e σ₁ => exact ⟨1, fun σ' h => by simp [runTurns, hturn] at h⟩
      | more σ₁ =>
        obtain ⟨x, rest, hq, hstep⟩ := turn_more hturn
        have hle : totalBudget plan σ₁ ≤ totalBudget plan σ := List.sum_le_sum fun y _ => budget_le hstep y
        have hnext : ∃ n, ∀ σ', runTurns env plan deadline n σ₁ ≠ .more σ' := by
          rcases queue_or_budget hq hstep with hshorter | ⟨hx, hspent⟩
          · exact ihqueued σ₁ (by omega) (by omega)
          · have hlt : totalBudget plan σ₁ < totalBudget plan σ :=
              List.sum_lt_sum _ _ (fun y _ => budget_le hstep y) ⟨x, hx, hspent⟩
            exact ihleft (totalBudget plan σ₁) (by omega) _ σ₁ le_rfl le_rfl
        obtain ⟨n, hn⟩ := hnext
        refine ⟨n + 1, fun σ' h => hn σ' ?_⟩
        simpa only [runTurns, hturn] using h

/-! ## How often -/

/-- Turns of a kind process their node, which had something left. -/
def Spends (env : Env W) (plan : Plan) (deadline : Instant) (kind : Loop W → Option String) (x : String) : Prop :=
  ∀ σ, kind σ = some x → taken env plan deadline σ = some x ∧ 0 < budget plan σ x

/-- What `taken` says of a turn. -/
theorem taken_eq_some (h : taken env plan deadline σ = some x) :
    (∃ rest, σ.queue = x :: rest) ∧ ¬(x ∈ σ.visited ∧ plan.typeOf x ≠ some .loop) ∧
      (plan.nodes.lookup x).isSome = true := by
  unfold taken at h
  split at h
  · cases h
  · next y rest hq =>
    dsimp only at h
    split_ifs at h with hkilled hlate hskip hnone
    obtain rfl := Option.some.inj h
    exact ⟨⟨rest, hq⟩, hskip, Option.isSome_iff_ne_none.mpr fun heq => hnone (by rw [heq]; rfl)⟩

theorem Spends.lt {kind : Loop W → Option String} (hkind : Spends env plan deadline kind x) (hx : kind σ = some x)
    (hmore : turn env plan deadline σ = .more σ') : budget plan σ' x < budget plan σ x := by
  obtain ⟨htaken, hpos⟩ := hkind σ hx
  obtain ⟨⟨rest', hq'⟩, -, -⟩ := taken_eq_some htaken
  obtain ⟨y, rest, hq, hstep⟩ := turn_more hmore
  obtain ⟨rfl, rfl⟩ := List.cons.inj (hq'.symm.trans hq)
  exact budget_lt hstep htaken hpos

/-- There are no more turns of such a kind than the node had. -/
theorem count_trail_le {kind : Loop W → Option String} (hkind : Spends env plan deadline kind x) :
    ∀ (n : ℕ) (σ : Loop W), (trail env plan deadline kind n σ).count x ≤ budget plan σ x := by
  intro n
  induction n with
  | zero => exact fun σ => Nat.zero_le _
  | succ n ih =>
    intro σ
    rw [trail, List.count_append]
    by_cases hx : kind σ = some x
    · have hone : (kind σ).toList.count x = 1 := by rw [hx, Option.toList_some, List.count_singleton_self]
      have hhad := (hkind σ hx).2
      split
      · next σ' hmore =>
        have hspent := hkind.lt hx hmore
        have := ih σ'
        omega
      · rw [List.count_nil]
        omega
    · have hzero : (kind σ).toList.count x = 0 := by
        refine List.count_eq_zero.mpr fun h => hx ?_
        exact Option.mem_toList.mp h
      split
      · next σ' hmore =>
        obtain ⟨y, rest, -, hstep⟩ := turn_more hmore
        have hle := budget_le hstep x
        have := ih σ'
        omega
      · rw [List.count_nil]
        omega

theorem spends_taken (ht : plan.typeOf x ≠ some .loop) :
    Spends env plan deadline (taken env plan deadline) x := by
  intro σ h
  have hfresh : x ∉ σ.visited := fun hv => (taken_eq_some h).2.1 ⟨hv, ht⟩
  exact ⟨h, by rw [budget_of_fresh ht hfresh]; exact Nat.one_pos⟩

theorem spends_expanded (ht : plan.typeOf x = some .loop) :
    Spends env plan deadline (expanded env plan deadline) x := by
  intro σ h
  obtain ⟨htaken, hleft⟩ := Option.filter_eq_some_iff.mp h
  exact ⟨htaken, by rw [budget, if_pos ht]; exact (of_decide_eq_true hleft).2⟩

end Turns

/-! ## Runs -/

section Runs

variable {env : Env W} {plan : Plan} {n : ℕ} {ctx : ExecutionContext} {resumeFrom : Option (List String)} {w : W}

/-- What a run has on record is what its turns have done. -/
theorem logged_runTurns {deadline : Instant} : ∀ (n : ℕ) (σ : Loop W), Logged σ (runTurns env plan deadline n σ).loop
    (trail env plan deadline (taken env plan deadline) n σ) (trail env plan deadline (expanded env plan deadline) n σ)
  | 0, σ => .refl σ
  | n + 1, σ => by
    have hturn := @turn_logged W env plan deadline σ
    rw [runTurns, trail, trail]
    cases h : turn env plan deadline σ with
    | more σ' =>
      rw [h] at hturn
      exact hturn.trans (logged_runTurns n σ')
    | done r σ' =>
      rw [h] at hturn
      dsimp only
      rwa [List.append_nil, List.append_nil]
    | raised e σ' =>
      rw [h] at hturn
      dsimp only
      rwa [List.append_nil, List.append_nil]

/-- No node is run, and no loop expanded, more often than it had left at the start. -/
theorem count_logged_le (x : String) :
    (plan.typeOf x ≠ some .loop →
      (processed env plan n ctx resumeFrom w).count x ≤ budget plan (startLoop plan ctx resumeFrom w) x) ∧
    (plan.typeOf x = some .loop →
      (expansions env plan n ctx resumeFrom w).count x ≤ budget plan (startLoop plan ctx resumeFrom w) x) := by
  unfold processed expansions execute
  dsimp only
  split_ifs
  · exact ⟨fun _ => Nat.zero_le _, fun _ => Nat.zero_le _⟩
  · split
    · exact ⟨fun _ => Nat.zero_le _, fun _ => Nat.zero_le _⟩
    · next deadline _ =>
      have hrun := @logged_runTurns W env plan deadline n (startLoop plan ctx resumeFrom w)
      rw [hrun.ran, hrun.expanded]
      exact ⟨fun ht => count_trail_le (spends_taken ht) n _, fun ht => count_trail_le (spends_expanded ht) n _⟩

theorem execute_finite (env : Env W) (plan : Plan) (ctx : ExecutionContext) (resumeFrom : Option (List String)) (w : W) :
    ∃ n, ∀ σ, execute env plan n ctx resumeFrom w ≠ .more σ := by
  unfold execute
  dsimp only
  split_ifs
  · exact ⟨0, fun σ h => by cases h⟩
  · split
    · exact ⟨0, fun σ h => by cases h⟩
    · exact runTurns_finite env plan _ _ _ _ le_rfl le_rfl

end Runs

/-- **The loop ends**, whatever the plan; a node that is no loop is processed at most once, and a loop is expanded at
most as often as its iterations and the hard limit allow. -/
theorem worklist_terminates (env : Env W) (plan : Plan) (ctx : ExecutionContext) (resumeFrom : Option (List String))
    (w : W) :
    (∃ n, ∀ σ, execute env plan n ctx resumeFrom w ≠ .more σ) ∧
      ∀ n x, (plan.typeOf x ≠ some .loop → (processed env plan n ctx resumeFrom w).count x ≤ 1) ∧
        ∀ node iterations, plan.nodes.lookup x = some node → plan.typeOf x = some .loop →
          (node.getD "max_iterations" (.int 1000)).toInt = .ok iterations →
          (expansions env plan n ctx resumeFrom w).count x ≤ (min iterations 10000).toNat := by
  refine ⟨execute_finite env plan ctx resumeFrom w, fun n x => ⟨fun ht => ?_, fun node iterations hl ht hint => ?_⟩⟩
  · refine ((count_logged_le x).1 ht).trans ?_
    rw [budget, if_neg ht]
    split_ifs <;> omega
  · refine ((count_logged_le x).2 ht).trans ?_
    have hlimit : loopLimit node = .ok (min iterations maxLoopHard) := by
      simp only [loopLimit, hint, bind, Except.bind, pure, Except.pure]
    rw [budget, if_pos ht, iterationsLeft_of_lookup hl hlimit]
    show (min iterations maxLoopHard - 0).toNat ≤ _
    rw [sub_zero]
    rfl

end RevenueOS.Workflows
