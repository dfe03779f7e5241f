import RevenueOS.Ai.PromptRegistry

/-!
# RevenueOS.Ai.PromptGovernance — one prompt in production, on evidence

Every run of the registry from nothing, with any number of transactions open at a time.  What an open transaction has
read under a lock stays as it was read, for only who has a row locked writes it (`TxSound`, `KeepsOthers`).

* `progress_goOn`: what a statement reads is locked, or has been found in the evidence.
* `progress_commit`: a commit keeps the registry governed, and writes no row that another transaction has locked.
* `prompt_governance`: what holds in every state, and what a call that does not return leaves alone.
-/

namespace RevenueOS.Ai

open RevenueOS.Py RevenueOS.Lib RevenueOS.Workflows

/-! ## What is to hold -/

/-- The prompt refers to a run of its own that passed. -/
def HasEvidence (db : Registry) (p : Prompt) : Prop :=
  ∃ run ∈ db.runs.rows, p.evaluationRunId = some run.id ∧ run.supports p = true

structure Governed (db : Registry) : Prop where
  one : OneProduction db.prompts.rows
  evidence : ∀ p ∈ db.prompts.rows, p.status = .production → HasEvidence db p

/-- The transaction has the row locked, and the row is as it was read. -/
def HeldRow (db : Registry) (locks : RowLocks Uuid ℕ) (t : ℕ) (p : Prompt) : Prop :=
  db.prompts.find? p.id = some p ∧ locks.Holds t p.id

/-- What an open transaction relies on. -/
def TxSound (db : Registry) (locks : RowLocks Uuid ℕ) (t : ℕ) : RegistryTx → Prop
  | .syncing _ created => ∀ p ∈ created.1, p.status = .draft
  | .checkTarget _ target => ∀ p ∈ target, HeldRow db locks t p
  | .selectPrevious _ target run | .awaitPrevious _ target run _ =>
    HeldRow db locks t target ∧ run ∈ db.runs.rows ∧ run.supports target = true
  | .promoting _ target run previous =>
    HeldRow db locks t target ∧ (run ∈ db.runs.rows ∧ run.supports target = true) ∧
      ∀ p ∈ previous, HeldRow db locks t p
  | .selectPredecessor _ current | .awaitPredecessor _ current _ => ∀ p ∈ current, HeldRow db locks t p
  | .checkPredecessor _ current target => (∀ p ∈ current, HeldRow db locks t p) ∧ ∀ p ∈ target, HeldRow db locks t p
  | .rollingBack _ current target => HeldRow db locks t current ∧ HeldRow db locks t target ∧ HasEvidence db target
  | _ => True

/-- A write to what `t` has locked, and to new rows. -/
structure KeepsOthers (db db' : Registry) (locks : RowLocks Uuid ℕ) (t : ℕ) : Prop where
  rows : ∀ p, db.prompts.find? p.id = some p → ¬locks.Holds t p.id → db'.prompts.find? p.id = some p
  runs : ∀ run ∈ db.runs.rows, run ∈ db'.runs.rows

section Frame

variable {db db' : Registry} {locks locks' : RowLocks Uuid ℕ} {t t' : ℕ}

theorem HasEvidence.mono {p : Prompt} (h : HasEvidence db p) (hruns : ∀ run ∈ db.runs.rows, run ∈ db'.runs.rows) :
    HasEvidence db' p := by
  obtain ⟨run, hrun, hsupports⟩ := h
  exact ⟨run, hruns run hrun, hsupports⟩

/-- What keeps the rows that a transaction holds, and the runs, keeps what it relies on. -/
theorem TxSound.mono {tx : RegistryTx} (h : TxSound db locks t tx)
    (hrows : ∀ p, HeldRow db locks t p → HeldRow db' locks' t p) (hruns : ∀ run ∈ db.runs.rows, run ∈ db'.runs.rows) :
    TxSound db' locks' t tx := by
  cases tx with
  | syncing remaining created => exact h
  | checkTarget call target => exact fun p hp => hrows p (h p hp)
  | selectPrevious call target run => exact ⟨hrows target h.1, hruns run h.2.1, h.2.2⟩
  | awaitPrevious call target run chosen => exact ⟨hrows target h.1, hruns run h.2.1, h.2.2⟩
  | promoting call target run previous =>
    exact ⟨hrows target h.1, ⟨hruns run h.2.1.1, h.2.1.2⟩, fun p hp => hrows p (h.2.2 p hp)⟩
  | selectPredecessor call current => exact fun p hp => hrows p (h p hp)
  | awaitPredecessor call current chosen => exact fun p hp => hrows p (h p hp)
  | checkPredecessor call current target => exact ⟨fun p hp => hrows p (h.1 p hp), fun p hp => hrows p (h.2 p hp)⟩
  | rollingBack call current target => exact ⟨hrows current h.1, hrows target h.2.1, h.2.2.mono hruns⟩
  | _ => trivial

theorem KeepsOthers.refl (db : Registry) (locks : RowLocks Uuid ℕ) (t : ℕ) : KeepsOthers db db locks t :=
  ⟨fun _ hfind _ => hfind, fun _ hrun => hrun⟩

/-- A row of another transaction stays as it is. -/
theorem KeepsOthers.held (h : KeepsOthers db db' locks t) (hne : t' ≠ t) {p : Prompt} (hheld : HeldRow db locks t' p) :
    HeldRow db' (locks.release t) t' p :=
  ⟨h.rows p hheld.1 fun hown => hne (hheld.2.eq hown), RowLocks.holds_release_of_ne hheld.2 hne⟩

end Frame

/-! ## One statement -/

section Statements

variable {sameCases : SameCases} {reaches : ℕ → ℕ → ℚ → Bool} {db db' : Registry} {locks : RowLocks Uuid ℕ} {t : ℕ}

/-- What a locking query returns is locked for the transaction, and was free or its own. -/
theorem lockRow_held {chosen : Option Uuid} {q : Prompt → Bool} {row : Option Prompt}
    (h : db.lockRow locks t chosen q = some row) :
    (∀ p ∈ row, HeldRow db (locks.take t (row.map Prompt.id)) t p) ∧
      ∀ k ∈ row.map Prompt.id, locks.available t k = true := by
  unfold Registry.lockRow at h
  cases chosen with
  | none =>
    obtain rfl := Option.some.inj h
    exact ⟨fun p hp => absurd hp (Option.not_mem_none p), fun k hk => absurd hk (Option.not_mem_none k)⟩
  | some id =>
    dsimp only at h
    split_ifs at h with havailable
    obtain rfl := Option.some.inj h
    refine ⟨fun p hp => ?_, fun k hk => ?_⟩
    · have hfind := (Option.filter_eq_some_iff.mp hp).1
      obtain rfl := Table.key_of_find? hfind
      rw [hp]
      exact ⟨hfind, RowLocks.holds_take t p.id⟩
    · obtain ⟨p, hp, rfl⟩ := Option.map_eq_some_iff.mp hk
      obtain rfl := Table.key_of_find? (Option.filter_eq_some_iff.mp hp).1
      exact havailable

theorem HeldRow.take {p : Prompt} (h : HeldRow db locks t p) (row : Option Uuid) : HeldRow db (locks.take t row) t p :=
  ⟨h.1, h.2.take row⟩

theorem check_promote {call : PromoteCall} {target : Option Prompt} {row : Prompt} {run : AiEvaluationRun}
    (h : call.check db target = .ok (row, run)) :
    target = some row ∧ run ∈ db.runs.rows ∧ run.supports row = true := by
  unfold PromoteCall.check at h
  cases target with
  | none => cases h
  | some target =>
    dsimp only at h
    split at h
    · cases h
    · rename_i found hfound
      obtain ⟨rfl, rfl⟩ := Prod.mk.inj (Except.ok.inj h)
      obtain ⟨hfind, hsupports⟩ := Option.filter_eq_some_iff.mp hfound
      exact ⟨rfl, Table.mem_of_find? hfind, hsupports⟩

theorem check_rollback {current target : Option Prompt} {from_ row : Prompt}
    (h : RollbackCall.check db current target = .ok (from_, row)) :
    current = some from_ ∧ target = some row ∧ HasEvidence db row := by
  unfold RollbackCall.check at h
  split at h
  · split_ifs at h
    split at h
    · cases h
    · rename_i run hrun
      obtain ⟨rfl, rfl⟩ := Prod.mk.inj (Except.ok.inj h)
      obtain ⟨hfind, hsupports⟩ := Option.filter_eq_some_iff.mp hrun
      obtain ⟨id, hid, hfind⟩ := Option.bind_eq_some_iff.mp hfind
      obtain rfl := Table.key_of_find? hfind
      exact ⟨rfl, rfl, run, Table.mem_of_find? hfind, hid, hsupports⟩
  · cases h

theorem syncDocument_drafts {document : PromptDocument} {created created' : List Prompt × List AiEvaluationSet}
    (hdrafts : ∀ p ∈ created.1, p.status = .draft) (h : syncDocument sameCases db document created = .ok created') :
    ∀ p ∈ created'.1, p.status = .draft := by
  unfold syncDocument at h
  dsimp only at h
  split at h
  · cases h
  · split at h
    · cases h
    · obtain rfl := Except.ok.inj h
      intro p hp
      dsimp only at hp
      split_ifs at hp
      · rcases List.mem_append.mp hp with hp | hp
        · exact hdrafts p hp
        · rw [List.mem_singleton.mp hp]
          rfl
      · exact hdrafts p hp

/-- A statement that does not end the transaction. -/
theorem progress_goOn {tx tx' : RegistryTx} {locked : Option Uuid} (hsound : TxSound db locks t tx)
    (h : progress sameCases reaches db locks t tx = .goOn tx' locked) :
    TxSound db (locks.take t locked) t tx' ∧ ∀ k ∈ locked, locks.available t k = true := by
  have hnone : ∀ k ∈ (none : Option Uuid), locks.available t k = true :=
    fun k hk => absurd hk (Option.not_mem_none k)
  have hwrite : ∀ r : Except RegistryError Registry, Progress.ofWrite r ≠ .goOn tx' locked := by
    intro r
    cases r with
    | ok db => exact nofun
    | error e => exact nofun
  cases tx with
  | syncing remaining created =>
    cases remaining with
    | nil =>
      simp only [progress] at h
      exact absurd h (hwrite _)
    | cons document remaining =>
      simp only [progress] at h
      split at h
      · rename_i created' hsync
        obtain ⟨rfl, rfl⟩ := Progress.goOn.inj h
        exact ⟨syncDocument_drafts hsound hsync, hnone⟩
      · cases h
  | evaluating call =>
    simp only [progress] at h
    split at h
    · obtain ⟨rfl, rfl⟩ := Progress.goOn.inj h
      exact ⟨trivial, hnone⟩
    · cases h
  | recording run =>
    simp only [progress] at h
    exact absurd h (hwrite _)
  | selectTarget call =>
    obtain ⟨rfl, rfl⟩ := Progress.goOn.inj h
    exact ⟨trivial, hnone⟩
  | awaitTarget call chosen =>
    simp only [progress] at h
    split at h
    · cases h
    · rename_i target hlock
      obtain ⟨rfl, rfl⟩ := Progress.goOn.inj h
      exact lockRow_held hlock
  | checkTarget call target =>
    simp only [progress] at h
    split at h
    · rename_i row run hcheck
      obtain ⟨rfl, rfl⟩ := Progress.goOn.inj h
      obtain ⟨rfl, hrun⟩ := check_promote hcheck
      exact ⟨⟨hsound row rfl, hrun⟩, hnone⟩
    · cases h
  | selectPrevious call target run =>
    obtain ⟨rfl, rfl⟩ := Progress.goOn.inj h
    exact ⟨hsound, hnone⟩
  | awaitPrevious call target run chosen =>
    simp only [progress] at h
    split at h
    · cases h
    · rename_i previous hlock
      obtain ⟨rfl, rfl⟩ := Progress.goOn.inj h
      obtain ⟨hheld, havailable⟩ := lockRow_held hlock
      exact ⟨⟨hsound.1.take _, hsound.2, hheld⟩, havailable⟩
  | promoting call target run previous =>
    simp only [progress] at h
    exact absurd h (hwrite _)
  | selectCurrent call =>
    obtain ⟨rfl, rfl⟩ := Progress.goOn.inj h
    exact ⟨trivial, hnone⟩
  | awaitCurrent call chosen =>
    simp only [progress] at h
    split at h
    · cases h
    · rename_i current hlock
      obtain ⟨rfl, rfl⟩ := Progress.goOn.inj h
      exact lockRow_held hlock
  | selectPredecessor call current =>
    obtain ⟨rfl, rfl⟩ := Progress.goOn.inj h
    exact ⟨hsound, hnone⟩
  | awaitPredecessor call current chosen =>
    simp only [progress] at h
    split at h
    · cases h
    · rename_i target hlock
      obtain ⟨rfl, rfl⟩ := Progress.goOn.inj h
      obtain ⟨hheld, havailable⟩ := lockRow_held hlock
      exact ⟨⟨fun p hp => (hsound p hp).take _, hheld⟩, havailable⟩
  | checkPredecessor call current target =>
    simp only [progress] at h
    split at h
    · rename_i from_ row hcheck
      obtain ⟨rfl, rfl⟩ := Progress.goOn.inj h
      obtain ⟨rfl, rfl, hevidence⟩ := check_rollback hcheck
      exact ⟨⟨hsound.1 from_ rfl, hsound.2 row rfl, hevidence⟩, hnone⟩
    · cases h
  | rollingBack call current target =>
    simp only [progress] at h
    exact absurd h (hwrite _)

/-! ## Commits -/

theorem checked_eq_ok (h : db.checked = .ok db') : db' = db ∧ OneProduction db.prompts.rows := by
  unfold Registry.checked at h
  split_ifs at h with hunique
  exact ⟨(Except.ok.inj h).symm, hunique.1⟩

theorem find?_update (db : Registry) (id : Uuid) (f : Prompt → Prompt) (hf : ∀ prompt, (f prompt).id = prompt.id)
    (k : Uuid) : (db.update id f hf).prompts.find? k = (db.prompts.find? k).map (Table.modifyRow Prompt.id id f) :=
  Table.find?_modify db.prompts (fun prompt h => (hf prompt).trans h) k

/-- An `UPDATE` of a row that the transaction holds. -/
theorem keepsOthers_update {id : Uuid} {f : Prompt → Prompt} {hf : ∀ prompt, (f prompt).id = prompt.id}
    (hheld : locks.Holds t id) : KeepsOthers db (db.update id f hf) locks t := by
  refine ⟨fun p hfind hother => ?_, fun run hrun => hrun⟩
  have hne : p.id ≠ id := by
    rintro rfl
    exact hother hheld
  rw [find?_update, hfind, Option.map_some, Table.modifyRow, if_neg hne]

theorem KeepsOthers.trans {db'' : Registry} (h : KeepsOthers db db' locks t) (h' : KeepsOthers db' db'' locks t) :
    KeepsOthers db db'' locks t :=
  ⟨fun p hfind hother => h'.rows p (h.rows p hfind hother) hother, fun run hrun => h'.runs run (h.runs run hrun)⟩

/-- An `UPDATE` keeps the evidence of all prompts if the row it writes has evidence, or is not in production. -/
theorem evidence_update {id : Uuid} {f : Prompt → Prompt} {hf : ∀ prompt, (f prompt).id = prompt.id}
    (hevidence : ∀ p ∈ db.prompts.rows, p.status = .production → HasEvidence db p)
    (hrow : ∀ p, db.prompts.find? id = some p → (f p).status = .production → HasEvidence db (f p)) :
    ∀ p ∈ (db.update id f hf).prompts.rows, p.status = .production → HasEvidence (db.update id f hf) p :=
  (Table.forall_modify_iff (fun prompt h => (hf prompt).trans h)
    (Q := fun p => p.status = .production → HasEvidence db p) hevidence).mpr hrow

theorem promote_keeps {call : PromoteCall} {target : Prompt} {run : AiEvaluationRun} {previous : Option Prompt}
    (hevidence : ∀ p ∈ db.prompts.rows, p.status = .production → HasEvidence db p)
    (hsound : TxSound db locks t (.promoting call target run previous)) :
    (∀ p ∈ (db.promote call target run previous).prompts.rows, p.status = .production →
      HasEvidence (db.promote call target run previous) p) ∧
    KeepsOthers db (db.promote call target run previous) locks t := by
  obtain ⟨htarget, ⟨hrun, hsupports⟩, hprevious⟩ := hsound
  -- the row that is promoted has the id that the run is of
  have hpromoted : ∀ db₁ : Registry, (∀ p ∈ db₁.prompts.rows, p.status = .production → HasEvidence db₁ p) →
      run ∈ db₁.runs.rows → ∀ p ∈ (db₁.update target.id (Prompt.promote call run) fun _ => rfl).prompts.rows,
        p.status = .production → HasEvidence (db₁.update target.id (Prompt.promote call run) fun _ => rfl) p := by
    intro db₁ hevidence₁ hrun₁
    refine evidence_update hevidence₁ fun p hfind _ => ⟨run, hrun₁, rfl, ?_⟩
    have hid : p.id = target.id := Table.key_of_find? hfind
    unfold AiEvaluationRun.supports at hsupports ⊢
    rw [show (Prompt.promote call run p).id = target.id from hid]
    exact hsupports
  unfold Registry.promote
  cases hfilter : previous.filter (·.id != target.id) with
  | none => exact ⟨hpromoted db hevidence hrun, keepsOthers_update htarget.2⟩
  | some p =>
    have hheld := hprevious p (Option.filter_eq_some_iff.mp hfilter).1
    refine ⟨hpromoted _ (evidence_update hevidence fun _ _ hstatus => nomatch hstatus) hrun, ?_⟩
    exact (keepsOthers_update hheld.2).trans (keepsOthers_update htarget.2)

theorem rollback_keeps {call : RollbackCall} {current target : Prompt}
    (hevidence : ∀ p ∈ db.prompts.rows, p.status = .production → HasEvidence db p)
    (hsound : TxSound db locks t (.rollingBack call current target)) :
    (∀ p ∈ (db.rollback call current target).prompts.rows, p.status = .production →
      HasEvidence (db.rollback call current target) p) ∧
    KeepsOthers db (db.rollback call current target) locks t := by
  obtain ⟨hcurrent, htarget, run, hrun, hid, hsupports⟩ := hsound
  unfold Registry.rollback
  refine ⟨evidence_update (evidence_update hevidence fun _ _ hstatus => nomatch hstatus) fun p hfind _ => ?_,
    (keepsOthers_update hcurrent.2).trans (keepsOthers_update htarget.2)⟩
  -- the row is the one that was read: it is locked, and the first write keeps what it refers to
  have hwithdrawn := (find?_update db current.id (Prompt.withdraw call) (fun _ => rfl) target.id).symm.trans hfind
  rw [htarget.1, Option.map_some] at hwithdrawn
  have hsame : p.evaluationRunId = target.evaluationRunId ∧ p.id = target.id := by
    rw [← Option.some.inj hwithdrawn, Table.modifyRow]
    split_ifs <;> exact ⟨rfl, rfl⟩
  refine ⟨run, hrun, hsame.1.trans hid, ?_⟩
  unfold AiEvaluationRun.supports at hsupports ⊢
  rw [show (Prompt.restore call p).id = target.id from hsame.2]
  exact hsupports

theorem insert_keeps {created : List Prompt × List AiEvaluationSet} (hgoverned : Governed db)
    (hdrafts : ∀ p ∈ created.1, p.status = .draft) (h : db.insert? created = .ok db') :
    Governed db' ∧ KeepsOthers db db' locks t := by
  unfold Registry.insert? at h
  split at h
  · rename_i prompts sets hprompts hsets
    obtain ⟨rfl, hone⟩ := checked_eq_ok h
    have hrows := Table.rows_append? hprompts
    refine ⟨⟨hone, fun p hp hstatus => ?_⟩, fun p hfind _ => ?_, fun run hrun => hrun⟩
    · rw [hrows] at hp
      rcases List.mem_append.mp hp with hp | hp
      · exact (hgoverned.evidence p hp hstatus).mono fun run hrun => hrun
      · rw [hdrafts p hp] at hstatus
        cases hstatus
    · have hmem : p ∈ prompts.rows := by
        rw [hrows]
        exact List.mem_append_left _ (Table.mem_of_find? hfind)
      exact Table.find?_of_mem hmem
  · cases h

theorem record_keeps {run : AiEvaluationRun} (hgoverned : Governed db) (h : db.record? run = .ok db') :
    Governed db' ∧ KeepsOthers db db' locks t := by
  unfold Registry.record? at h
  split at h
  · rename_i runs hruns
    obtain rfl := Except.ok.inj h
    have hkept : ∀ r ∈ db.runs.rows, r ∈ runs.rows := by
      intro r hr
      rw [Table.rows_append? hruns]
      exact List.mem_append_left _ hr
    have hevidence : ∀ p ∈ db.prompts.rows, p.status = .production → HasEvidence { db with runs := runs } p :=
      fun p hp hstatus => (hgoverned.evidence p hp hstatus).mono hkept
    exact ⟨⟨hgoverned.one, hevidence⟩, fun p hfind _ => hfind, hkept⟩
  · cases h

theorem ofWrite_eq_commit {r : Except RegistryError Registry} (h : Progress.ofWrite r = .commit db') :
    r = .ok db' := by
  cases r with
  | ok db => rw [Progress.commit.inj h]
  | error e => cases h

/-- **A commit** keeps the registry governed, and what others hold. -/
theorem progress_commit {tx : RegistryTx} (hgoverned : Governed db) (hsound : TxSound db locks t tx)
    (h : progress sameCases reaches db locks t tx = .commit db') : Governed db' ∧ KeepsOthers db db' locks t := by
  cases tx with
  | syncing remaining created =>
    cases remaining with
    | nil =>
      simp only [progress] at h
      exact insert_keeps hgoverned hsound (ofWrite_eq_commit h)
    | cons document remaining =>
      simp only [progress] at h
      split at h <;> cases h
  | recording run =>
    simp only [progress] at h
    exact record_keeps hgoverned (ofWrite_eq_commit h)
  | promoting call target run previous =>
    simp only [progress] at h
    obtain ⟨rfl, hone⟩ := checked_eq_ok (ofWrite_eq_commit h)
    obtain ⟨hevidence, hkeeps⟩ := promote_keeps hgoverned.evidence hsound
    exact ⟨⟨hone, hevidence⟩, hkeeps⟩
  | rollingBack call current target =>
    simp only [progress] at h
    obtain ⟨rfl, hone⟩ := checked_eq_ok (ofWrite_eq_commit h)
    obtain ⟨hevidence, hkeeps⟩ := rollback_keeps hgoverned.evidence hsound
    exact ⟨⟨hone, hevidence⟩, hkeeps⟩
  | selectTarget | selectPrevious | selectCurrent | selectPredecessor => cases h
  | evaluating | awaitTarget | checkTarget | awaitPrevious | awaitCurrent | awaitPredecessor | checkPredecessor =>
    simp only [progress] at h
    split at h <;> cases h

end Statements

/-! ## Runs -/

namespace RegistryWorld

structure Sound (w : RegistryWorld) : Prop where
  governed : Governed w.db
  transactions : ∀ t tx, w.open_ t = some tx → TxSound w.db w.locks t tx

variable {w : RegistryWorld}

theorem Sound.goOn (h : w.Sound) {t : ℕ} {tx : RegistryTx} {locked : Option Uuid}
    (hsound : TxSound w.db (w.locks.take t locked) t tx) (havailable : ∀ k ∈ locked, w.locks.available t k = true) :
    (w.goOn t tx locked).Sound := by
  refine ⟨h.governed, fun t' tx' hopen => ?_⟩
  change Function.update w.open_ t (some tx) t' = some tx' at hopen
  by_cases ht : t' = t
  · subst ht
    rw [Function.update_self] at hopen
    exact Option.some.inj hopen ▸ hsound
  · rw [Function.update_of_ne ht] at hopen
    exact (h.transactions t' tx' hopen).mono
      (fun p hheld => ⟨hheld.1, RowLocks.holds_take_of_available hheld.2 ht havailable⟩) fun run hrun => hrun

theorem Sound.finish (h : w.Sound) {t : ℕ} {db : Registry} (hgoverned : Governed db)
    (hkeeps : KeepsOthers w.db db w.locks t) : (w.finish t db).Sound := by
  refine ⟨hgoverned, fun t' tx' hopen => ?_⟩
  change Function.update w.open_ t none t' = some tx' at hopen
  by_cases ht : t' = t
  · subst ht
    rw [Function.update_self] at hopen
    cases hopen
  · rw [Function.update_of_ne ht] at hopen
    exact (h.transactions t' tx' hopen).mono (fun p hheld => hkeeps.held ht hheld) hkeeps.runs

theorem Sound.begin_ (h : w.Sound) (t : ℕ) (principal : RegistryPrincipal) (action : String) (tx : RegistryTx)
    (hsound : TxSound w.db w.locks t tx) : (w.begin_ t principal action tx).1.Sound := by
  unfold RegistryWorld.begin_
  split
  · exact h.goOn hsound fun k hk => absurd hk (Option.not_mem_none k)
  · exact h
  · exact h

/-- One step. -/
theorem Sound.step {sameCases : SameCases} {reaches : ℕ → ℕ → ℚ → Bool} (h : w.Sound) (l : RegistryStep) :
    (w.step sameCases reaches l).Sound := by
  unfold RegistryWorld.step
  cases l with
  | sync t principal documents =>
    exact h.begin_ t principal "create" (.syncing documents ([], [])) fun _ hp => absurd hp List.not_mem_nil
  | evaluate t principal call => exact h.begin_ t principal "update" (.evaluating call) trivial
  | promote t principal call => exact h.begin_ t principal "update" (.selectTarget call) trivial
  | rollback t principal call => exact h.begin_ t principal "update" (.selectCurrent call) trivial
  | advance t =>
    simp only [perform]
    split
    · exact h
    · rename_i tx hopen
      have hsound := h.transactions t tx hopen
      split
      · exact h
      · rename_i tx' locked hprogress
        obtain ⟨hnext, havailable⟩ := progress_goOn hsound hprogress
        exact h.goOn hnext havailable
      · rename_i db' hprogress
        obtain ⟨hgoverned, hkeeps⟩ := progress_commit h.governed hsound hprogress
        exact h.finish hgoverned hkeeps
      · exact h.finish h.governed (.refl _ _ _)
  | abort t =>
    simp only [perform]
    split
    · exact h
    · exact h.finish h.governed (.refl _ _ _)

/-- A step at which a call does not return changes no prompt. -/
def RaisedKeeps (sameCases : SameCases) (reaches : ℕ → ℕ → ℚ → Bool) (w : RegistryWorld) (l : RegistryStep) : Prop :=
  (w.perform sameCases reaches l).2 ≠ .returned → (w.step sameCases reaches l).db = w.db

theorem raisedKeeps (sameCases : SameCases) (reaches : ℕ → ℕ → ℚ → Bool) (w : RegistryWorld) (l : RegistryStep) :
    w.RaisedKeeps sameCases reaches l := by
  have hbegin : ∀ t principal action tx, (w.begin_ t principal action tx).1.db = w.db := by
    intro t principal action tx
    unfold RegistryWorld.begin_
    split <;> rfl
  unfold RaisedKeeps RegistryWorld.step
  cases l with
  | sync t principal documents => exact fun _ => hbegin _ _ _ _
  | evaluate t principal call => exact fun _ => hbegin _ _ _ _
  | promote t principal call => exact fun _ => hbegin _ _ _ _
  | rollback t principal call => exact fun _ => hbegin _ _ _ _
  | advance t =>
    simp only [perform]
    split
    · exact fun _ => rfl
    · split
      · exact fun _ => rfl
      · exact fun _ => rfl
      · exact fun hne => absurd rfl hne
      · exact fun _ => rfl
  | abort t =>
    simp only [perform]
    split <;> exact fun _ => rfl

theorem sound_empty : emptyRegistry.Sound where
  governed := ⟨fun _ hp => absurd hp List.not_mem_nil, fun _ hp => absurd hp List.not_mem_nil⟩
  transactions := fun _ _ hopen => by cases hopen

/-- **One prompt in production, on evidence**, in every state of every run, and no step of a call that does not return
changes a prompt. -/
theorem prompt_governance (sameCases : SameCases) (reaches : ℕ → ℕ → ℚ → Bool) (ls : List RegistryStep) :
    Always (step sameCases reaches) (fun w => Governed w.db) emptyRegistry ls ∧
      Meets (step sameCases reaches) (RaisedKeeps sameCases reaches) emptyRegistry ls := by
  refine ⟨?_, meets_of_forall (raisedKeeps sameCases reaches) ls emptyRegistry⟩
  exact always_of_inv Sound (fun _ h => h.governed) (fun _ l h (_ : True) => h.step l) ls emptyRegistry sound_empty
    (meets_of_forall (fun _ _ => trivial) ls emptyRegistry)

end RegistryWorld

/-! ## Two promotions that overlap -/

def platformPrincipal : RegistryPrincipal := ⟨none, fun _ => true, "platform", true⟩

def replyDocument (version : ℤ) (promptId setId : Char) : PromptDocument :=
  ⟨"reply", version, "hash", "baseline", 1, [.obj [("id", .str "case-1")]], 1, sampleUuid promptId, sampleUuid setId⟩

def replyEvaluation (version : ℤ) (runId : Char) : EvaluateCall :=
  ⟨"reply", version, "baseline", 1, "hash", [[("case_id", .str "case-1"), ("passed", .bool true)]], sampleUuid runId⟩

def replyPromotion (version : ℤ) (runId : Char) : PromoteCall := ⟨"reply", version, sampleUuid runId, none, 0⟩

/-- Three versions, each with a run that passed, and the first one promoted. -/
def releasedReply : List RegistryStep :=
  [.sync 0 platformPrincipal [replyDocument 1 '1' '4', replyDocument 2 '2' '5', replyDocument 3 '3' '6'],
    .advance 0, .advance 0, .advance 0, .advance 0,
    .evaluate 0 platformPrincipal (replyEvaluation 1 '7'), .advance 0, .advance 0,
    .evaluate 0 platformPrincipal (replyEvaluation 2 '8'), .advance 0, .advance 0,
    .evaluate 0 platformPrincipal (replyEvaluation 3 '9'), .advance 0, .advance 0,
    .promote 0 platformPrincipal (replyPromotion 1 '7'),
    .advance 0, .advance 0, .advance 0, .advance 0, .advance 0, .advance 0]

/-- The others are promoted at a time: both choose the first one, and the second of them waits for it. -/
def overlappingPromotions : List RegistryStep :=
  [.promote 1 platformPrincipal (replyPromotion 2 '8'), .promote 2 platformPrincipal (replyPromotion 3 '9'),
    .advance 1, .advance 1, .advance 1, .advance 1, .advance 1,
    .advance 2, .advance 2, .advance 2, .advance 2, .advance 2, .advance 1, .advance 2, .advance 2]

/-- It then finds the first one deprecated and sees no other, and the index refuses its commit. -/
example : (after (RegistryWorld.step (fun _ _ => true) fun passed cases threshold => threshold * cases ≤ passed)
    emptyRegistry (releasedReply ++ overlappingPromotions)).db.prompts.rows.map (fun p => (p.version, p.status)) =
      [(1, .deprecated), (2, .production), (3, .draft)] := by decide +kernel

end RevenueOS.Ai
