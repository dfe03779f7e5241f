import RevenueOS.Auth.Rotation

/-!
# RevenueOS.Auth.Revocation — a revoked family stays revoked

A revoking call writes the rows it selected.  Between its selection and its commit, and after it, a refresh that was
judged before may still rotate, and the row it inserts is none of those.

* `select_complete`: a selection has every live row of the families it revokes.
* `revocation_final`: in a run in which no family is rotated past the selection of a call that revokes it, no token of
  a family is live once such a call returned, and none is refreshed.
-/

namespace RevenueOS.Auth

open RevenueOS.Lib RevenueOS.Workflows

/-! ## Final revocation -/

/-- No token of a family is live once a call that revokes it has returned. -/
def AuthState.Final (s : AuthState) : Prop :=
  ∀ (k : ℕ) (request : Revocation) (families : List Uuid), s.revokes[k]? = some (.returned request families) →
    ∀ row ∈ s.tokens.rows, row.familyId ∈ families → ¬ row.Live s.now

/-- A refresh that succeeds is not of a family that a returned call revoked. -/
def RefreshesUnrevoked (s : AuthState) : AuthStep → Prop
  | .rotate k draw =>
    match s.refreshes[k]? with
    | some (.reloaded _ family _ _) => s.Fresh draw →
      ∀ (j : ℕ) (request : Revocation) (families : List Uuid), s.revokes[j]? = some (.returned request families) →
        family ∉ families
    | _ => True
  | _ => True

/-- The families of a call that has made its selection. -/
def RevokeCall.families : RevokeCall → List Uuid
  | .selected _ families _ => families
  | .committed _ families _ => families
  | .returned _ families => families
  | _ => []

/-- A family is rotated only while no call that revokes it has made its selection. -/
def RotatesBefore (s : AuthState) : AuthStep → Prop
  | .rotate k draw =>
    match s.refreshes[k]? with
    | some (.reloaded _ family _ _) => s.Fresh draw → ∀ call ∈ s.revokes, family ∉ call.families
    | _ => True
  | _ => True

/-! ## Selections -/

/-- What a selection has to have: its families are of rows, and their live rows are in it. -/
structure Complete (t : TokenTable) (now : ℕ) (families : List Uuid) (jtis : List String) : Prop where
  known : ∀ family ∈ families, ∃ row ∈ t.rows, row.familyId = family
  rows : ∀ row ∈ t.rows, row.familyId ∈ families → row.Live now → row.jti ∈ jtis

theorem mem_unrevokedJtis {t : TokenTable} {p : RefreshToken → Bool} {row : RefreshToken} (hrow : row ∈ t.rows)
    (hlive : row.revokedAt = none) (hp : p row = true) : row.jti ∈ unrevokedJtis t p := by
  refine List.mem_map.mpr ⟨row, List.mem_filter.mpr ⟨hrow, ?_⟩, rfl⟩
  rw [hlive, hp]
  rfl

theorem exists_of_mem_unrevokedJtis {t : TokenTable} {p : RefreshToken → Bool} {jti : String}
    (h : jti ∈ unrevokedJtis t p) : ∃ row ∈ t.rows, p row = true := by
  obtain ⟨row, hrow, -⟩ := List.mem_map.mp h
  obtain ⟨hrow, hp⟩ := List.mem_filter.mp hrow
  exact ⟨row, hrow, (Bool.and_eq_true _ _ ▸ hp).2⟩

/-- The selection of one family by its id. -/
theorem complete_family {t : TokenTable} {now : ℕ} {row : RefreshToken} (hrow : row ∈ t.rows) :
    Complete t now [row.familyId] (unrevokedJtis t fun r => r.familyId == row.familyId) where
  known _ h := ⟨row, hrow, (List.mem_singleton.mp h).symm⟩
  rows _ hr hfamily hlive := mem_unrevokedJtis hr hlive.1 (beq_iff_eq.mpr (List.mem_singleton.mp hfamily))

theorem mem_orderedFamilies {f : Uuid} : ∀ {families ordered : List Uuid},
    f ∈ families.foldl (fun ordered family => if family ∈ ordered then ordered else ordered ++ [family]) ordered →
      f ∈ ordered ∨ f ∈ families
  | [], _, h => Or.inl h
  | family :: families, ordered, h => by
    rw [List.foldl_cons] at h
    rcases mem_orderedFamilies h with h | h
    · split_ifs at h
      · exact Or.inl h
      · rcases List.mem_append.mp h with h | h
        · exact Or.inl h
        · exact Or.inr (List.mem_singleton.mp h ▸ List.mem_cons_self)
    · exact Or.inr (List.mem_cons_of_mem _ h)

theorem exists_of_mem_liveFamilies {t : TokenTable} {now : ℕ} {user f : Uuid} (h : f ∈ liveFamilies t now user) :
    ∃ row ∈ t.rows, row.familyId = f ∧ row.userId = user := by
  unfold liveFamilies at h
  rcases mem_orderedFamilies h with h | h
  · cases h
  · obtain ⟨row, hrow, rfl⟩ := List.mem_map.mp h
    obtain ⟨hrow, hp⟩ := List.mem_filter.mp ((List.mem_insertionSort _).mp hrow)
    rw [Bool.and_eq_true, beq_iff_eq] at hp
    exact ⟨row, hrow, rfl, hp.2⟩

theorem mem_of_mem_sessionsToEvict {families : List Uuid} {f : Uuid} (h : f ∈ sessionsToEvict families) :
    f ∈ families := by
  unfold sessionsToEvict at h
  split_ifs at h
  · exact List.mem_of_mem_take h
  · cases h

/-- **A selection has every live row of the families it revokes.** -/
theorem select_complete {s : AuthState} (hs : s.Sound) {request : Revocation} {families : List Uuid}
    {jtis : List String} (hreuse : ∀ family, request = .reuse family → ∃ row ∈ s.tokens.rows, row.familyId = family)
    (h : request.select s.tokens s.now = .rows families jtis) : Complete s.tokens s.now families jtis := by
  cases request with
  | logout token =>
    dsimp only [Revocation.select] at h
    split at h
    · cases h
    · rename_i row hrow
      cases h
      obtain ⟨jti, -, hfind⟩ := Option.bind_eq_some_iff.mp hrow
      exact complete_family (Table.mem_of_find? hfind)
  | session user family =>
    dsimp only [Revocation.select] at h
    split_ifs at h with hempty
    cases h
    -- a row of the family is the user's, and the rows of a family are of one user
    obtain ⟨jti, hjti⟩ := List.exists_mem_of_ne_nil _ (fun hnil => hempty (List.isEmpty_iff.mpr hnil))
    obtain ⟨row, hrow, hp⟩ := exists_of_mem_unrevokedJtis hjti
    rw [Bool.and_eq_true, beq_iff_eq, beq_iff_eq] at hp
    refine ⟨fun f hf => ⟨row, hrow, hp.1.trans (List.mem_singleton.mp hf).symm⟩, fun r hr hfamily hlive => ?_⟩
    have hfamily := List.mem_singleton.mp hfamily
    refine mem_unrevokedJtis hr hlive.1 ?_
    rw [Bool.and_eq_true, beq_iff_eq, beq_iff_eq]
    exact ⟨hfamily, (hs.users r hr row hrow (hfamily.trans hp.1.symm)).trans hp.2⟩
  | all user reason keepFamily =>
    dsimp only [Revocation.select] at h
    cases h
    have hmember : ∀ f ∈ ((s.tokens.rows.filter fun r => r.userId == user).map RefreshToken.familyId).filter
        (!spared keepFamily ·), (∃ row ∈ s.tokens.rows, row.familyId = f ∧ row.userId = user) ∧
          (!spared keepFamily f) = true := by
      intro f hf
      obtain ⟨hf, hspared⟩ := List.mem_filter.mp hf
      obtain ⟨row, hrow, rfl⟩ := List.mem_map.mp hf
      obtain ⟨hrow, huser⟩ := List.mem_filter.mp hrow
      exact ⟨⟨row, hrow, rfl, beq_iff_eq.mp huser⟩, hspared⟩
    refine ⟨fun f hf => ?_, fun r hr hfamily hlive => ?_⟩
    · obtain ⟨⟨row, hrow, hfamily, -⟩, -⟩ := hmember f hf
      exact ⟨row, hrow, hfamily⟩
    · obtain ⟨⟨row, hrow, hsame, huser⟩, hspared⟩ := hmember r.familyId hfamily
      refine mem_unrevokedJtis hr hlive.1 ?_
      rw [Bool.and_eq_true, beq_iff_eq]
      exact ⟨(hs.users r hr row hrow hsame.symm).trans huser, hspared⟩
  | cap user =>
    dsimp only [Revocation.select] at h
    split_ifs at h
    cases h
    refine ⟨fun f hf => ?_, fun r hr hfamily hlive => ?_⟩
    · obtain ⟨row, hrow, hsame, -⟩ := exists_of_mem_liveFamilies (mem_of_mem_sessionsToEvict hf)
      exact ⟨row, hrow, hsame⟩
    · obtain ⟨row, hrow, hsame, huser⟩ := exists_of_mem_liveFamilies (mem_of_mem_sessionsToEvict hfamily)
      refine mem_unrevokedJtis hr hlive.1 ?_
      rw [Bool.and_eq_true, Bool.and_eq_true, decide_eq_true_iff, beq_iff_eq, List.contains_iff_mem]
      exact ⟨⟨hlive.2, (hs.users r hr row hrow hsame.symm).trans huser⟩, hfamily⟩
  | reuse family =>
    dsimp only [Revocation.select] at h
    cases h
    obtain ⟨row, hrow, rfl⟩ := hreuse family rfl
    exact complete_family hrow

/-! ## What holds while families are rotated before they are revoked -/

/-- What is known of a revoking call. -/
def RevokeCall.Settled (t : TokenTable) (now : ℕ) : RevokeCall → Prop
  | .opened request => ∀ family, request = .reuse family → ∃ row ∈ t.rows, row.familyId = family
  | .selected _ families jtis => Complete t now families jtis
  | .committed _ families _ => Complete t now families []
  | .returned _ families => Complete t now families []
  | .failed => True

theorem Complete.evolve {t t' : TokenTable} {now now' : ℕ} {new : Option RefreshToken} (ht : Evolves t t' new)
    (hnow : now ≤ now') {families : List Uuid} {jtis : List String} (hnew : ∀ n, new = some n → n.familyId ∉ families)
    (h : Complete t now families jtis) : Complete t' now' families jtis where
  known family hfamily := by
    obtain ⟨row, hrow, rfl⟩ := h.known family hfamily
    obtain ⟨row', hrow', hsame, -⟩ := ht.kept row hrow
    exact ⟨row', hrow', hsame.familyId.symm⟩
  rows row' hrow' hfamily hlive := by
    rcases ht.origin row' hrow' with hn | ⟨row, hrow, hsame, hrevoked⟩
    · exact absurd hfamily (hnew row' hn)
    · rw [← hsame.jti]
      refine h.rows row hrow (hsame.familyId ▸ hfamily) ⟨hrevoked hlive.1, ?_⟩
      rw [hsame.expiresAt]
      exact Nat.lt_of_le_of_lt hnow hlive.2

theorem RevokeCall.Settled.evolve {t t' : TokenTable} {now now' : ℕ} {new : Option RefreshToken}
    (ht : Evolves t t' new) (hnow : now ≤ now') {call : RevokeCall}
    (hnew : ∀ n, new = some n → n.familyId ∉ call.families) (h : call.Settled t now) : call.Settled t' now' := by
  cases call with
  | opened request =>
    intro family hrequest
    obtain ⟨row, hrow, rfl⟩ := h family hrequest
    obtain ⟨row', hrow', hsame, -⟩ := ht.kept row hrow
    exact ⟨row', hrow', hsame.familyId.symm⟩
  | selected request families jtis => exact Complete.evolve ht hnow hnew h
  | committed request families jtis => exact Complete.evolve ht hnow hnew h
  | returned request families => exact Complete.evolve ht hnow hnew h
  | failed => trivial

/-- The families of a settled call are of rows. -/
theorem RevokeCall.Settled.known {t : TokenTable} {now : ℕ} {call : RevokeCall} (h : call.Settled t now)
    {family : Uuid} (hfamily : family ∈ call.families) : ∃ row ∈ t.rows, row.familyId = family := by
  cases call with
  | opened request => cases hfamily
  | selected request families jtis => exact Complete.known h family hfamily
  | committed request families jtis => exact Complete.known h family hfamily
  | returned request families => exact Complete.known h family hfamily
  | failed => cases hfamily

def AuthState.Settled (s : AuthState) : Prop :=
  ∀ (k : ℕ) (call : RevokeCall), s.revokes[k]? = some call → call.Settled s.tokens s.now

/-- A step after which every call is one of before or is settled. -/
theorem AuthState.Settled.evolve {s s' : AuthState} {new : Option RefreshToken} (h : s.Settled)
    (ht : Evolves s.tokens s'.tokens new) (hnow : s.now ≤ s'.now)
    (hnew : ∀ n, new = some n → ∀ call ∈ s.revokes, n.familyId ∉ call.families)
    (hcalls : ∀ (k : ℕ) (call : RevokeCall), s'.revokes[k]? = some call →
      s.revokes[k]? = some call ∨ call.Settled s'.tokens s'.now) : s'.Settled := by
  intro k call hk
  rcases hcalls k call hk with hold | hsettled
  · exact (h k call hold).evolve ht hnow (fun n hn => hnew n hn call (List.mem_of_getElem? hold))
  · exact hsettled

/-- A step that adds no row. -/
theorem AuthState.Settled.evolve_none {s s' : AuthState} (h : s.Settled) (ht : Evolves s.tokens s'.tokens none)
    (hnow : s.now ≤ s'.now)
    (hcalls : ∀ (k : ℕ) (call : RevokeCall), s'.revokes[k]? = some call →
      s.revokes[k]? = some call ∨ call.Settled s'.tokens s'.now) :
    s'.Settled := h.evolve ht hnow (fun _ hnew => by cases hnew) hcalls

theorem AuthState.Settled.setRevoke {s : AuthState} (h : s.Settled) {k : ℕ} {call : RevokeCall}
    (hcall : call.Settled s.tokens s.now) : (s.setRevoke k call).Settled := by
  refine h.evolve_none (Evolves.refl s.tokens) (Nat.le_refl _) (fun j c hj => ?_)
  rcases getElem?_set_cases hj with ⟨-, rfl⟩ | ⟨-, hj⟩
  · exact Or.inr hcall
  · exact Or.inl hj

/-- A call is opened. -/
theorem AuthState.Settled.opened {s s' : AuthState} (h : s.Settled) {request : Revocation} (ht : s'.tokens = s.tokens)
    (hnow : s'.now = s.now) (hrevokes : s'.revokes = s.revokes ++ [.opened request])
    (hrequest : ∀ family, request = .reuse family → ∃ row ∈ s.tokens.rows, row.familyId = family) : s'.Settled := by
  have hsame : Evolves s.tokens s'.tokens none := by
    rw [ht]
    exact Evolves.refl s.tokens
  refine h.evolve_none hsame hnow.ge (fun j c hj => ?_)
  rw [hrevokes] at hj
  rcases getElem?_concat_cases hj with rfl | hj
  · refine Or.inr ?_
    rw [ht]
    exact hrequest
  · exact Or.inl hj

theorem complete_nil (t : TokenTable) (now : ℕ) : Complete t now [] [] where
  known family h := by cases h
  rows row hrow h := by cases h

/-- The rows of a selection are revoked by its commit. -/
theorem complete_commit {t : TokenTable} {now : ℕ} {families : List Uuid} {jtis : List String} (reason : String)
    (h : Complete t now families jtis) : Complete (revokeRows t jtis now reason) now families [] := by
  have hrest := h.evolve (evolves_revokeRows t jtis now reason) (Nat.le_refl now) (fun n hn => by cases hn)
  refine ⟨hrest.known, fun row hrow hfamily hlive => ?_⟩
  exact absurd (hrest.rows row hrow hfamily hlive) (unrevoked_revokeRows hrow hlive.1).1

theorem AuthState.Settled.move {sha256 : String → String} {accessTtl : ℕ} {s s' : AuthState} {l : AuthStep}
    (h : s.Settled) (hs : s.Sound) (hc : RotatesBefore s l) (hmove : AuthMove sha256 accessTtl s l s') :
    s'.Settled := by
  cases hmove with
  | idle => exact h
  | ticked seconds =>
    exact h.evolve_none (Evolves.refl s.tokens) (Nat.le_add_right _ _) (fun _ _ hk => Or.inl hk)
  | signedIn user profile => exact h.opened rfl rfl rfl (fun family hfamily => by cases hfamily)
  | @issued k family draw user profile hfresh hfamily =>
    refine h.evolve (evolves_issue hfresh user family) (Nat.le_refl _) (fun n hn call hcall hmem => ?_)
      (fun _ _ hk => Or.inl hk)
    cases hn
    obtain ⟨j, hj⟩ := List.mem_iff_getElem?.mp hcall
    obtain ⟨row, hrow, hrowFamily⟩ := (h j call hj).known hmem
    exact hfamily row hrow hrowFamily
  | presented token => exact h
  | refreshing hopen hcall => exact h
  | reused hk hrow =>
    refine h.opened rfl rfl rfl (fun family hfamily => ?_)
    cases hfamily
    exact ⟨_, hrow, rfl⟩
  | @rotated k draw current family user profile hk hfresh =>
    dsimp only [RotatesBefore] at hc
    rw [hk] at hc
    refine h.evolve (evolves_rotate hfresh current user family) (Nat.le_refl _) (fun n hn call hcall => ?_)
      (fun _ _ hk => Or.inl hk)
    cases hn
    exact hc hfresh call hcall
  | requested request hrequest =>
    refine h.opened rfl rfl rfl (fun family hfamily => ?_)
    rw [hfamily] at hrequest
    cases hrequest
  | selected hk hselect => exact h.setRevoke (select_complete hs (h _ _ hk) hselect)
  | unwritten hopen hcall =>
    rcases hcall with rfl | ⟨request, rfl⟩
    · exact h.setRevoke trivial
    · exact h.setRevoke (complete_nil s.tokens s.now)
  | @committed k request families jtis hk =>
    refine h.evolve_none (evolves_revokeRows s.tokens jtis s.now request.reason) (Nat.le_refl _) (fun j c hj => ?_)
    rcases getElem?_set_cases hj with ⟨-, rfl⟩ | ⟨-, hj⟩
    · exact Or.inr (complete_commit request.reason (h _ _ hk))
    · exact Or.inl hj
  | @blacklisted k request families jtis hk =>
    have hnow : (if request.blacklists = true then AuthState.revokeAccessJtis s.redis jtis else s.redis).now =
        s.now := by
      split_ifs
      · exact now_revokeAccessJtis s.redis jtis
      · rfl
    refine h.evolve_none (Evolves.refl s.tokens) hnow.ge (fun j c hj => ?_)
    rcases getElem?_set_cases hj with ⟨-, rfl⟩ | ⟨-, hj⟩
    · refine Or.inr (Complete.evolve (Evolves.refl s.tokens) hnow.ge (fun n hn => by cases hn) (h _ _ hk))
    · exact Or.inl hj
  | issueFailed => exact h

theorem settled_start : AuthState.start.Settled := fun k call h => by cases h

theorem AuthState.Settled.final {s : AuthState} (h : s.Settled) : s.Final := by
  intro k request families hk row hrow hfamily hlive
  have hcomplete : Complete s.tokens s.now families [] := h k _ hk
  cases hcomplete.rows row hrow hfamily hlive

theorem refreshesUnrevoked_of_rotatesBefore {s : AuthState} {l : AuthStep} (h : RotatesBefore s l) :
    RefreshesUnrevoked s l := by
  cases l with
  | rotate k draw =>
    dsimp only [RotatesBefore, RefreshesUnrevoked] at h ⊢
    split
    · rename_i current family user profile hk
      rw [hk] at h
      intro hfresh j request families hj
      exact h hfresh _ (List.mem_of_getElem? hj)
    · trivial
  | _ => trivial

/-- **Revocation is final while no family is rotated past the selection of a call that revokes it.** -/
theorem revocation_final (sha256 : String → String) (accessTtl : ℕ) (steps : List AuthStep)
    (h : Meets (AuthState.step sha256 accessTtl) RotatesBefore .start steps) :
    Always (AuthState.step sha256 accessTtl) AuthState.Final .start steps ∧
      Meets (AuthState.step sha256 accessTtl) RefreshesUnrevoked .start steps := by
  have hstep : ∀ s l, s.Sound ∧ s.Settled → RotatesBefore s l →
      (AuthState.step sha256 accessTtl s l).Sound ∧ (AuthState.step sha256 accessTtl s l).Settled := by
    intro s l hs hc
    have hmove := authMove_step sha256 accessTtl s l
    exact ⟨hs.1.move hmove, hs.2.move hs.1 hc hmove⟩
  constructor
  · exact always_of_inv (fun s => s.Sound ∧ s.Settled) (fun s hs => hs.2.final) hstep steps _
      ⟨sound_start, settled_start⟩ h
  · exact meets_of_meets (fun s => s.Sound ∧ s.Settled)
      (fun s l hs hc => ⟨refreshesUnrevoked_of_rotatesBefore hc, hstep s l hs hc⟩) steps _
      ⟨sound_start, settled_start⟩ h

/-! ## A refresh that was judged before the revocation -/

/-- The session is refreshed and then ended, and its first token is presented again. -/
def endedSession : List AuthStep :=
  login ++ [.refresh "token-1.secret-1", .judge 0, .reload 0 (some member),
    .rotate 0 ⟨"token-2", "secret-2", "access-2"⟩, .revoke (.session (sampleUuid 'u') (sampleUuid 'f')), .select 1,
    .commit 1, .blacklist 1, .refresh "token-1.secret-1", .judge 1]

theorem meets_endedSession : Meets (AuthState.step id accessTtlSeconds) RotatesBefore .start endedSession := by
  -- the session cap of the login found nothing to evict
  have hnone : ∀ call ∈ (after (AuthState.step id accessTtlSeconds) .start (endedSession.take 6)).revokes,
      call.families = [] := by decide +kernel
  refine ⟨trivial, trivial, trivial, trivial, trivial, trivial, ?_, trivial, trivial, trivial, trivial, trivial,
    trivial, trivial⟩
  dsimp only [RotatesBefore]
  split
  · intro _ call hcall
    rw [hnone call hcall]
    exact List.not_mem_nil
  · trivial

theorem revocation_final_endedSession : Meets (AuthState.step id accessTtlSeconds) RotatesBefore .start endedSession ∧
    Always (AuthState.step id accessTtlSeconds) AuthState.Final .start endedSession ∧
      Meets (AuthState.step id accessTtlSeconds) RefreshesUnrevoked .start endedSession :=
  ⟨meets_endedSession, revocation_final id accessTtlSeconds endedSession meets_endedSession⟩

/-- The session is ended between the check of a refresh and its rotation. -/
def overtakenRefresh : List AuthStep :=
  login ++ [.refresh "token-1.secret-1", .judge 0, .reload 0 (some member),
    .revoke (.session (sampleUuid 'u') (sampleUuid 'f')), .select 1, .commit 1, .blacklist 1,
    .rotate 0 ⟨"token-2", "secret-2", "access-2"⟩]

/-- The revoked family has a live token again. -/
theorem overtakenRefresh_revives :
    ¬ (Always (AuthState.step id accessTtlSeconds) AuthState.Final .start overtakenRefresh ∧
      Meets (AuthState.step id accessTtlSeconds) RefreshesUnrevoked .start overtakenRefresh) := by
  rintro ⟨h, -⟩
  have hreturned : (after (AuthState.step id accessTtlSeconds) .start overtakenRefresh).revokes[1]? =
      some (.returned (.session (sampleUuid 'u') (sampleUuid 'f')) [sampleUuid 'f']) := by decide +kernel
  have hrow : ∃ row ∈ (after (AuthState.step id accessTtlSeconds) .start overtakenRefresh).tokens.rows,
      row.familyId ∈ [sampleUuid 'f'] ∧
        row.Live (after (AuthState.step id accessTtlSeconds) .start overtakenRefresh).now := by decide +kernel
  obtain ⟨row, hmem, hfamily, hlive⟩ := hrow
  exact always_last h 1 _ _ hreturned row hmem hfamily hlive

end RevenueOS.Auth
