import RevenueOS.Auth.Sessions

/-!
# RevenueOS.Auth.Rotation — a refresh token is rotated once

The rows of a family form a tree by `parent_jti`, rooted at its login.  While every rotation starts from a row without
a child the tree is a path: a row that is not revoked has no child, so it is the end of the path.

* `single_use_iff`: over every interleaving of logins, refreshes and revocations, a token is rotated by one call at
  most and a family has at most one live token exactly if no rotation starts from a row that has a child.
-/

namespace RevenueOS.Auth

open RevenueOS.Lib RevenueOS.Workflows

/-! ## Single use -/

/-- A token is rotated by one call at most, and a family has at most one token that is neither revoked nor expired. -/
structure AuthState.SingleUse (s : AuthState) : Prop where
  once : ∀ (i j : ℕ) (current a b : String), s.refreshes[i]? = some (.rotated current a) →
    s.refreshes[j]? = some (.rotated current b) → i = j
  one_live : ∀ a ∈ s.tokens.rows, ∀ b ∈ s.tokens.rows, a.familyId = b.familyId → a.Live s.now → b.Live s.now → a = b

/-- No row was made from the token. -/
def Childless (t : TokenTable) (jti : String) : Prop := ∀ row ∈ t.rows, row.parentJti ≠ some jti

/-- A rotation starts from a row without a child. -/
def RotatesOnce (s : AuthState) : AuthStep → Prop
  | .rotate k draw =>
    match s.refreshes[k]? with
    | some (.reloaded current _ _ _) => s.Fresh draw → Childless s.tokens current
    | _ => True
  | _ => True

/-! ## Families as paths -/

/-- The tree of a family is a path. -/
structure AuthState.Path (s : AuthState) : Prop where
  ends : ∀ a ∈ s.tokens.rows, ∀ b ∈ s.tokens.rows, a.familyId = b.familyId → Childless s.tokens a.jti →
    Childless s.tokens b.jti → a = b
  once : ∀ (i j : ℕ) (current a b : String), s.refreshes[i]? = some (.rotated current a) →
    s.refreshes[j]? = some (.rotated current b) → i = j

theorem AuthState.Sound.childless {s : AuthState} (h : s.Sound) {row : RefreshToken} (hrow : row ∈ s.tokens.rows)
    (hlive : row.revokedAt = none) : Childless s.tokens row.jti := by
  intro child hchild hparent
  obtain ⟨⟨parent, hmem, hjti, -, hrevoked⟩, -⟩ := h.parents child hchild row.jti hparent
  rw [Table.eq_of_key hmem hrow hjti] at hrevoked
  exact hrevoked hlive

theorem AuthState.Path.singleUse {s : AuthState} (h : s.Path) (hs : s.Sound) : s.SingleUse where
  once := h.once
  one_live a ha b hb hfamily hlive hlive' :=
    h.ends a ha b hb hfamily (hs.childless ha hlive.1) (hs.childless hb hlive'.1)

theorem Childless.of_evolves {t t' : TokenTable} {new : Option RefreshToken} (ht : Evolves t t' new) {jti : String}
    (h : Childless t' jti) : Childless t jti := by
  intro row hrow hparent
  obtain ⟨row', hrow', hsame, -⟩ := ht.kept row hrow
  exact h row' hrow' (hsame.parentJti ▸ hparent)

/-- The ends of the paths after a step that adds a row only at an end, or in a family of its own. -/
theorem ends_of_evolves {t t' : TokenTable} {new : Option RefreshToken} (ht : Evolves t t' new)
    (hends : ∀ a ∈ t.rows, ∀ b ∈ t.rows, a.familyId = b.familyId → Childless t a.jti → Childless t b.jti → a = b)
    (hnew : ∀ n, new = some n → ∀ b ∈ t.rows, b.familyId = n.familyId → Childless t b.jti →
      ¬ Childless t' b.jti) :
    ∀ a ∈ t'.rows, ∀ b ∈ t'.rows, a.familyId = b.familyId → Childless t' a.jti → Childless t' b.jti → a = b := by
  intro a' ha' b' hb' hfamily hca hcb
  rcases ht.origin a' ha' with hnewa | ⟨a, ha, hsamea, -⟩
  · rcases ht.origin b' hb' with hnewb | ⟨b, hb, hsameb, -⟩
    · exact Option.some.inj (hnewa.symm.trans hnewb)
    · rw [← hsameb.jti] at hcb
      exact absurd hcb (hnew a' hnewa b hb (hsameb.familyId.trans hfamily.symm) (hcb.of_evolves ht))
  · rw [← hsamea.jti] at hca
    rcases ht.origin b' hb' with hnewb | ⟨b, hb, hsameb, -⟩
    · exact absurd hca (hnew b' hnewb a ha (hsamea.familyId.trans hfamily) (hca.of_evolves ht))
    · rw [← hsameb.jti] at hcb
      have hab : a = b := hends a ha b hb (hsamea.familyId.trans (hfamily.trans hsameb.familyId.symm))
        (hca.of_evolves ht) (hcb.of_evolves ht)
      refine Table.eq_of_key ha' hb' ?_
      rw [← hsamea.jti, ← hsameb.jti, hab]

/-- A step that rotates nothing and adds no row. -/
theorem AuthState.Path.evolve_none {s s' : AuthState} (h : s.Path) (ht : Evolves s.tokens s'.tokens none)
    (hcalls : ∀ (k : ℕ) (p jti : String), s'.refreshes[k]? = some (.rotated p jti) →
      s.refreshes[k]? = some (.rotated p jti)) : s'.Path where
  ends := ends_of_evolves ht h.ends (fun _ hn => by cases hn)
  once i j current a b hi hj := h.once i j current a b (hcalls i _ _ hi) (hcalls j _ _ hj)

theorem AuthState.Path.rotated {sha256 : String → String} {s : AuthState} (h : s.Path) (hs : s.Sound) {k : ℕ}
    {draw : Draw} {current : String} {family user : Uuid} {profile : Profile}
    (hk : s.refreshes[k]? = some (.reloaded current family user profile)) (hfresh : s.Fresh draw)
    (hend : Childless s.tokens current) {access : List AccessToken} :
    AuthState.Path { s with
      tokens := (revokeRows s.tokens [current] s.now "rotated").insert
        (s.newRow sha256 draw user family (some current))
      access := access
      refreshes := s.refreshes.set k (.rotated current draw.jti) } := by
  obtain ⟨row, hrow, rfl, rfl, rfl⟩ := hs.calls k _ hk
  constructor
  · refine ends_of_evolves (evolves_rotate hfresh row.jti row.userId row.familyId) h.ends ?_
    intro new hnew b hb hfamily hchildless hafter
    cases hnew
    -- the row that is rotated was the end of its family
    obtain rfl := h.ends b hb row hrow hfamily hchildless hend
    refine hafter (s.newRow sha256 draw b.userId b.familyId (some b.jti)) ?_ rfl
    rw [rows_insert (fresh_revokeRows hfresh [b.jti] "rotated")]
    exact List.mem_append_right _ List.mem_cons_self
  · have hfirst : ∀ (j : ℕ) (b : String), s.refreshes[j]? ≠ some (.rotated row.jti b) := by
      intro j b hj
      obtain ⟨child, hchild, hparent⟩ := hs.calls j _ hj
      exact hend child hchild hparent
    intro i j current a b hi hj
    rcases getElem?_set_cases hi with ⟨rfl, heq⟩ | ⟨-, hi⟩
    · cases heq
      rcases getElem?_set_cases hj with ⟨rfl, -⟩ | ⟨-, hj⟩
      · rfl
      · exact absurd hj (hfirst j b)
    · rcases getElem?_set_cases hj with ⟨-, heq⟩ | ⟨-, hj⟩
      · cases heq
        exact absurd hi (hfirst i a)
      · exact h.once i j current a b hi hj

theorem AuthState.Path.move {sha256 : String → String} {accessTtl : ℕ} {s s' : AuthState} {l : AuthStep} (h : s.Path)
    (hs : s.Sound) (hc : RotatesOnce s l) (hmove : AuthMove sha256 accessTtl s l s') : s'.Path := by
  have hsame : ∀ {s'' : AuthState}, s''.tokens = s.tokens → s''.refreshes = s.refreshes → s''.Path := by
    intro s'' ht hr
    exact h.evolve_none (ht ▸ Evolves.refl s.tokens) (fun k p jti hk => hr ▸ hk)
  have hset : ∀ {k : ℕ} {call : RefreshCall}, (∀ p jti, call ≠ .rotated p jti) → (s.setRefresh k call).Path := by
    intro k call hcall
    refine h.evolve_none (Evolves.refl s.tokens) (fun j p jti hj => ?_)
    rcases getElem?_set_cases hj with ⟨-, heq⟩ | ⟨-, hj⟩
    · exact absurd heq.symm (hcall p jti)
    · exact hj
  cases hmove with
  | idle => exact h
  | ticked seconds => exact hsame rfl rfl
  | signedIn user profile => exact hsame rfl rfl
  | issued user profile hfresh hfamily =>
    refine ⟨ends_of_evolves (evolves_issue hfresh user _) h.ends ?_, h.once⟩
    intro new hnew b hb hbfamily
    cases hnew
    exact absurd hbfamily (hfamily b hb)
  | presented token =>
    refine h.evolve_none (Evolves.refl s.tokens) (fun j p jti hj => ?_)
    rcases getElem?_concat_cases hj with heq | hj
    · cases heq
    · exact hj
  | refreshing hopen hcall =>
    rcases hcall with rfl | ⟨row, hrow, rfl⟩ | ⟨current, family, user, profile, hk, rfl⟩
    · exact hset (fun _ _ => RefreshCall.noConfusion)
    · exact hset (fun _ _ => RefreshCall.noConfusion)
    · exact hset (fun _ _ => RefreshCall.noConfusion)
  | @reused _ k token row hk hrow =>
    have hrejected : (s.setRefresh k .rejected).Path := hset (fun _ _ => RefreshCall.noConfusion)
    exact ⟨hrejected.ends, hrejected.once⟩
  | rotated hk hfresh =>
    dsimp only [RotatesOnce] at hc
    rw [hk] at hc
    exact h.rotated hs hk hfresh (hc hfresh)
  | requested request hrequest => exact hsame rfl rfl
  | selected hk hselect => exact hsame rfl rfl
  | unwritten hopen hcall => exact hsame rfl rfl
  | committed hk => exact h.evolve_none (evolves_revokeRows s.tokens _ s.now _) (fun _ _ _ hk => hk)
  | blacklisted hk => exact hsame rfl rfl
  | issueFailed => exact hsame rfl rfl

theorem path_start : AuthState.start.Path where
  ends a ha := by cases ha
  once i j current a b hi := by cases hi

/-- A rotation from a row that has a child is the second of its token. -/
theorem rotatesOnce_of_singleUse {sha256 : String → String} {accessTtl : ℕ} {s : AuthState} {l : AuthStep}
    (hs : s.Sound) (h : (s.step sha256 accessTtl l).SingleUse) : RotatesOnce s l := by
  cases l with
  | rotate k draw =>
    dsimp only [RotatesOnce]
    split
    · rename_i current family user profile hk
      intro hfresh child hchild hparent
      dsimp only [AuthState.step] at h
      rw [hk] at h
      dsimp only at h
      rw [if_pos hfresh] at h
      obtain ⟨-, j, jti, hj⟩ := hs.parents child hchild current hparent
      have hne : k ≠ j := by
        rintro rfl
        exact getElem?_ne_of_some hk RefreshCall.noConfusion hj
      exact hne (h.once k j current draw.jti jti (getElem?_set_of_some hk) ((List.getElem?_set_ne hne).trans hj))
    · trivial
  | _ => trivial

/-- **A refresh token is rotated once exactly if no rotation starts from a row that has a child.** -/
theorem single_use_iff (sha256 : String → String) (accessTtl : ℕ) (steps : List AuthStep) :
    Always (AuthState.step sha256 accessTtl) AuthState.SingleUse .start steps ↔
      Meets (AuthState.step sha256 accessTtl) RotatesOnce .start steps := by
  have hsound : ∀ s l, s.Sound → (AuthState.step sha256 accessTtl s l).Sound :=
    fun s l hs => hs.move (authMove_step sha256 accessTtl s l)
  constructor
  · exact meets_of_always hsound (fun s l hs h => rotatesOnce_of_singleUse hs h) steps _ sound_start
  · exact always_of_inv (fun s => s.Sound ∧ s.Path) (fun s hs => hs.2.singleUse hs.1)
      (fun s l hs hc => ⟨hsound s l hs.1, hs.2.move hs.1 hc (authMove_step sha256 accessTtl s l)⟩) steps _
      ⟨sound_start, path_start⟩

/-! ## Two presentations at once -/

def member : Profile := ⟨"acme", ["member"]⟩

def firstDraw : Draw := ⟨"token-1", "secret-1", "access-1"⟩

/-- The steps of a login. -/
def login : List AuthStep := [.signIn (sampleUuid 'u') member, .select 0, .issue 0 (sampleUuid 'f') firstDraw]

/-- Two refreshes present the token of the login; both are judged before either rotates. -/
def doubleRefresh : List AuthStep :=
  login ++ [.refresh "token-1.secret-1", .refresh "token-1.secret-1", .judge 0, .judge 1, .reload 0 (some member),
    .reload 1 (some member), .rotate 0 ⟨"token-2", "secret-2", "access-2"⟩,
    .rotate 1 ⟨"token-3", "secret-3", "access-3"⟩]

theorem doubleRefresh_rotates_twice :
    ¬ Always (AuthState.step id accessTtlSeconds) AuthState.SingleUse .start doubleRefresh := by
  intro h
  have hfirst : (after (AuthState.step id accessTtlSeconds) .start doubleRefresh).refreshes[0]? =
      some (.rotated "token-1" "token-2") := by decide +kernel
  have hsecond : (after (AuthState.step id accessTtlSeconds) .start doubleRefresh).refreshes[1]? =
      some (.rotated "token-1" "token-3") := by decide +kernel
  exact absurd ((always_last h).once 0 1 _ _ _ hfirst hsecond) (by decide)

end RevenueOS.Auth
