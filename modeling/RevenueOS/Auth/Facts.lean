import RevenueOS.Auth.Rotation

/-!
# RevenueOS.Auth.Facts — what the access tokens of a session say of its sign-in

`_claims_for_values` (`application/auth/service.py`) puts the time of the call and the flag it was given into the
`auth_time` and the `mfa` of an access token.  `issue_session` passes the flag of the sign-in; `refresh` passes none,
and neither is stored with the refresh token.  The system of `RevenueOS.Auth.Sessions` runs beside the claims of the
tokens it mints.

* `facts_kept_iff`: every access token carries the facts of its sign-in exactly if every refresh that returns tokens
  falls into the second of the sign-in, which had no second factor.
-/

namespace RevenueOS.Auth

open RevenueOS.Lib RevenueOS.Workflows

/-! ## Claims -/

/-- The claims `auth_time` and `mfa`. -/
structure SignInFacts where
  authTime : ℕ
  mfa : Bool
deriving DecidableEq

/-- `_claims_for_values`, of which `issue_access_token` keeps the time. -/
def claimsForValues (now : ℕ) (mfaVerified : Bool) : SignInFacts := ⟨now, mfaVerified⟩

/-- The system, the flags `issue_session` was called with, the sign-ins of the sessions and what the access tokens of a
session say. -/
structure ClaimState where
  auth : AuthState
  mfaVerified : List Bool
  signIns : List (Uuid × SignInFacts)
  minted : List (Uuid × SignInFacts)

/-- A step of the system; `mfaVerified` is the flag of a sign-in. -/
structure ClaimStep where
  auth : AuthStep
  mfaVerified : Bool

namespace ClaimState

def start : ClaimState := ⟨.start, [], [], []⟩

section Step

variable (sha256 : String → String) (accessTtl : ℕ)

/-- The claims of the access token that a step mints. -/
def claims (s : ClaimState) : AuthStep → SignInFacts
  | .issue k _ _ => claimsForValues s.auth.now (s.mfaVerified.getD k false)
  | _ => claimsForValues s.auth.now false

/-- The sessions of the access tokens that a step mints. -/
def mints (s : ClaimState) (l : AuthStep) : List Uuid :=
  ((s.auth.step sha256 accessTtl l).access.drop s.auth.access.length).map AccessToken.sid

def step (s : ClaimState) (l : ClaimStep) : ClaimState where
  auth := s.auth.step sha256 accessTtl l.auth
  mfaVerified :=
    match l.auth with
    | .signIn _ _ => s.mfaVerified ++ [l.mfaVerified]
    | _ => s.mfaVerified
  signIns :=
    match l.auth with
    | .issue _ _ _ => s.signIns ++ (s.mints sha256 accessTtl l.auth).map fun sid => (sid, s.claims l.auth)
    | _ => s.signIns
  minted := s.minted ++ (s.mints sha256 accessTtl l.auth).map fun sid => (sid, s.claims l.auth)

end Step

/-- Every access token carries the facts of the sign-in of its session. -/
def Kept (s : ClaimState) : Prop :=
  ∀ (sid : Uuid) (signIn facts : SignInFacts), (sid, signIn) ∈ s.signIns → (sid, facts) ∈ s.minted → facts = signIn

end ClaimState

/-- The session whose refresh token a step rotates. -/
def AuthState.rotation? (s : AuthState) (k : ℕ) (draw : Draw) : Option Uuid :=
  match s.refreshes[k]? with
  | some (.reloaded _ family _ _) => if s.Fresh draw then some family else none
  | _ => none

/-- A refresh returns tokens only in the second of the sign-in, and only for a sign-in without a second factor. -/
def RefreshedAtOnce (s : ClaimState) (l : ClaimStep) : Prop :=
  match l.auth with
  | .rotate k draw => ∀ family, s.auth.rotation? k draw = some family → ∀ signIn, (family, signIn) ∈ s.signIns →
    signIn.authTime = s.auth.now ∧ signIn.mfa = false
  | _ => True

/-! ## What a step mints -/

section Mints

variable {sha256 : String → String} {accessTtl : ℕ}

theorem mints_issue {s : ClaimState} {k : ℕ} {family : Uuid} {draw : Draw} :
    s.mints sha256 accessTtl (.issue k family draw) = [] ∨
      s.auth.NewFamily family ∧ s.mints sha256 accessTtl (.issue k family draw) = [family] ∧
        ∃ row ∈ (s.auth.step sha256 accessTtl (.issue k family draw)).tokens.rows, row.familyId = family := by
  unfold ClaimState.mints
  dsimp only [AuthState.step]
  split
  · rename_i cap user profile hk
    split
    · split_ifs with hfresh
      · refine Or.inr ⟨hfresh.2, ?_, s.auth.newRow sha256 draw user family none, ?_, rfl⟩
        · rw [List.drop_left]
          rfl
        · rw [rows_insert hfresh.1.row]
          exact List.mem_append_right _ List.mem_cons_self
      · exact Or.inl (by rw [List.drop_length]; rfl)
    · exact Or.inl (by rw [List.drop_length]; rfl)
  · exact Or.inl (by rw [List.drop_length]; rfl)

theorem mints_rotate (s : ClaimState) (k : ℕ) (draw : Draw) :
    s.mints sha256 accessTtl (.rotate k draw) = (s.auth.rotation? k draw).toList := by
  unfold ClaimState.mints AuthState.rotation?
  dsimp only [AuthState.step]
  cases hk : s.auth.refreshes[k]? with
  | none =>
    dsimp only
    rw [List.drop_length]
    rfl
  | some call =>
    cases call with
    | reloaded current family user profile =>
      dsimp only
      split_ifs
      · rw [List.drop_left]
        rfl
      · rw [List.drop_length]
        rfl
    | _ =>
      dsimp only
      rw [List.drop_length]
      rfl

/-- The other steps mint nothing. -/
theorem mints_other {s : ClaimState} {l : AuthStep} (hissue : ∀ k family draw, l ≠ .issue k family draw)
    (hrotate : ∀ k draw, l ≠ .rotate k draw) : s.mints sha256 accessTtl l = [] := by
  have hmove := authMove_step sha256 accessTtl s.auth l
  have haccess : (s.auth.step sha256 accessTtl l).access = s.auth.access := by
    generalize s.auth.step sha256 accessTtl l = s' at hmove
    cases hmove with
    | issued user profile hfresh hfamily => exact absurd rfl (hissue _ _ _)
    | rotated hk hfresh => exact absurd rfl (hrotate _ _)
    | _ => rfl
  unfold ClaimState.mints
  rw [haccess, List.drop_length]
  rfl

end Mints

/-! ## Sessions and their sign-ins -/

/-- The sessions of which something is said have rows. -/
structure ClaimState.Known (s : ClaimState) : Prop where
  signIns : ∀ entry ∈ s.signIns, ∃ row ∈ s.auth.tokens.rows, row.familyId = entry.1
  minted : ∀ entry ∈ s.minted, ∃ row ∈ s.auth.tokens.rows, row.familyId = entry.1

section Runs

variable {sha256 : String → String} {accessTtl : ℕ}

theorem family_step {s : AuthState} (l : AuthStep) {family : Uuid} (h : ∃ row ∈ s.tokens.rows, row.familyId = family) :
    ∃ row ∈ (s.step sha256 accessTtl l).tokens.rows, row.familyId = family := by
  obtain ⟨row, hrow, rfl⟩ := h
  have hkept : ∀ {t : TokenTable} {new : Option RefreshToken}, Evolves s.tokens t new →
      ∃ row' ∈ t.rows, row'.familyId = row.familyId := by
    intro t new ht
    obtain ⟨row', hrow', hsame, -⟩ := ht.kept row hrow
    exact ⟨row', hrow', hsame.familyId.symm⟩
  have hmove := authMove_step sha256 accessTtl s l
  generalize s.step sha256 accessTtl l = s' at hmove
  cases hmove with
  | issued user profile hfresh hfamily => exact hkept (evolves_issue hfresh user _)
  | rotated hk hfresh => exact hkept (evolves_rotate hfresh _ _ _)
  | committed hk => exact hkept (evolves_revokeRows s.tokens _ s.now _)
  | _ => exact ⟨row, hrow, rfl⟩

theorem mints_known {s : ClaimState} (hs : s.auth.Sound) (l : AuthStep) {sid : Uuid}
    (h : sid ∈ s.mints sha256 accessTtl l) :
    ∃ row ∈ (s.auth.step sha256 accessTtl l).tokens.rows, row.familyId = sid := by
  cases l with
  | issue k family draw =>
    rcases @mints_issue sha256 accessTtl s k family draw with hnone | ⟨-, hone, hrow⟩
    · rw [hnone] at h
      cases h
    · rw [hone, List.mem_singleton] at h
      rw [h]
      exact hrow
  | rotate k draw =>
    rw [mints_rotate, Option.mem_toList] at h
    refine family_step _ ?_
    unfold AuthState.rotation? at h
    split at h
    · rename_i current family user profile hk
      obtain ⟨row, hrow, -, hfamily, -⟩ := hs.calls k _ hk
      split_ifs at h
      obtain rfl := Option.some.inj h
      exact ⟨row, hrow, hfamily⟩
    · cases h
  | _ =>
    rw [mints_other (by intros; exact AuthStep.noConfusion) (by intros; exact AuthStep.noConfusion)] at h
    cases h

theorem ClaimState.Known.step {s : ClaimState} (h : s.Known) (hs : s.auth.Sound) (l : ClaimStep) :
    (s.step sha256 accessTtl l).Known := by
  have hnew : ∀ entry ∈ (s.mints sha256 accessTtl l.auth).map (fun sid => (sid, s.claims l.auth)),
      ∃ row ∈ (s.auth.step sha256 accessTtl l.auth).tokens.rows, row.familyId = entry.1 := by
    intro entry hentry
    obtain ⟨sid, hsid, rfl⟩ := List.mem_map.mp hentry
    exact mints_known hs l.auth hsid
  have hsignIns : ∀ entry ∈ s.signIns,
      ∃ row ∈ (s.auth.step sha256 accessTtl l.auth).tokens.rows, row.familyId = entry.1 :=
    fun entry hentry => family_step l.auth (h.signIns entry hentry)
  constructor
  · intro entry hentry
    dsimp only [ClaimState.step] at hentry
    split at hentry
    · rcases List.mem_append.mp hentry with hold | hentry
      · exact hsignIns entry hold
      · exact hnew entry hentry
    · exact hsignIns entry hentry
  · intro entry hentry
    rcases List.mem_append.mp hentry with hold | hentry
    · exact family_step l.auth (h.minted entry hold)
    · exact hnew entry hentry

/-- A step that mints nothing keeps the facts. -/
theorem ClaimState.Kept.step_of_mints {s : ClaimState} (h : s.Kept) {l : ClaimStep}
    (hmints : s.mints sha256 accessTtl l.auth = []) : (s.step sha256 accessTtl l).Kept := by
  intro sid signIn facts hsignIn hfacts
  dsimp only [ClaimState.step] at hsignIn hfacts
  rw [hmints, List.map_nil, List.append_nil] at hfacts
  refine h sid signIn facts ?_ hfacts
  split at hsignIn
  · rwa [hmints, List.map_nil, List.append_nil] at hsignIn
  · exact hsignIn

theorem ClaimState.Kept.issue {s : ClaimState} (h : s.Kept) (hk : s.Known) (k : ℕ) (family : Uuid) (draw : Draw)
    (mfaVerified : Bool) : (s.step sha256 accessTtl ⟨.issue k family draw, mfaVerified⟩).Kept := by
  rcases @mints_issue sha256 accessTtl s k family draw with hnone | ⟨hfamily, hone, -⟩
  · exact h.step_of_mints hnone
  · intro sid signIn facts hsignIn hfacts
    dsimp only [ClaimState.step] at hsignIn hfacts
    rw [hone, List.map_singleton, List.mem_append, List.mem_singleton] at hsignIn hfacts
    -- nothing was said of the new session
    rcases hsignIn with hsignIn | hsignIn
    · rcases hfacts with hfacts | hfacts
      · exact h sid signIn facts hsignIn hfacts
      · obtain ⟨row, hrow, hrowFamily⟩ := hk.signIns _ hsignIn
        exact absurd (hrowFamily.trans (Prod.mk.inj hfacts).1) (hfamily row hrow)
    · rcases hfacts with hfacts | hfacts
      · obtain ⟨row, hrow, hrowFamily⟩ := hk.minted _ hfacts
        exact absurd (hrowFamily.trans (Prod.mk.inj hsignIn).1) (hfamily row hrow)
      · rw [(Prod.mk.inj hfacts).2, (Prod.mk.inj hsignIn).2]

theorem ClaimState.Kept.rotate_iff {s : ClaimState} (h : s.Kept) (k : ℕ) (draw : Draw) (mfaVerified : Bool) :
    (s.step sha256 accessTtl ⟨.rotate k draw, mfaVerified⟩).Kept ↔
      RefreshedAtOnce s ⟨.rotate k draw, mfaVerified⟩ := by
  constructor
  · intro hkept family hfamily signIn hsignIn
    have hfacts : (family, claimsForValues s.auth.now false) ∈
        (s.step sha256 accessTtl ⟨.rotate k draw, mfaVerified⟩).minted := by
      refine List.mem_append_right _ (List.mem_map.mpr ⟨family, ?_, rfl⟩)
      rw [mints_rotate, hfamily]
      exact List.mem_singleton_self family
    obtain rfl := hkept family signIn _ hsignIn hfacts
    exact ⟨rfl, rfl⟩
  · intro hc sid signIn facts hsignIn hfacts
    rcases List.mem_append.mp hfacts with hfacts | hfacts
    · exact h sid signIn facts hsignIn hfacts
    · obtain ⟨family, hfamily, heq⟩ := List.mem_map.mp hfacts
      rw [mints_rotate, Option.mem_toList] at hfamily
      obtain ⟨rfl, rfl⟩ := Prod.mk.inj heq
      obtain ⟨htime, hmfa⟩ := hc family hfamily signIn hsignIn
      obtain ⟨authTime, mfa⟩ := signIn
      dsimp only at htime hmfa
      rw [htime, hmfa]
      rfl

theorem kept_step_iff {s : ClaimState} (hk : s.Known) (h : s.Kept) (l : ClaimStep) :
    (s.step sha256 accessTtl l).Kept ↔ RefreshedAtOnce s l := by
  obtain ⟨l, mfaVerified⟩ := l
  cases l with
  | issue k family draw => exact iff_of_true (h.issue hk k family draw mfaVerified) trivial
  | rotate k draw => exact h.rotate_iff k draw mfaVerified
  | _ =>
    refine iff_of_true (h.step_of_mints ?_) trivial
    exact mints_other (by intros; exact AuthStep.noConfusion) (by intros; exact AuthStep.noConfusion)

end Runs

/-- **Every access token carries the facts of its sign-in exactly if every refresh that returns tokens falls into the
second of a sign-in without a second factor.** -/
theorem facts_kept_iff (sha256 : String → String) (accessTtl : ℕ) (steps : List ClaimStep) :
    Always (ClaimState.step sha256 accessTtl) ClaimState.Kept .start steps ↔
      Meets (ClaimState.step sha256 accessTtl) RefreshedAtOnce .start steps := by
  have hinv : ∀ (s : ClaimState) (l : ClaimStep), s.auth.Sound ∧ s.Known →
      (s.step sha256 accessTtl l).auth.Sound ∧ (s.step sha256 accessTtl l).Known := by
    intro s l hs
    exact ⟨hs.1.move (authMove_step sha256 accessTtl s.auth l.auth), hs.2.step hs.1 l⟩
  have hstart : ClaimState.start.Known := ⟨fun _ => List.not_mem_nil.elim, fun _ => List.not_mem_nil.elim⟩
  refine always_iff_meets hinv (fun s l hs h => kept_step_iff hs.2 h l) steps _ ⟨sound_start, hstart⟩ ?_
  intro sid signIn facts h
  cases h

/-! ## A refresh after a second factor -/

/-- The steps of a sign-in with a second factor, and a refresh ten minutes later. -/
def refreshedLater : List ClaimStep :=
  (login.map fun l => ⟨l, true⟩) ++ [⟨.tick 600, false⟩, ⟨.refresh "token-1.secret-1", false⟩, ⟨.judge 0, false⟩,
    ⟨.reload 0 (some member), false⟩, ⟨.rotate 0 ⟨"token-2", "secret-2", "access-2"⟩, false⟩]

/-- The new access token is ten minutes younger than the sign-in and has lost the second factor. -/
theorem refreshedLater_forgets :
    ¬ Always (ClaimState.step id accessTtlSeconds) ClaimState.Kept .start refreshedLater := by
  intro h
  have hsignIn : (sampleUuid 'f', SignInFacts.mk 0 true) ∈
      (after (ClaimState.step id accessTtlSeconds) .start refreshedLater).signIns := by decide +kernel
  have hminted : (sampleUuid 'f', SignInFacts.mk 600 false) ∈
      (after (ClaimState.step id accessTtlSeconds) .start refreshedLater).minted := by decide +kernel
  exact absurd (always_last h _ _ _ hsignIn hminted) (by decide)

end RevenueOS.Auth
