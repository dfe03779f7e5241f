import RevenueOS.Auth.Rotation

/-!
# RevenueOS.Auth.AccessTokens — access tokens of a revoked session

`get_principal` and `_is_revoked` (`api/deps/principal.py`).  An access token is the claims that its signature
covers.  A request says which host it is for, and whether a support grant is active when it is asked.

* `sessions_dead_iff`: the access tokens of a session that `revoke_session` ended are rejected exactly if they had
  expired.  `revoke_access_jtis` blacklists identifiers of refresh tokens, and an access token has one of its own.
-/

namespace RevenueOS.Auth

open RevenueOS.Py RevenueOS.Lib RevenueOS.Workflows

/-! ## `get_principal` -/

inductive AuthError where
  | tokenExpired
  | unauthenticated (message : String)
  | forbidden (message : String)
deriving DecidableEq

structure Request where
  host : String
  supportGrant : Bool
deriving DecidableEq

/-- The claims a request goes on with. -/
structure Principal where
  userId : Uuid
  tenantSlug : String
  roles : List String
  sessionId : Uuid
  actorType : String
  jti : String
deriving DecidableEq

/-- `decode_access_token`, on a token the service signed. -/
def decodeAccessToken (now : ℕ) (token : AccessToken) : Except AuthError AccessToken :=
  if token.exp ≤ now then .error .tokenExpired else .ok token

/-- `_is_revoked`, with Redis available. -/
def isRevoked (redis : TtlStore String) (jti : String) : Bool := jti != "" && redis.live jti

/-- `_assert_host_matches_tenant` raises. -/
def hostMismatch (host tenantSlug : String) : Bool :=
  let host := beforeFirst host ":"
  endsWith host "airevenueos.io" &&
    match split host "." with
    | "api" :: slug :: _ :: _ => slug != "" && tenantSlug != "" && slug != tenantSlug
    | _ => false

def principalOf (token : AccessToken) : Principal :=
  ⟨token.sub, token.tenantSlug, token.roles, token.sid, token.actorType, token.jti⟩

/-- `get_principal`. -/
def getPrincipal (s : AuthState) (request : Request) (token : AccessToken) : Except AuthError Principal :=
  match decodeAccessToken s.now token with
  | .error e => .error e
  | .ok claims =>
    if isRevoked s.redis claims.jti then .error (.unauthenticated "This session has been revoked.")
    else
      let principal := principalOf claims
      if hostMismatch request.host principal.tenantSlug then
        .error (.forbidden "The requested host does not match your organisation.")
      else if (principal.roles.contains "support" || principal.actorType == "support") && !request.supportGrant then
        .error (.forbidden "No active tenant-approved support access grant exists.")
      else .ok principal

/-! ## Two kinds of identifiers -/

/-- The identifiers of refresh tokens. -/
def AuthState.jtis (s : AuthState) : List String := s.tokens.rows.map RefreshToken.jti

/-- The rows a revoking call holds. -/
def RevokeCall.jtis : RevokeCall → List String
  | .selected _ _ jtis => jtis
  | .committed _ _ jtis => jtis
  | _ => []

/-- The blacklist and the revoking calls name refresh tokens, and no access token has the identifier of one. -/
structure AuthState.Separate (s : AuthState) : Prop where
  blacklist : ∀ (key : String) (e : ℕ), s.redis.expiry key = some e → key ∈ s.jtis
  calls : ∀ call ∈ s.revokes, ∀ jti ∈ call.jtis, jti ∈ s.jtis
  access : ∀ token ∈ s.access, token.jti ∉ s.jtis

theorem expiry_revokeAccessJtis {jtis : List String} {redis : TtlStore String} {key : String} {e : ℕ}
    (h : (AuthState.revokeAccessJtis redis jtis).expiry key = some e) : key ∈ jtis ∨ redis.expiry key = some e := by
  unfold AuthState.revokeAccessJtis at h
  have hlive : ∀ (live : List String) (redis : TtlStore String),
      (live.foldl (fun redis jti => redis.set jti accessTtlSeconds) redis).expiry key = some e →
        key ∈ live ∨ redis.expiry key = some e := by
    intro live
    induction live with
    | nil => exact fun redis h => Or.inr h
    | cons jti live ih =>
      intro redis h
      rcases ih (redis.set jti accessTtlSeconds) h with h | h
      · exact Or.inl (List.mem_cons_of_mem _ h)
      · by_cases hkey : key = jti
        · exact Or.inl (hkey ▸ List.mem_cons_self)
        · rw [TtlStore.expiry_set_of_ne hkey] at h
          exact Or.inr h
  rcases hlive _ redis h with h | h
  · exact Or.inl (List.mem_of_mem_filter h)
  · exact Or.inr h

theorem mem_jtis_of_select {t : TokenTable} {now : ℕ} {request : Revocation} {families : List Uuid}
    {jtis : List String} (h : request.select t now = .rows families jtis) {jti : String} (hjti : jti ∈ jtis) :
    jti ∈ t.rows.map RefreshToken.jti := by
  have hunrevoked : ∀ {p : RefreshToken → Bool}, jti ∈ unrevokedJtis t p → jti ∈ t.rows.map RefreshToken.jti := by
    intro p hmem
    obtain ⟨row, hrow, rfl⟩ := List.mem_map.mp hmem
    exact List.mem_map.mpr ⟨row, List.mem_of_mem_filter hrow, rfl⟩
  cases request with
  | logout token =>
    dsimp only [Revocation.select] at h
    split at h
    · cases h
    · cases h
      exact hunrevoked hjti
  | session user family =>
    dsimp only [Revocation.select] at h
    split_ifs at h
    cases h
    exact hunrevoked hjti
  | all user reason keepFamily =>
    cases h
    exact hunrevoked hjti
  | cap user =>
    dsimp only [Revocation.select] at h
    split_ifs at h
    cases h
    exact hunrevoked hjti
  | reuse family =>
    cases h
    exact hunrevoked hjti

/-- A step that mints nothing. -/
theorem AuthState.Separate.same {s s' : AuthState} (h : s.Separate) (hjtis : s'.jtis = s.jtis)
    (haccess : s'.access = s.access) (hredis : ∀ key e, s'.redis.expiry key = some e → key ∈ s.jtis)
    (hcalls : ∀ call ∈ s'.revokes, call ∈ s.revokes ∨ ∀ jti ∈ call.jtis, jti ∈ s.jtis) : s'.Separate where
  blacklist key e hkey := hjtis ▸ hredis key e hkey
  calls call hcall jti hjti := by
    rw [hjtis]
    rcases hcalls call hcall with hold | hnew
    · exact h.calls call hold jti hjti
    · exact hnew jti hjti
  access token htoken := by
    rw [hjtis]
    exact h.access token (haccess ▸ htoken)

/-- A step that inserts a row and mints an access token with one draw. -/
theorem AuthState.Separate.minted {s s' : AuthState} (h : s.Separate) {draw : Draw} (hfresh : s.Fresh draw)
    {token : AccessToken} (htoken : token.jti = draw.accessJti) (hjtis : s'.jtis = s.jtis ++ [draw.jti])
    (haccess : s'.access = s.access ++ [token]) (hredis : s'.redis = s.redis) (hrevokes : s'.revokes = s.revokes) :
    s'.Separate where
  blacklist key e hkey := by
    rw [hjtis]
    exact List.mem_append_left _ (h.blacklist key e (hredis ▸ hkey))
  calls call hcall jti hjti := by
    rw [hjtis]
    exact List.mem_append_left _ (h.calls call (hrevokes ▸ hcall) jti hjti)
  access t ht := by
    rw [hjtis, List.mem_append, List.mem_singleton, not_or]
    rw [haccess, List.mem_append, List.mem_singleton] at ht
    rcases ht with ht | rfl
    · refine ⟨h.access t ht, fun heq => hfresh.1 (List.mem_append_right _ ?_)⟩
      exact List.mem_map.mpr ⟨t, ht, heq⟩
    · rw [htoken]
      exact ⟨fun hmem => hfresh.2.1 (List.mem_append_left _ hmem), hfresh.2.2.symm⟩

theorem AuthState.Separate.move {sha256 : String → String} {accessTtl : ℕ} {s s' : AuthState} {l : AuthStep}
    (h : s.Separate) (hmove : AuthMove sha256 accessTtl s l s') : s'.Separate := by
  have hopened : ∀ {request : Revocation}, ∀ call ∈ s.revokes ++ [.opened request],
      call ∈ s.revokes ∨ ∀ jti ∈ call.jtis, jti ∈ s.jtis := by
    intro request
    exact forall_mem_concat (fun _ hcall => Or.inl hcall) (Or.inr (fun jti hjti => by cases hjti))
  have hset : ∀ {k : ℕ} {call : RevokeCall}, (∀ jti ∈ call.jtis, jti ∈ s.jtis) →
      ∀ other ∈ s.revokes.set k call, other ∈ s.revokes ∨ ∀ jti ∈ other.jtis, jti ∈ s.jtis := by
    intro k call hjtis
    exact forall_mem_set (fun _ hother => Or.inl hother) (Or.inr hjtis)
  cases hmove with
  | idle => exact h
  | ticked seconds => exact h.same rfl rfl h.blacklist (fun _ hcall => Or.inl hcall)
  | signedIn user profile => exact h.same rfl rfl h.blacklist hopened
  | issued user profile hfresh hfamily =>
    refine h.minted hfresh rfl ?_ rfl rfl rfl
    unfold AuthState.jtis
    rw [rows_insert hfresh.row, List.map_append]
    rfl
  | presented token => exact h.same rfl rfl h.blacklist (fun _ hcall => Or.inl hcall)
  | refreshing hopen hcall => exact h.same rfl rfl h.blacklist (fun _ hcall => Or.inl hcall)
  | reused hk hrow => exact h.same rfl rfl h.blacklist hopened
  | @rotated k draw current family user profile hk hfresh =>
    refine h.minted hfresh rfl ?_ rfl rfl rfl
    unfold AuthState.jtis
    rw [rows_insert (fresh_revokeRows hfresh [current] "rotated"), List.map_append, jtis_revokeRows]
    rfl
  | requested request hrequest => exact h.same rfl rfl h.blacklist hopened
  | selected hk hselect =>
    exact h.same rfl rfl h.blacklist (hset fun jti hjti => mem_jtis_of_select hselect hjti)
  | unwritten hopen hcall =>
    refine h.same rfl rfl h.blacklist (hset fun jti hjti => ?_)
    rcases hcall with rfl | ⟨request, rfl⟩
    · cases hjti
    · cases hjti
  | committed hk =>
    have hjtis := h.calls _ (List.mem_of_getElem? hk)
    exact h.same (jtis_revokeRows s.tokens _ s.now _) rfl h.blacklist (hset hjtis)
  | @blacklisted k request families jtis hk =>
    have hjtis := h.calls _ (List.mem_of_getElem? hk)
    refine h.same rfl rfl (fun key e hkey => ?_) (hset fun jti hjti => by cases hjti)
    dsimp only at hkey
    split_ifs at hkey
    · rcases expiry_revokeAccessJtis hkey with hkey | hkey
      · exact hjtis key hkey
      · exact h.blacklist key e hkey
    · exact h.blacklist key e hkey
  | issueFailed => exact h.same rfl rfl h.blacklist (fun _ hcall => Or.inl hcall)

theorem separate_start : AuthState.start.Separate where
  blacklist key e h := by cases h
  calls call h := by cases h
  access token h := by cases h

/-! ## After `revoke_session` -/

section Run

variable (sha256 : String → String) (accessTtl : ℕ)

theorem now_le_step (s : AuthState) (l : AuthStep) : s.now ≤ (s.step sha256 accessTtl l).now := by
  have hmove := authMove_step sha256 accessTtl s l
  generalize s.step sha256 accessTtl l = s' at hmove
  cases hmove with
  | ticked seconds => exact Nat.le_add_right _ _
  | blacklisted hk =>
    unfold AuthState.now
    dsimp only
    split_ifs
    · exact (now_revokeAccessJtis s.redis _).ge
    · exact Nat.le_refl _
  | _ => exact Nat.le_refl _

theorem now_le_after : ∀ (ls : List AuthStep) (s : AuthState),
    s.now ≤ (after (AuthState.step sha256 accessTtl) s ls).now
  | [], _ => Nat.le_refl _
  | l :: ls, s => (now_le_step sha256 accessTtl s l).trans (now_le_after ls (s.step sha256 accessTtl l))

/-- Every request with the token is rejected, in every later state, until it expires. -/
def RejectedFrom (s : AuthState) (token : AccessToken) : Prop :=
  ∀ (ls : List AuthStep) (request : Request), (after (AuthState.step sha256 accessTtl) s ls).now < token.exp →
    ∃ e, getPrincipal (after (AuthState.step sha256 accessTtl) s ls) request token = .error e

/-- Something is true of every access token of every session that `revoke_session` has ended. -/
def OfEndedSessions (P : AccessToken → Prop) (s : AuthState) : Prop :=
  ∀ (k : ℕ) (user family : Uuid) (families : List Uuid),
    s.revokes[k]? = some (.returned (.session user family) families) → ∀ token ∈ s.access, token.sid = family → P token

/-- A request to a host of no tenant, with a support grant. -/
theorem getPrincipal_ok {s : AuthState} (h : s.Separate) {token : AccessToken} (htoken : token ∈ s.access)
    (hexp : s.now < token.exp) : getPrincipal s ⟨"", true⟩ token = .ok (principalOf token) := by
  have hlive : isRevoked s.redis token.jti = false := by
    rw [← Bool.not_eq_true]
    intro hrevoked
    obtain ⟨e, he, -⟩ := TtlStore.live_iff.mp (Bool.and_eq_true _ _ ▸ hrevoked).2
    exact h.access token htoken (h.blacklist _ e he)
  have hhost : ∀ slug, hostMismatch "" slug = false := fun _ => rfl
  unfold getPrincipal decodeAccessToken
  rw [if_neg (Nat.not_le.mpr hexp)]
  dsimp only
  rw [hlive, hhost, Bool.not_true, Bool.and_false]
  rfl

theorem rejectedFrom_iff {s : AuthState} (h : s.Separate) {token : AccessToken} (htoken : token ∈ s.access) :
    RejectedFrom sha256 accessTtl s token ↔ token.exp ≤ s.now := by
  constructor
  · intro hrejected
    by_contra hexp
    obtain ⟨e, he⟩ := hrejected [] ⟨"", true⟩ (Nat.not_le.mp hexp)
    rw [show after (AuthState.step sha256 accessTtl) s [] = s from rfl,
      getPrincipal_ok h htoken (Nat.not_le.mp hexp)] at he
    cases he
  · intro hexp ls request hnow
    have hlater := now_le_after sha256 accessTtl ls s
    omega

theorem separate_after (steps : List AuthStep) : (after (AuthState.step sha256 accessTtl) .start steps).Separate :=
  inv_after AuthState.Separate (fun s l h _ => h.move (authMove_step sha256 accessTtl s l)) steps _ separate_start
    (meets_of_forall (fun _ _ => trivial) steps _)

/-- **The access tokens of an ended session are rejected exactly if they had expired.** -/
theorem sessions_dead_iff (steps : List AuthStep) :
    OfEndedSessions (RejectedFrom sha256 accessTtl (after (AuthState.step sha256 accessTtl) .start steps))
        (after (AuthState.step sha256 accessTtl) .start steps) ↔
      OfEndedSessions (fun token => token.exp ≤ (after (AuthState.step sha256 accessTtl) .start steps).now)
        (after (AuthState.step sha256 accessTtl) .start steps) := by
  have hs := separate_after sha256 accessTtl steps
  generalize after (AuthState.step sha256 accessTtl) .start steps = s at hs
  constructor
  · intro h k user family families hk token htoken hsid
    exact (rejectedFrom_iff sha256 accessTtl hs htoken).mp (h k user family families hk token htoken hsid)
  · intro h k user family families hk token htoken hsid
    exact (rejectedFrom_iff sha256 accessTtl hs htoken).mpr (h k user family families hk token htoken hsid)

end Run

/-! ## A token that outlives its session -/

/-- A login and the end of its session. -/
def signedOut : List AuthStep :=
  login ++ [.revoke (.session (sampleUuid 'u') (sampleUuid 'f')), .select 1, .commit 1, .blacklist 1]

/-- The access token of the login. -/
def firstAccess : AccessToken :=
  ⟨sampleUuid 'u', "acme", ["member"], "access-1", sampleUuid 'f', "user", accessTtlSeconds⟩

theorem signedOut_accepted :
    ¬ OfEndedSessions
      (RejectedFrom id accessTtlSeconds (after (AuthState.step id accessTtlSeconds) .start signedOut))
      (after (AuthState.step id accessTtlSeconds) .start signedOut) := by
  intro h
  have hreturned : (after (AuthState.step id accessTtlSeconds) .start signedOut).revokes[1]? =
      some (.returned (.session (sampleUuid 'u') (sampleUuid 'f')) [sampleUuid 'f']) := by decide +kernel
  have hminted : firstAccess ∈ (after (AuthState.step id accessTtlSeconds) .start signedOut).access := by
    decide +kernel
  have hvalid : (after (AuthState.step id accessTtlSeconds) .start signedOut).now < firstAccess.exp := by
    decide +kernel
  have haccepted : (getPrincipal (after (AuthState.step id accessTtlSeconds) .start signedOut) ⟨"", false⟩
      firstAccess).toOption.isSome = true := by decide +kernel
  obtain ⟨e, he⟩ := h 1 _ _ _ hreturned firstAccess hminted rfl [] ⟨"", false⟩ hvalid
  change getPrincipal (after (AuthState.step id accessTtlSeconds) .start signedOut) ⟨"", false⟩ firstAccess = _ at he
  rw [he] at haccepted
  cases haccepted

end RevenueOS.Auth
