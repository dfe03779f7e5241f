import RevenueOS.Lib.Table
import RevenueOS.Lib.Slots
import RevenueOS.Lib.TtlStore
import RevenueOS.Lib.Trace
import RevenueOS.Workflows.Triggers
import Mathlib.Data.List.Sort

/-!
# RevenueOS.Auth.Sessions — refresh-token families and the calls that rotate and revoke them

`issue_session`, `refresh` and `logout` (`application/auth/service.py`), `revoke_session`, `revoke_all` and
`enforce_session_cap` (`application/auth/sessions.py`) and the refresh tokens of `infrastructure/auth/tokens.py`, as
one system whose steps are their transactions.

* `refresh` judges the presented token in one transaction, reloads the principal in a second and rotates in a third,
  which revokes the row it was given by its identifier and inserts the next one.
* A revoking call selects its rows and writes them with the commit of the same transaction; the rows are not locked
  in between.  `revoke_session`, `revoke_all` and the session cap then blacklist the selected identifiers in Redis.
* A reused token opens a revoking call of its family.

`uuid4` and `uuid7` draw identifiers that are new: a draw that is not new is no step.  SHA-256 and the lifetime of an
access token are parameters.
-/

namespace RevenueOS.Auth

open RevenueOS.Py RevenueOS.Lib RevenueOS.Workflows

/-! ## Refresh tokens -/

/-- `REFRESH_TTL_SECONDS`. -/
def refreshTtlSeconds : ℕ := 604800

/-- `ACCESS_TTL_SECONDS`. -/
def accessTtlSeconds : ℕ := 900

/-- `MAX_SESSIONS_PER_USER`. -/
def maxSessionsPerUser : ℕ := 10

/-- A row of `refresh_tokens`. -/
structure RefreshToken where
  jti : String
  tokenHash : String
  userId : Uuid
  familyId : Uuid
  parentJti : Option String
  createdAt : ℕ
  expiresAt : ℕ
  revokedAt : Option ℕ
  revokedReason : Option String
deriving DecidableEq

namespace RefreshToken

/-- Neither revoked nor expired. -/
def Live (now : ℕ) (row : RefreshToken) : Prop := row.revokedAt = none ∧ now < row.expiresAt

instance (now : ℕ) (row : RefreshToken) : Decidable (row.Live now) :=
  inferInstanceAs (Decidable (row.revokedAt = none ∧ now < row.expiresAt))

def revoke (row : RefreshToken) (now : ℕ) (reason : String) : RefreshToken :=
  { row with revokedAt := some now, revokedReason := some reason }

/-- What no transaction changes in a row. -/
structure Same (a b : RefreshToken) : Prop where
  jti : a.jti = b.jti
  userId : a.userId = b.userId
  familyId : a.familyId = b.familyId
  parentJti : a.parentJti = b.parentJti
  expiresAt : a.expiresAt = b.expiresAt

end RefreshToken

abbrev TokenTable := Table RefreshToken.jti

/-- `parse_refresh_token`; `none` where it raises. -/
def parseRefreshToken (plaintext : String) : Option String :=
  let jti := beforeFirst plaintext "."
  let secret := plaintext.toList.drop (jti.length + 1)
  if jti = "" ∨ secret = [] then none else some jti

structure RotationOutcome where
  accepted : Bool
  reuseDetected : Bool
  revokeFamily : Option Uuid
  reason : Option String
deriving DecidableEq

/-- `evaluate_rotation`, on the stored row. -/
def evaluateRotation (stored : Option RefreshToken) (presentedHash : String) (now : ℕ) : RotationOutcome :=
  match stored with
  | none => ⟨false, false, none, some "unknown refresh token"⟩
  | some row =>
    if row.tokenHash ≠ presentedHash then ⟨false, false, none, some "unknown refresh token"⟩
    else if row.revokedAt ≠ none then
      ⟨false, true, some row.familyId, some "refresh token reuse detected; the session family was revoked"⟩
    else if row.expiresAt ≤ now then ⟨false, false, none, some "refresh token expired"⟩
    else ⟨true, false, none, none⟩

theorem jti_revokeIf (jtis : List String) (now : ℕ) (reason : String) (row : RefreshToken) :
    (if row.jti ∈ jtis then row.revoke now reason else row).jti = row.jti := by
  split_ifs
  · rfl
  · rfl

/-- The `UPDATE` of the rows a transaction holds. -/
def revokeRows (tokens : TokenTable) (jtis : List String) (now : ℕ) (reason : String) : TokenTable :=
  tokens.map (fun row => if row.jti ∈ jtis then row.revoke now reason else row) (jti_revokeIf jtis now reason)

/-- `sessions_to_evict`. -/
def sessionsToEvict (families : List Uuid) : List Uuid :=
  if maxSessionsPerUser ≤ families.length then families.take (families.length - maxSessionsPerUser + 1) else []

/-! ## Revoking calls -/

/-- A call that revokes families. -/
inductive Revocation where
  | logout (token : String)
  /-- `revoke_session`. -/
  | session (user family : Uuid)
  /-- `revoke_all`. -/
  | all (user : Uuid) (reason keepFamily : String)
  /-- `enforce_session_cap`. -/
  | cap (user : Uuid)
  /-- The branch of `refresh` for a reused token. -/
  | reuse (family : Uuid)
deriving DecidableEq

namespace Revocation

def reason : Revocation → String
  | .logout _ => "logout"
  | .session _ _ => "user_revoked"
  | .all _ reason _ => reason
  | .cap _ => "session_cap"
  | .reuse _ => "family_reuse"

def byReuse : Revocation → Bool
  | .reuse _ => true
  | _ => false

/-- The calls that end with `revoke_access_jtis`. -/
def blacklists : Revocation → Bool
  | .logout _ => false
  | .reuse _ => false
  | _ => true

end Revocation

/-- What a revoking call selects: the families it revokes and the rows it will write. -/
inductive Selection where
  | rows (families : List Uuid) (jtis : List String)
  /-- The call returns without a write. -/
  | nothing
  /-- `NotFound`. -/
  | notFound
deriving DecidableEq

/-- The identifiers of the rows that are not revoked and meet the condition. -/
def unrevokedJtis (tokens : TokenTable) (p : RefreshToken → Bool) : List String :=
  (tokens.rows.filter fun row => row.revokedAt.isNone && p row).map RefreshToken.jti

/-- The families of the live rows of the user, the oldest row first. -/
def liveFamilies (tokens : TokenTable) (now : ℕ) (user : Uuid) : List Uuid :=
  let rows := (tokens.rows.filter fun row => decide (row.Live now) && row.userId == user).insertionSort
    (fun a b => a.createdAt ≤ b.createdAt)
  (rows.map RefreshToken.familyId).foldl
    (fun ordered family => if family ∈ ordered then ordered else ordered ++ [family]) []

/-- `keep_family and str(row.family_id) == keep_family`. -/
def spared (keepFamily : String) (family : Uuid) : Bool := keepFamily != "" && family.text == keepFamily

def Revocation.select (tokens : TokenTable) (now : ℕ) : Revocation → Selection
  | .logout token =>
    match (parseRefreshToken token).bind tokens.find? with
    | none => .nothing
    | some row => .rows [row.familyId] (unrevokedJtis tokens fun r => r.familyId == row.familyId)
  | .session user family =>
    let jtis := unrevokedJtis tokens fun r => r.familyId == family && r.userId == user
    if jtis.isEmpty then .notFound else .rows [family] jtis
  | .all user _ keepFamily =>
    .rows (((tokens.rows.filter fun r => r.userId == user).map RefreshToken.familyId).filter (!spared keepFamily ·))
      (unrevokedJtis tokens fun r => r.userId == user && !spared keepFamily r.familyId)
  | .cap user =>
    let doomed := sessionsToEvict (liveFamilies tokens now user)
    if doomed.isEmpty then .nothing
    else .rows doomed (unrevokedJtis tokens fun r =>
      decide (now < r.expiresAt) && r.userId == user && doomed.contains r.familyId)
  | .reuse family => .rows [family] (unrevokedJtis tokens fun r => r.familyId == family)

/-! ## Calls -/

/-- What the tokens of a user say, besides the identifiers. -/
structure Profile where
  tenantSlug : String
  roles : List String
deriving DecidableEq

/-- The claims of an access token. -/
structure AccessToken where
  sub : Uuid
  tenantSlug : String
  roles : List String
  jti : String
  sid : Uuid
  actorType : String
  exp : ℕ
deriving DecidableEq

/-- What `generate_refresh_token` and `issue_access_token` draw. -/
structure Draw where
  jti : String
  secret : String
  accessJti : String
deriving DecidableEq

inductive RefreshCall where
  | presented (token : String)
  /-- The first transaction accepted the token. -/
  | judged (current : String) (family user : Uuid)
  /-- The principal was reloaded. -/
  | reloaded (current : String) (family user : Uuid) (profile : Profile)
  /-- The rotation is committed and the call returned the new tokens. -/
  | rotated (current jti : String)
  | rejected
deriving DecidableEq

inductive RevokeCall where
  | opened (request : Revocation)
  | selected (request : Revocation) (families : List Uuid) (jtis : List String)
  | committed (request : Revocation) (families : List Uuid) (jtis : List String)
  | returned (request : Revocation) (families : List Uuid)
  | failed
deriving DecidableEq

inductive IssueCall where
  /-- `enforce_session_cap` is running, as the revoking call `cap`. -/
  | capping (cap : ℕ) (user : Uuid) (profile : Profile)
  | issued (family : Uuid)
  | failed
deriving DecidableEq

/-- The committed rows, the access tokens that were minted, the blacklist with its clock, and the calls. -/
structure AuthState where
  tokens : TokenTable
  access : List AccessToken
  redis : TtlStore String
  refreshes : List RefreshCall
  revokes : List RevokeCall
  issues : List IssueCall

inductive AuthStep where
  | tick (seconds : ℕ)
  /-- A login calls `issue_session`. -/
  | signIn (user : Uuid) (profile : Profile)
  | issue (k : ℕ) (family : Uuid) (draw : Draw)
  | refresh (token : String)
  | judge (k : ℕ)
  /-- `none` for a user that is gone or not active. -/
  | reload (k : ℕ) (profile : Option Profile)
  | rotate (k : ℕ) (draw : Draw)
  | revoke (request : Revocation)
  | select (k : ℕ)
  | commit (k : ℕ)
  | blacklist (k : ℕ)
  | failRefresh (k : ℕ)
  | failRevoke (k : ℕ)
  | failIssue (k : ℕ)

namespace AuthState

def start : AuthState := ⟨.empty, [], .empty, [], [], []⟩

def now (s : AuthState) : ℕ := s.redis.now

/-- The identifiers drawn so far. -/
def used (s : AuthState) : List String := s.tokens.rows.map RefreshToken.jti ++ s.access.map AccessToken.jti

/-- The draw is new. -/
def Fresh (s : AuthState) (draw : Draw) : Prop :=
  draw.jti ∉ s.used ∧ draw.accessJti ∉ s.used ∧ draw.jti ≠ draw.accessJti

instance (s : AuthState) (draw : Draw) : Decidable (s.Fresh draw) :=
  inferInstanceAs (Decidable (_ ∧ _ ∧ _))

/-- No row is of the family. -/
def NewFamily (s : AuthState) (family : Uuid) : Prop := ∀ row ∈ s.tokens.rows, row.familyId ≠ family

instance (s : AuthState) (family : Uuid) : Decidable (s.NewFamily family) :=
  inferInstanceAs (Decidable (∀ row ∈ s.tokens.rows, row.familyId ≠ family))

def setRefresh (s : AuthState) (k : ℕ) (call : RefreshCall) : AuthState :=
  { s with refreshes := s.refreshes.set k call }

def setRevoke (s : AuthState) (k : ℕ) (call : RevokeCall) : AuthState := { s with revokes := s.revokes.set k call }

section Step

variable (sha256 : String → String) (accessTtl : ℕ)

/-- The row that is inserted with a draw. -/
def newRow (s : AuthState) (draw : Draw) (user family : Uuid) (parent : Option String) : RefreshToken where
  jti := draw.jti
  tokenHash := sha256 (draw.jti ++ "." ++ draw.secret)
  userId := user
  familyId := family
  parentJti := parent
  createdAt := s.now
  expiresAt := s.now + refreshTtlSeconds
  revokedAt := none
  revokedReason := none

/-- `issue_access_token`: the claims carry no `jti`, so it is drawn. -/
def newAccess (s : AuthState) (draw : Draw) (user family : Uuid) (profile : Profile) : AccessToken where
  sub := user
  tenantSlug := profile.tenantSlug
  roles := profile.roles
  jti := draw.accessJti
  sid := family
  actorType := "user"
  exp := s.now + accessTtl

/-- `revoke_access_jtis`. -/
def revokeAccessJtis (redis : TtlStore String) (jtis : List String) : TtlStore String :=
  (jtis.filter (· ≠ "")).foldl (fun redis jti => redis.set jti accessTtlSeconds) redis

def step (s : AuthState) : AuthStep → AuthState
  | .tick seconds => { s with redis := s.redis.elapse seconds }
  | .signIn user profile =>
    { s with
      revokes := s.revokes ++ [.opened (.cap user)]
      issues := s.issues ++ [.capping s.revokes.length user profile] }
  | .issue k family draw =>
    match s.issues[k]? with
    | some (.capping cap user profile) =>
      match s.revokes[cap]? with
      | some (.returned _ _) =>
        if s.Fresh draw ∧ s.NewFamily family then
          { s with
            tokens := s.tokens.insert (s.newRow sha256 draw user family none)
            access := s.access ++ [s.newAccess accessTtl draw user family profile]
            issues := s.issues.set k (.issued family) }
        else s
      | _ => s
    | _ => s
  | .refresh token => { s with refreshes := s.refreshes ++ [.presented token] }
  | .judge k =>
    match s.refreshes[k]? with
    | some (.presented token) =>
      match parseRefreshToken token with
      | none => s.setRefresh k .rejected
      | some jti =>
        let outcome := evaluateRotation (s.tokens.find? jti) (sha256 token) s.now
        match s.tokens.find? jti with
        | none => s.setRefresh k .rejected
        | some row =>
          if outcome.reuseDetected then
            { s.setRefresh k .rejected with revokes := s.revokes ++ [.opened (.reuse row.familyId)] }
          else if !outcome.accepted then s.setRefresh k .rejected
          else s.setRefresh k (.judged row.jti row.familyId row.userId)
    | _ => s
  | .reload k profile =>
    match s.refreshes[k]?, profile with
    | some (.judged current family user), some profile => s.setRefresh k (.reloaded current family user profile)
    | some (.judged _ _ _), none => s.setRefresh k .rejected
    | _, _ => s
  | .rotate k draw =>
    match s.refreshes[k]? with
    | some (.reloaded current family user profile) =>
      if s.Fresh draw then
        { s with
          tokens := (revokeRows s.tokens [current] s.now "rotated").insert
            (s.newRow sha256 draw user family (some current))
          access := s.access ++ [s.newAccess accessTtl draw user family profile]
          refreshes := s.refreshes.set k (.rotated current draw.jti) }
      else s
    | _ => s
  | .revoke request =>
    -- the reuse of a token is found by `judge`
    if request.byReuse then s else { s with revokes := s.revokes ++ [.opened request] }
  | .select k =>
    match s.revokes[k]? with
    | some (.opened request) =>
      match request.select s.tokens s.now with
      | .rows families jtis => s.setRevoke k (.selected request families jtis)
      | .nothing => s.setRevoke k (.returned request [])
      | .notFound => s.setRevoke k .failed
    | _ => s
  | .commit k =>
    match s.revokes[k]? with
    | some (.selected request families jtis) =>
      { s.setRevoke k (.committed request families jtis) with
        tokens := revokeRows s.tokens jtis s.now request.reason }
    | _ => s
  | .blacklist k =>
    match s.revokes[k]? with
    | some (.committed request families jtis) =>
      { s.setRevoke k (.returned request families) with
        redis := if request.blacklists then revokeAccessJtis s.redis jtis else s.redis }
    | _ => s
  | .failRefresh k =>
    match s.refreshes[k]? with
    | some (.rotated _ _) => s
    | some _ => s.setRefresh k .rejected
    | none => s
  | .failRevoke k =>
    match s.revokes[k]? with
    | some (.returned _ _) => s
    | some _ => s.setRevoke k .failed
    | none => s
  | .failIssue k =>
    match s.issues[k]? with
    | some (.capping _ _ _) => { s with issues := s.issues.set k .failed }
    | _ => s

end Step

end AuthState

/-! ## What a step does -/

/-- What a step of the system does to it. -/
inductive AuthMove (sha256 : String → String) (accessTtl : ℕ) (s : AuthState) : AuthStep → AuthState → Prop where
  | idle {l : AuthStep} : AuthMove sha256 accessTtl s l s
  | ticked (seconds : ℕ) : AuthMove sha256 accessTtl s (.tick seconds) { s with redis := s.redis.elapse seconds }
  | signedIn (user : Uuid) (profile : Profile) : AuthMove sha256 accessTtl s (.signIn user profile)
      { s with
        revokes := s.revokes ++ [.opened (.cap user)]
        issues := s.issues ++ [.capping s.revokes.length user profile] }
  | issued {k : ℕ} {family : Uuid} {draw : Draw} (user : Uuid) (profile : Profile) (hfresh : s.Fresh draw)
      (hfamily : s.NewFamily family) : AuthMove sha256 accessTtl s (.issue k family draw)
      { s with
        tokens := s.tokens.insert (s.newRow sha256 draw user family none)
        access := s.access ++ [s.newAccess accessTtl draw user family profile]
        issues := s.issues.set k (.issued family) }
  | presented (token : String) : AuthMove sha256 accessTtl s (.refresh token)
      { s with refreshes := s.refreshes ++ [.presented token] }
  | refreshing {l : AuthStep} {k : ℕ} {call : RefreshCall}
      (hopen : ∀ current jti, s.refreshes[k]? ≠ some (.rotated current jti))
      (hcall : call = .rejected ∨ (∃ row ∈ s.tokens.rows, call = .judged row.jti row.familyId row.userId) ∨
        ∃ current family user profile, s.refreshes[k]? = some (.judged current family user) ∧
          call = .reloaded current family user profile) :
      AuthMove sha256 accessTtl s l (s.setRefresh k call)
  | reused {l : AuthStep} {k : ℕ} {token : String} {row : RefreshToken}
      (hk : s.refreshes[k]? = some (.presented token)) (hrow : row ∈ s.tokens.rows) :
      AuthMove sha256 accessTtl s l
        { s.setRefresh k .rejected with revokes := s.revokes ++ [.opened (.reuse row.familyId)] }
  | rotated {k : ℕ} {draw : Draw} {current : String} {family user : Uuid} {profile : Profile}
      (hk : s.refreshes[k]? = some (.reloaded current family user profile)) (hfresh : s.Fresh draw) :
      AuthMove sha256 accessTtl s (.rotate k draw)
      { s with
        tokens := (revokeRows s.tokens [current] s.now "rotated").insert
          (s.newRow sha256 draw user family (some current))
        access := s.access ++ [s.newAccess accessTtl draw user family profile]
        refreshes := s.refreshes.set k (.rotated current draw.jti) }
  | requested (request : Revocation) (hrequest : request.byReuse = false) :
      AuthMove sha256 accessTtl s (.revoke request) { s with revokes := s.revokes ++ [.opened request] }
  | selected {k : ℕ} {request : Revocation} {families : List Uuid} {jtis : List String}
      (hk : s.revokes[k]? = some (.opened request)) (hselect : request.select s.tokens s.now = .rows families jtis) :
      AuthMove sha256 accessTtl s (.select k) (s.setRevoke k (.selected request families jtis))
  | unwritten {l : AuthStep} {k : ℕ} {call : RevokeCall}
      (hopen : ∀ request families, s.revokes[k]? ≠ some (.returned request families))
      (hcall : call = .failed ∨ ∃ request, call = .returned request []) :
      AuthMove sha256 accessTtl s l (s.setRevoke k call)
  | committed {k : ℕ} {request : Revocation} {families : List Uuid} {jtis : List String}
      (hk : s.revokes[k]? = some (.selected request families jtis)) :
      AuthMove sha256 accessTtl s (.commit k)
      { s.setRevoke k (.committed request families jtis) with
        tokens := revokeRows s.tokens jtis s.now request.reason }
  | blacklisted {k : ℕ} {request : Revocation} {families : List Uuid} {jtis : List String}
      (hk : s.revokes[k]? = some (.committed request families jtis)) :
      AuthMove sha256 accessTtl s (.blacklist k)
      { s.setRevoke k (.returned request families) with
        redis := if request.blacklists then AuthState.revokeAccessJtis s.redis jtis else s.redis }
  | issueFailed {k : ℕ} : AuthMove sha256 accessTtl s (.failIssue k) { s with issues := s.issues.set k .failed }

section Moves

variable (sha256 : String → String) (accessTtl : ℕ)

theorem authMove_issue (s : AuthState) (k : ℕ) (family : Uuid) (draw : Draw) :
    AuthMove sha256 accessTtl s (.issue k family draw) (s.step sha256 accessTtl (.issue k family draw)) := by
  dsimp only [AuthState.step]
  split
  · rename_i cap user profile hk
    split
    · split_ifs with hfresh
      · exact .issued user profile hfresh.1 hfresh.2
      · exact .idle
    · exact .idle
  · exact .idle

theorem authMove_judge (s : AuthState) (k : ℕ) :
    AuthMove sha256 accessTtl s (.judge k) (s.step sha256 accessTtl (.judge k)) := by
  dsimp only [AuthState.step]
  split
  · rename_i token hk
    have hopen : ∀ current jti, s.refreshes[k]? ≠ some (.rotated current jti) :=
      fun _ _ => getElem?_ne_of_some hk RefreshCall.noConfusion
    split
    · exact .refreshing hopen (Or.inl rfl)
    · rename_i jti hjti
      cases hfind : s.tokens.find? jti with
      | none => exact .refreshing hopen (Or.inl rfl)
      | some row =>
        dsimp only
        split_ifs
        · exact .reused hk (Table.mem_of_find? hfind)
        · exact .refreshing hopen (Or.inl rfl)
        · exact .refreshing hopen (Or.inr (Or.inl ⟨row, Table.mem_of_find? hfind, rfl⟩))
  · exact .idle

theorem authMove_step (s : AuthState) (l : AuthStep) : AuthMove sha256 accessTtl s l (s.step sha256 accessTtl l) := by
  cases l with
  | tick seconds => exact .ticked seconds
  | signIn user profile => exact .signedIn user profile
  | issue k family draw => exact authMove_issue sha256 accessTtl s k family draw
  | refresh token => exact .presented token
  | judge k => exact authMove_judge sha256 accessTtl s k
  | reload k profile =>
    dsimp only [AuthState.step]
    split
    · rename_i current family user profile hk
      exact .refreshing (fun _ _ => getElem?_ne_of_some hk RefreshCall.noConfusion)
        (Or.inr (Or.inr ⟨current, family, user, profile, hk, rfl⟩))
    · rename_i hk
      exact .refreshing (fun _ _ => getElem?_ne_of_some hk RefreshCall.noConfusion) (Or.inl rfl)
    · exact .idle
  | rotate k draw =>
    dsimp only [AuthState.step]
    split
    · rename_i current family user profile hk
      split_ifs with hfresh
      · exact .rotated hk hfresh
      · exact .idle
    · exact .idle
  | revoke request =>
    dsimp only [AuthState.step]
    split_ifs with hrequest
    · exact .idle
    · exact .requested request (Bool.not_eq_true _ ▸ hrequest)
  | select k =>
    dsimp only [AuthState.step]
    split
    · rename_i request hk
      have hopen : ∀ request families, s.revokes[k]? ≠ some (.returned request families) :=
        fun _ _ => getElem?_ne_of_some hk RevokeCall.noConfusion
      split
      · rename_i families jtis hselect
        exact .selected hk hselect
      · exact .unwritten hopen (Or.inr ⟨request, rfl⟩)
      · exact .unwritten hopen (Or.inl rfl)
    · exact .idle
  | commit k =>
    dsimp only [AuthState.step]
    split
    · rename_i request families jtis hk
      exact .committed hk
    · exact .idle
  | blacklist k =>
    dsimp only [AuthState.step]
    split
    · rename_i request families jtis hk
      exact .blacklisted hk
    · exact .idle
  | failRefresh k =>
    dsimp only [AuthState.step]
    split
    · exact .idle
    · rename_i hopen hk
      exact .refreshing (fun current jti => getElem?_ne_of_some hk (hopen current jti)) (Or.inl rfl)
    · exact .idle
  | failRevoke k =>
    dsimp only [AuthState.step]
    split
    · exact .idle
    · rename_i hopen hk
      exact .unwritten (fun request families => getElem?_ne_of_some hk (hopen request families)) (Or.inl rfl)
    · exact .idle
  | failIssue k =>
    dsimp only [AuthState.step]
    split
    · exact .issueFailed
    · exact .idle

end Moves

/-! ## How the clock and the rows change -/

theorem now_revokeAccessJtis (redis : TtlStore String) (jtis : List String) :
    (AuthState.revokeAccessJtis redis jtis).now = redis.now := by
  unfold AuthState.revokeAccessJtis
  generalize jtis.filter (· ≠ "") = live
  induction live generalizing redis with
  | nil => rfl
  | cons jti live ih => exact ih (redis.set jti accessTtlSeconds)

theorem RefreshToken.Same.refl (row : RefreshToken) : row.Same row := ⟨rfl, rfl, rfl, rfl, rfl⟩

/-- Rows are only revoked, and at most one is added. -/
structure Evolves (t t' : TokenTable) (new : Option RefreshToken) : Prop where
  origin : ∀ row' ∈ t'.rows, new = some row' ∨
    ∃ row ∈ t.rows, row.Same row' ∧ (row'.revokedAt = none → row.revokedAt = none)
  kept : ∀ row ∈ t.rows, ∃ row' ∈ t'.rows, row.Same row' ∧ (row.revokedAt ≠ none → row'.revokedAt ≠ none)

theorem Evolves.refl (t : TokenTable) : Evolves t t none where
  origin row h := Or.inr ⟨row, h, .refl row, id⟩
  kept row h := ⟨row, h, .refl row, id⟩

theorem same_revokeIf (jtis : List String) (now : ℕ) (reason : String) (row : RefreshToken) :
    row.Same (if row.jti ∈ jtis then row.revoke now reason else row) := by
  split_ifs
  · exact ⟨rfl, rfl, rfl, rfl, rfl⟩
  · exact .refl row

theorem unrevoked_of_revokeIf {jtis : List String} {now : ℕ} {reason : String} {row : RefreshToken}
    (h : (if row.jti ∈ jtis then row.revoke now reason else row).revokedAt = none) :
    row.jti ∉ jtis ∧ row.revokedAt = none := by
  split_ifs at h with hmem
  · cases h
  · exact ⟨hmem, h⟩

theorem evolves_revokeRows (t : TokenTable) (jtis : List String) (now : ℕ) (reason : String) :
    Evolves t (revokeRows t jtis now reason) none where
  origin row' h := by
    obtain ⟨row, hrow, rfl⟩ := List.mem_map.mp h
    exact Or.inr ⟨row, hrow, same_revokeIf jtis now reason row, fun h => (unrevoked_of_revokeIf h).2⟩
  kept row h := by
    refine ⟨_, List.mem_map.mpr ⟨row, h, rfl⟩, same_revokeIf jtis now reason row, fun hrevoked hnone => ?_⟩
    exact hrevoked (unrevoked_of_revokeIf hnone).2

/-- A row that is not revoked after the `UPDATE` is not among its rows. -/
theorem unrevoked_revokeRows {t : TokenTable} {jtis : List String} {now : ℕ} {reason : String} {row' : RefreshToken}
    (h : row' ∈ (revokeRows t jtis now reason).rows) (hnone : row'.revokedAt = none) :
    row'.jti ∉ jtis ∧ row' ∈ t.rows := by
  obtain ⟨row, hrow, rfl⟩ := List.mem_map.mp h
  obtain ⟨hmem, -⟩ := unrevoked_of_revokeIf hnone
  rw [if_neg hmem]
  exact ⟨hmem, hrow⟩

theorem rows_insert {t : TokenTable} {new : RefreshToken} (hfresh : new.jti ∉ t.rows.map RefreshToken.jti) :
    (t.insert new).rows = t.rows ++ [new] := if_neg hfresh

theorem Evolves.insert {t t' : TokenTable} (h : Evolves t t' none) {new : RefreshToken}
    (hfresh : new.jti ∉ t'.rows.map RefreshToken.jti) : Evolves t (t'.insert new) (some new) where
  origin row' h' := by
    rw [rows_insert hfresh, List.mem_append, List.mem_singleton] at h'
    rcases h' with h' | rfl
    · exact Or.inr ((h.origin row' h').resolve_left (Option.some_ne_none row').symm)
    · exact Or.inl rfl
  kept row hrow := by
    obtain ⟨row', hrow', hsame⟩ := h.kept row hrow
    refine ⟨row', ?_, hsame⟩
    rw [rows_insert hfresh]
    exact List.mem_append_left _ hrow'

theorem jtis_revokeRows (t : TokenTable) (jtis : List String) (now : ℕ) (reason : String) :
    (revokeRows t jtis now reason).rows.map RefreshToken.jti = t.rows.map RefreshToken.jti := by
  unfold revokeRows Table.map
  rw [List.map_map]
  exact List.map_congr_left fun row _ => jti_revokeIf jtis now reason row

theorem AuthState.Fresh.row {s : AuthState} {draw : Draw} (h : s.Fresh draw) :
    draw.jti ∉ s.tokens.rows.map RefreshToken.jti := fun hmem => h.1 (List.mem_append_left _ hmem)

section Rows

variable {sha256 : String → String} {s : AuthState} {draw : Draw}

theorem evolves_issue (h : s.Fresh draw) (user family : Uuid) :
    Evolves s.tokens (s.tokens.insert (s.newRow sha256 draw user family none))
      (some (s.newRow sha256 draw user family none)) := (Evolves.refl s.tokens).insert h.row

theorem fresh_revokeRows (h : s.Fresh draw) (jtis : List String) (reason : String) :
    draw.jti ∉ (revokeRows s.tokens jtis s.now reason).rows.map RefreshToken.jti := by
  rw [jtis_revokeRows]
  exact h.row

theorem evolves_rotate (h : s.Fresh draw) (current : String) (user family : Uuid) :
    Evolves s.tokens
      ((revokeRows s.tokens [current] s.now "rotated").insert (s.newRow sha256 draw user family (some current)))
      (some (s.newRow sha256 draw user family (some current))) :=
  (evolves_revokeRows s.tokens [current] s.now "rotated").insert (fresh_revokeRows h [current] "rotated")

end Rows

/-! ## What holds of every run -/

/-- A call that goes on names a row, and a rotation has left a row behind. -/
def RefreshCall.Names (t : TokenTable) : RefreshCall → Prop
  | .judged current family user => ∃ row ∈ t.rows, row.jti = current ∧ row.familyId = family ∧ row.userId = user
  | .reloaded current family user _ => ∃ row ∈ t.rows, row.jti = current ∧ row.familyId = family ∧ row.userId = user
  | .rotated current _ => ∃ row ∈ t.rows, row.parentJti = some current
  | _ => True

theorem RefreshCall.Names.evolve {t t' : TokenTable} {new : Option RefreshToken} (ht : Evolves t t' new)
    {call : RefreshCall} (h : call.Names t) : call.Names t' := by
  have hrow : ∀ {current : String} {family user : Uuid},
      (∃ row ∈ t.rows, row.jti = current ∧ row.familyId = family ∧ row.userId = user) →
        ∃ row ∈ t'.rows, row.jti = current ∧ row.familyId = family ∧ row.userId = user := by
    rintro current family user ⟨row, hrow, rfl, rfl, rfl⟩
    obtain ⟨row', hrow', hsame, -⟩ := ht.kept row hrow
    exact ⟨row', hrow', hsame.jti.symm, hsame.familyId.symm, hsame.userId.symm⟩
  cases call with
  | presented token => trivial
  | judged current family user => exact hrow h
  | reloaded current family user profile => exact hrow h
  | rotated current jti =>
    obtain ⟨row, hrow, hparent⟩ := h
    obtain ⟨row', hrow', hsame, -⟩ := ht.kept row hrow
    exact ⟨row', hrow', hsame.parentJti ▸ hparent⟩
  | rejected => trivial

/-- The row that was rotated into another one: revoked, of the same family, by a call that returned. -/
structure RotatedFrom (s : AuthState) (row : RefreshToken) (p : String) : Prop where
  parent : ∃ parent ∈ s.tokens.rows, parent.jti = p ∧ parent.familyId = row.familyId ∧ parent.revokedAt ≠ none
  call : ∃ (k : ℕ) (jti : String), s.refreshes[k]? = some (.rotated p jti)

structure AuthState.Sound (s : AuthState) : Prop where
  users : ∀ a ∈ s.tokens.rows, ∀ b ∈ s.tokens.rows, a.familyId = b.familyId → a.userId = b.userId
  calls : ∀ (k : ℕ) (call : RefreshCall), s.refreshes[k]? = some call → call.Names s.tokens
  parents : ∀ row ∈ s.tokens.rows, ∀ p, row.parentJti = some p → RotatedFrom s row p

theorem AuthState.Sound.evolve {s s' : AuthState} {new : Option RefreshToken} (h : s.Sound)
    (ht : Evolves s.tokens s'.tokens new)
    (hcalls : ∀ (k : ℕ) (call : RefreshCall), s'.refreshes[k]? = some call →
      s.refreshes[k]? = some call ∨ call.Names s'.tokens)
    (hdone : ∀ (k : ℕ) (p jti : String), s.refreshes[k]? = some (.rotated p jti) →
      s'.refreshes[k]? = some (.rotated p jti))
    (hnew : ∀ row, new = some row →
      (∀ r ∈ s.tokens.rows, r.familyId = row.familyId → r.userId = row.userId) ∧
        ∀ p, row.parentJti = some p → RotatedFrom s' row p) : s'.Sound where
  users a ha b hb hfamily := by
    rcases ht.origin a ha with hnewa | ⟨a', ha', hsamea, -⟩
    · rcases ht.origin b hb with hnewb | ⟨b', hb', hsameb, -⟩
      · rw [Option.some.inj (hnewa.symm.trans hnewb)]
      · rw [← hsameb.userId]
        exact ((hnew a hnewa).1 b' hb' (hsameb.familyId.trans hfamily.symm)).symm
    · rcases ht.origin b hb with hnewb | ⟨b', hb', hsameb, -⟩
      · rw [← hsamea.userId]
        exact (hnew b hnewb).1 a' ha' (hsamea.familyId.trans hfamily)
      · rw [← hsamea.userId, ← hsameb.userId]
        exact h.users a' ha' b' hb' (hsamea.familyId.trans (hfamily.trans hsameb.familyId.symm))
  calls k call hk := by
    rcases hcalls k call hk with hold | hnames
    · exact (h.calls k call hold).evolve ht
    · exact hnames
  parents row' hrow' p hp := by
    rcases ht.origin row' hrow' with hnew' | ⟨row, hrow, hsame, -⟩
    · exact (hnew row' hnew').2 p hp
    · obtain ⟨⟨parent, hparent, rfl, hfamily, hrevoked⟩, k, jti, hk⟩ := h.parents row hrow p (hsame.parentJti.trans hp)
      obtain ⟨parent', hparent', hsame', hrevoked'⟩ := ht.kept parent hparent
      exact ⟨⟨parent', hparent', hsame'.jti.symm, hsame'.familyId.symm.trans (hfamily.trans hsame.familyId),
        hrevoked' hrevoked⟩, k, jti, hdone k _ jti hk⟩

/-- A step that adds no row and ends no rotated call. -/
theorem AuthState.Sound.evolve_none {s s' : AuthState} (h : s.Sound) (ht : Evolves s.tokens s'.tokens none)
    (hcalls : ∀ (k : ℕ) (call : RefreshCall), s'.refreshes[k]? = some call →
      s.refreshes[k]? = some call ∨ call.Names s'.tokens)
    (hdone : ∀ (k : ℕ) (p jti : String), s.refreshes[k]? = some (.rotated p jti) →
      s'.refreshes[k]? = some (.rotated p jti)) :
    s'.Sound := h.evolve ht hcalls hdone (fun _ hnew => by cases hnew)

theorem AuthState.Sound.setRefresh {s : AuthState} (h : s.Sound) {k : ℕ} {call : RefreshCall}
    (hopen : ∀ current jti, s.refreshes[k]? ≠ some (.rotated current jti)) (hcall : call.Names s.tokens) :
    (s.setRefresh k call).Sound := by
  refine h.evolve_none (Evolves.refl s.tokens) (fun j c hj => ?_) (fun j p jti hj => ?_)
  · rcases getElem?_set_cases hj with ⟨-, rfl⟩ | ⟨-, hj⟩
    · exact Or.inr hcall
    · exact Or.inl hj
  · have hne : k ≠ j := by
      rintro rfl
      exact hopen p jti hj
    exact (List.getElem?_set_ne hne).trans hj

theorem AuthState.Sound.issued {sha256 : String → String} {s : AuthState} (h : s.Sound) {draw : Draw} {family : Uuid}
    (hfresh : s.Fresh draw) (hfamily : s.NewFamily family) {user : Uuid} {access : List AccessToken}
    {issues : List IssueCall} :
    AuthState.Sound { s with
      tokens := s.tokens.insert (s.newRow sha256 draw user family none), access := access, issues := issues } := by
  refine h.evolve (evolves_issue hfresh user family) (fun _ _ hk => Or.inl hk) (fun _ _ _ hk => hk) ?_
  intro row hrow
  cases hrow
  exact ⟨fun r hr hf => absurd hf (hfamily r hr), fun p hp => by cases hp⟩

theorem AuthState.Sound.rotated {sha256 : String → String} {s : AuthState} (h : s.Sound) {k : ℕ} {draw : Draw}
    {current : String} {family user : Uuid} {profile : Profile}
    (hk : s.refreshes[k]? = some (.reloaded current family user profile)) (hfresh : s.Fresh draw)
    {access : List AccessToken} :
    AuthState.Sound { s with
      tokens := (revokeRows s.tokens [current] s.now "rotated").insert
        (s.newRow sha256 draw user family (some current))
      access := access
      refreshes := s.refreshes.set k (.rotated current draw.jti) } := by
  obtain ⟨row, hrow, rfl, rfl, rfl⟩ := h.calls k _ hk
  have hinsert := @rows_insert _ (s.newRow sha256 draw row.userId row.familyId (some row.jti))
    (fresh_revokeRows hfresh [row.jti] "rotated")
  refine h.evolve (evolves_rotate hfresh row.jti row.userId row.familyId) (fun j call hj => ?_)
    (fun j p jti hj => ?_) ?_
  · rcases getElem?_set_cases hj with ⟨-, rfl⟩ | ⟨-, hj⟩
    · refine Or.inr ⟨s.newRow sha256 draw row.userId row.familyId (some row.jti), ?_, rfl⟩
      rw [hinsert]
      exact List.mem_append_right _ List.mem_cons_self
    · exact Or.inl hj
  · have hne : k ≠ j := by
      rintro rfl
      exact getElem?_ne_of_some hk RefreshCall.noConfusion hj
    exact (List.getElem?_set_ne hne).trans hj
  · intro new hnew
    cases hnew
    refine ⟨fun r hr hf => h.users r hr row hrow hf, fun p hp => ?_⟩
    cases hp
    refine ⟨⟨row.revoke s.now "rotated", ?_, rfl, rfl, Option.some_ne_none _⟩, k, draw.jti,
      getElem?_set_of_some hk⟩
    rw [hinsert]
    refine List.mem_append_left _ (List.mem_map.mpr ⟨row, hrow, ?_⟩)
    rw [if_pos (List.mem_singleton.mpr rfl)]

theorem AuthState.Sound.move {sha256 : String → String} {accessTtl : ℕ} {s s' : AuthState} {l : AuthStep}
    (h : s.Sound) (hmove : AuthMove sha256 accessTtl s l s') : s'.Sound := by
  have hsame : ∀ {s'' : AuthState}, s''.tokens = s.tokens → s''.refreshes = s.refreshes → s''.Sound := by
    intro s'' ht hr
    refine h.evolve_none (ht ▸ Evolves.refl s.tokens) (fun k call hk => Or.inl (hr ▸ hk)) (fun k p jti hk => hr ▸ hk)
  cases hmove with
  | idle => exact h
  | ticked seconds => exact hsame rfl rfl
  | signedIn user profile => exact hsame rfl rfl
  | issued user profile hfresh hfamily => exact h.issued hfresh hfamily
  | presented token =>
    refine h.evolve_none (Evolves.refl s.tokens) (fun j c hj => ?_) (fun j p jti hj => getElem?_concat_of_some hj)
    rcases getElem?_concat_cases hj with rfl | hj
    · exact Or.inr trivial
    · exact Or.inl hj
  | refreshing hopen hcall =>
    refine h.setRefresh hopen ?_
    rcases hcall with rfl | ⟨row, hrow, rfl⟩ | ⟨current, family, user, profile, hk, rfl⟩
    · trivial
    · exact ⟨row, hrow, rfl, rfl, rfl⟩
    · have hnames := h.calls _ _ hk
      exact hnames
  | @reused _ k token row hk hrow =>
    have hopen : ∀ current jti, s.refreshes[k]? ≠ some (.rotated current jti) :=
      fun _ _ => getElem?_ne_of_some hk RefreshCall.noConfusion
    have hset : (s.setRefresh k .rejected).Sound := h.setRefresh hopen trivial
    exact ⟨hset.users, hset.calls, fun row hrow p hp =>
      ⟨(hset.parents row hrow p hp).parent, (hset.parents row hrow p hp).call⟩⟩
  | rotated hk hfresh => exact h.rotated hk hfresh
  | requested request hrequest => exact hsame rfl rfl
  | selected hk hselect => exact hsame rfl rfl
  | unwritten hopen hcall => exact hsame rfl rfl
  | committed hk =>
    exact h.evolve_none (evolves_revokeRows s.tokens _ s.now _) (fun _ _ hk => Or.inl hk) (fun _ _ _ hk => hk)
  | blacklisted hk => exact hsame rfl rfl
  | issueFailed => exact hsame rfl rfl

theorem sound_start : AuthState.start.Sound where
  users a ha := by cases ha
  calls k call h := by cases h
  parents row hrow := by cases hrow

end RevenueOS.Auth
