import RevenueOS.Auth.Permissions
import RevenueOS.Lib.Trace

/-!
# RevenueOS.Auth.Invitations — who becomes a member, and with which role

`application/auth/invitations.py` behind the routes of `api/v1/users.py`, in one tenant.  A call reads, and commits
later or never; any number of calls are open at a time, and what one has read may be out of date when it commits.  What
refuses a commit then are the unique indexes.

* `no_escalation`: no member has a permission or a scope that no founder has, but for `tenant:list`.
* `one_membership_each`: an invitation is accepted once at most, and nobody is a member twice.
* `settled_is_final`: an invitation that is accepted, revoked or expired is never accepted again.

Nothing removes a member or changes a role.  An address is held as `normalize_email` leaves it, and a token by its hash;
the role row that the first invitation to a role creates is held by its name.
-/

namespace RevenueOS.Auth

open RevenueOS.Lib RevenueOS.Py RevenueOS.Workflows

/-! ## The tables -/

/-- A user with the roles of its `user_roles`. -/
structure Member where
  id : Uuid
  email : String
  fullName : String
  isOwner : Bool
  roles : List Role
deriving DecidableEq

/-- `_load_roles`. -/
def Member.effectiveRoles (m : Member) : List Role :=
  if m.roles = [] then (if m.isOwner then [.owner] else [.member]) else m.roles

structure Invitation where
  id : Uuid
  email : String
  role : Option Role
  tokenHash : String
  invitedBy : Uuid
  expiresAt : ℕ
  acceptedAt : Option ℕ
  revokedAt : Option ℕ
deriving DecidableEq

inductive InvitationStatus where
  | accepted
  | revoked
  | expired
  | pending
deriving DecidableEq

/-- `_status`. -/
def Invitation.status (i : Invitation) (now : ℕ) : InvitationStatus :=
  if i.acceptedAt ≠ none then .accepted
  else if i.revokedAt ≠ none then .revoked
  else if i.expiresAt ≤ now then .expired
  else .pending

/-- The condition of `uq_invitations_tenant_email_pending`: what has expired is still in the index. -/
def Invitation.unsettled (i : Invitation) : Bool := i.acceptedAt.isNone && i.revokedAt.isNone

def Invitation.accept (i : Invitation) (time : ℕ) : Invitation := { i with acceptedAt := some time }

def Invitation.revoke (i : Invitation) (time : ℕ) : Invitation := { i with revokedAt := some time }

inductive AuditEntry where
  | invited (invitation actor : Uuid) (email : String) (role : Role)
  | invitationRevoked (invitation actor : Uuid)
  | invitationAccepted (invitation user : Uuid) (email : String) (role : Option Role)
deriving DecidableEq

/-- A call that has read and not yet committed, with the time at which it read. -/
inductive StaffCall where
  | invite (role : Role) (newRole : Bool) (row : Invitation) (retired : Option Uuid) (readAt : ℕ)
  | accept (invitation : Invitation) (user : Member) (readAt : ℕ)
  | revoke (actor : Uuid) (invitation : Uuid) (writes : Bool) (readAt : ℕ)
  | ended
deriving DecidableEq

structure Staff where
  now : ℕ
  users : List Member
  roleRows : List Role
  invitations : List Invitation
  audit : List AuditEntry
  calls : List StaffCall

/-! ## What a call reads -/

inductive StaffError where
  | valueError
  | validation (message : String)
  | forbidden (message : String) (requested : Role) (assignable : List Role)
  | missingPermission
  | conflict (message : String) (invitation : Option Uuid)
  | notFound (message : String)
deriving DecidableEq

/-- `INVITATION_TTL`, in microseconds. -/
def invitationTtl : ℕ := 604800000000

/-- `_INVALID_LINK`. -/
def invalidLink : String := "This invitation is invalid, expired, or has already been used."

namespace Staff

/-- `create_invitation` and `invite_user`, up to the commit; `id` and `tokenHash` are new. -/
def inviteUser (normalize : String → Option String) (s : Staff) (actor : Member) (email : String) (role : Role)
    (id : Uuid) (tokenHash : String) : Except StaffError StaffCall :=
  if permissionsFor actor.effectiveRoles ⟨.user, .create⟩ = false then .error .missingPermission
  else
    match normalize email with
    | none => .error .valueError
    | some normalized =>
      if normalized = "" then .error (.validation "A valid email address is required.")
      else if role ∉ assignableRoles actor.effectiveRoles then
        .error (.forbidden "You cannot invite someone into a role above your own." role
          (assignableRoles actor.effectiveRoles))
      else if s.users.any (fun m => m.email = normalized) then
        .error (.conflict "That person is already a member of this organisation." none)
      else
        let row : Invitation := ⟨id, normalized, some role, tokenHash, actor.id, s.now + invitationTtl, none, none⟩
        match s.invitations.find? (fun i => i.email = normalized && i.unsettled) with
        | none => .ok (.invite role (role ∉ s.roleRows) row none s.now)
        | some live =>
          if s.now < live.expiresAt then
            .error (.conflict "That person already has a pending invitation." (some live.id))
          else .ok (.invite role (role ∉ s.roleRows) row (some live.id) s.now)

/-- `accept_invitation`, up to the commit; `user` is new. -/
def acceptInvitation (s : Staff) (tokenHash fullName : String) (user : Uuid) : Except StaffError StaffCall :=
  match s.invitations.find? (fun i => i.tokenHash = tokenHash) with
  | none => .error (.notFound invalidLink)
  | some i =>
    if i.status s.now ≠ .pending then .error (.notFound invalidLink)
    else if s.users.any (fun m => m.email = i.email) then
      .error (.conflict "That address already belongs to a member of this organisation." none)
    else
      let name := slice (strip fullName) 200
      if name = "" then .error (.validation "A name is required.")
      else .ok (.accept i ⟨user, i.email, name, false, i.role.toList⟩ s.now)

/-- `revoke_invitation`, up to the commit. -/
def revokeInvitation (s : Staff) (actor : Member) (id : Uuid) : Except StaffError StaffCall :=
  if permissionsFor actor.effectiveRoles ⟨.user, .delete⟩ = false then .error .missingPermission
  else
    match s.invitations.find? (fun i => i.id = id) with
    | none => .error (.notFound "That invitation does not exist.")
    | some i =>
      if i.acceptedAt ≠ none then
        .error (.conflict "That invitation was already accepted. Deactivate the user instead." (some id))
      else .ok (.revoke actor.id id i.revokedAt.isNone s.now)

/-! ## What a commit leaves -/

/-- A column of one invitation is set. -/
def updateInvitation (s : Staff) (id : Uuid) (f : Invitation → Invitation) : List Invitation :=
  s.invitations.map fun i => if i.id = id then f i else i

/-- The invitation that has expired, if there is one, is retired. -/
def retire (s : Staff) (readAt : ℕ) : Option Uuid → List Invitation
  | none => s.invitations
  | some id => s.updateInvitation id fun i => i.revoke readAt

/-- The rows of a call are written together, unless a unique index refuses one of them. -/
def commit (s : Staff) : StaffCall → Staff
  | .invite role newRole row retired readAt =>
    if newRole = true ∧ role ∈ s.roleRows then s
    else if s.invitations.any (fun i => i.id = row.id || i.tokenHash = row.tokenHash) then s
    else if (s.retire readAt retired).any (fun i => i.email = row.email && i.unsettled) then s
    else
      { s with
        roleRows := if newRole then s.roleRows ++ [role] else s.roleRows
        invitations := s.retire readAt retired ++ [row]
        audit := s.audit ++ [.invited row.id row.invitedBy row.email role] }
  | .accept i user readAt =>
    if s.users.any (fun m => m.id = user.id || m.email = user.email) then s
    else
      { s with
        users := s.users ++ [user]
        invitations := s.updateInvitation i.id fun i => i.accept readAt
        audit := s.audit ++ [.invitationAccepted i.id user.id i.email i.role] }
  | .revoke actor id writes readAt =>
    if writes then
      { s with
        invitations := s.updateInvitation id fun i => i.revoke readAt
        audit := s.audit ++ [.invitationRevoked id actor] }
    else s
  | .ended => s

end Staff

inductive StaffStep where
  | tick (microseconds : ℕ)
  | invite (actor : Uuid) (email : String) (role : Role) (id : Uuid) (tokenHash : String)
  | accept (tokenHash fullName : String) (user : Uuid)
  | revoke (actor : Uuid) (id : Uuid)
  | commit (k : ℕ)
  /-- The call fails, or its process ends. -/
  | abort (k : ℕ)

namespace Staff

/-- A call that was not refused is open. -/
def opened (s : Staff) : Except StaffError StaffCall → Staff
  | .ok call => { s with calls := s.calls ++ [call] }
  | .error _ => s

/-- One step; who invites or revokes is a member. -/
def step (normalize : String → Option String) (s : Staff) : StaffStep → Staff
  | .tick microseconds => { s with now := s.now + microseconds }
  | .invite actor email role id tokenHash =>
    match s.users.find? (fun m => m.id = actor) with
    | none => s
    | some m => s.opened (s.inviteUser normalize m email role id tokenHash)
  | .accept tokenHash fullName user => s.opened (s.acceptInvitation tokenHash fullName user)
  | .revoke actor id =>
    match s.users.find? (fun m => m.id = actor) with
    | none => s
    | some m => s.opened (s.revokeInvitation m id)
  | .commit k =>
    match s.calls[k]? with
    | none => s
    | some call => { s.commit call with calls := s.calls.set k .ended }
  | .abort k => { s with calls := s.calls.set k .ended }

/-- A tenant with its first members. -/
def founded (founders : List Member) (roleRows : List Role) : Staff := ⟨0, founders, roleRows, [], [], []⟩

end Staff

/-! ## What a step does -/

section Step

variable {normalize : String → Option String} {s : Staff}

theorem inviteUser_ok {actor : Member} {email : String} {role : Role} {id : Uuid} {tokenHash : String}
    {call : StaffCall} (h : s.inviteUser normalize actor email role id tokenHash = .ok call) :
    role ∈ assignableRoles actor.effectiveRoles ∧ ∃ normalized newRole retired, normalize email = some normalized ∧
      call = .invite role newRole
        ⟨id, normalized, some role, tokenHash, actor.id, s.now + invitationTtl, none, none⟩ retired s.now := by
  unfold Staff.inviteUser at h
  by_cases hperm : permissionsFor actor.effectiveRoles ⟨.user, .create⟩ = false
  · rw [if_pos hperm] at h
    cases h
  rw [if_neg hperm] at h
  cases hn : normalize email with
  | none =>
    rw [hn] at h
    cases h
  | some normalized =>
    rw [hn] at h
    dsimp only at h
    split_ifs at h with hempty hrole hmember
    refine ⟨hrole, normalized, ?_⟩
    split at h
    · exact ⟨_, none, rfl, (Except.ok.inj h).symm⟩
    · rename_i live _
      split_ifs at h
      exact ⟨_, some live.id, rfl, (Except.ok.inj h).symm⟩

theorem acceptInvitation_ok {tokenHash fullName : String} {user : Uuid} {call : StaffCall}
    (h : s.acceptInvitation tokenHash fullName user = .ok call) :
    ∃ i ∈ s.invitations, i.status s.now = .pending ∧
      ∃ name, call = .accept i ⟨user, i.email, name, false, i.role.toList⟩ s.now := by
  unfold Staff.acceptInvitation at h
  cases hi : s.invitations.find? (fun i => i.tokenHash = tokenHash) with
  | none =>
    rw [hi] at h
    cases h
  | some i =>
    rw [hi] at h
    dsimp only at h
    split_ifs at h with hstatus hmember hname
    exact ⟨i, List.mem_of_find?_eq_some hi, not_not.mp hstatus, _, (Except.ok.inj h).symm⟩

theorem revokeInvitation_ok {actor : Member} {id : Uuid} {call : StaffCall}
    (h : s.revokeInvitation actor id = .ok call) : ∃ writes, call = .revoke actor.id id writes s.now := by
  unfold Staff.revokeInvitation at h
  by_cases hperm : permissionsFor actor.effectiveRoles ⟨.user, .delete⟩ = false
  · rw [if_pos hperm] at h
    cases h
  rw [if_neg hperm] at h
  cases hi : s.invitations.find? (fun i => i.id = id) with
  | none =>
    rw [hi] at h
    cases h
  | some i =>
    rw [hi] at h
    dsimp only at h
    split_ifs at h
    exact ⟨_, (Except.ok.inj h).symm⟩

/-- The call that a step opens. -/
inductive Opens (s : Staff) : StaffCall → Prop
  | invite {actor : Member} {normalized : String} {role : Role} {id : Uuid} {tokenHash : String}
      {newRole : Bool} {retired : Option Uuid} (hactor : actor ∈ s.users)
      (hrole : role ∈ assignableRoles actor.effectiveRoles) :
      Opens s (.invite role newRole
        ⟨id, normalized, some role, tokenHash, actor.id, s.now + invitationTtl, none, none⟩ retired s.now)
  | accept {i : Invitation} {user : Uuid} {name : String} (hi : i ∈ s.invitations)
      (hpending : i.status s.now = .pending) :
      Opens s (.accept i ⟨user, i.email, name, false, i.role.toList⟩ s.now)
  | revoke {actor id : Uuid} {writes : Bool} : Opens s (.revoke actor id writes s.now)

/-- A step lets time pass, opens a call, or ends one, with a commit or without. -/
theorem step_cases (st : StaffStep) :
    (∃ d, s.step normalize st = { s with now := s.now + d }) ∨
      (∃ call, Opens s call ∧ s.step normalize st = { s with calls := s.calls ++ [call] }) ∨
      (∃ k, s.step normalize st = { s with calls := s.calls.set k .ended }) ∨
      ∃ k call, s.calls[k]? = some call ∧
        s.step normalize st = { s.commit call with calls := s.calls.set k .ended } := by
  have hstay : ∃ d, s = { s with now := s.now + d } := ⟨0, rfl⟩
  cases st with
  | tick d => exact .inl ⟨d, rfl⟩
  | invite actor email role id tokenHash =>
    unfold Staff.step
    dsimp only
    cases hm : s.users.find? (fun m => m.id = actor) with
    | none => exact .inl hstay
    | some m =>
      cases hcall : s.inviteUser normalize m email role id tokenHash with
      | error e =>
        left
        show ∃ d, s.opened (s.inviteUser normalize m email role id tokenHash) = _
        rw [hcall]
        exact hstay
      | ok call =>
        right; left
        show ∃ call, _ ∧ s.opened (s.inviteUser normalize m email role id tokenHash) = _
        rw [hcall]
        obtain ⟨hrole, normalized, newRole, retired, -, rfl⟩ := inviteUser_ok hcall
        exact ⟨_, .invite (List.mem_of_find?_eq_some hm) hrole, rfl⟩
  | accept tokenHash fullName user =>
    unfold Staff.step
    dsimp only
    cases hcall : s.acceptInvitation tokenHash fullName user with
    | error e => exact .inl hstay
    | ok call =>
      obtain ⟨i, hi, hpending, name, rfl⟩ := acceptInvitation_ok hcall
      exact .inr (.inl ⟨_, .accept hi hpending, rfl⟩)
  | revoke actor id =>
    unfold Staff.step
    dsimp only
    cases hm : s.users.find? (fun m => m.id = actor) with
    | none => exact .inl hstay
    | some m =>
      cases hcall : s.revokeInvitation m id with
      | error e =>
        left
        show ∃ d, s.opened (s.revokeInvitation m id) = _
        rw [hcall]
        exact hstay
      | ok call =>
        right; left
        show ∃ call, _ ∧ s.opened (s.revokeInvitation m id) = _
        rw [hcall]
        obtain ⟨writes, rfl⟩ := revokeInvitation_ok hcall
        exact ⟨_, .revoke, rfl⟩
  | commit k =>
    unfold Staff.step
    dsimp only
    cases hcall : s.calls[k]? with
    | none => exact .inl hstay
    | some call => exact .inr (.inr (.inr ⟨k, call, hcall, rfl⟩))
  | abort k => exact .inr (.inr (.inl ⟨k, rfl⟩))

end Step

theorem mem_updateInvitation {s : Staff} {id : Uuid} {f : Invitation → Invitation} {i : Invitation}
    (h : i ∈ s.updateInvitation id f) : ∃ j ∈ s.invitations, i = j ∨ j.id = id ∧ i = f j := by
  obtain ⟨j, hj, rfl⟩ := List.mem_map.mp h
  refine ⟨j, hj, ?_⟩
  split_ifs with hid
  · exact .inr ⟨hid, rfl⟩
  · exact .inl rfl

theorem mem_calls_set {calls : List StaffCall} {k : ℕ} {call : StaffCall} (h : call ∈ calls.set k .ended) :
    call ∈ calls ∨ call = .ended := List.mem_or_eq_of_mem_set h

theorem mem_retire {s : Staff} {readAt : ℕ} {retired : Option Uuid} {i : Invitation}
    (h : i ∈ s.retire readAt retired) : ∃ j ∈ s.invitations, i = j ∨ i = j.revoke readAt := by
  cases retired with
  | none => exact ⟨i, h, .inl rfl⟩
  | some id =>
    obtain ⟨j, hj, h⟩ := mem_updateInvitation h
    exact ⟨j, hj, h.imp_right And.right⟩

/-- A row with another date set, or none. -/
def Invitation.Redated (i j : Invitation) : Prop := i = j ∨ ∃ time, i = j.accept time ∨ i = j.revoke time

theorem Invitation.Redated.same {i j : Invitation} (h : i.Redated j) :
    i.id = j.id ∧ i.email = j.email ∧ i.role = j.role ∧ i.expiresAt = j.expiresAt := by
  rcases h with rfl | ⟨time, rfl | rfl⟩
  · exact ⟨rfl, rfl, rfl, rfl⟩
  · exact ⟨rfl, rfl, rfl, rfl⟩
  · exact ⟨rfl, rfl, rfl, rfl⟩

theorem now_commit {s : Staff} {call : StaffCall} : (s.commit call).now = s.now := by
  cases call <;> simp only [Staff.commit] <;> split_ifs <;> rfl

/-- The members after a commit: those that were there, and one who accepts. -/
theorem mem_users_commit {s : Staff} {call : StaffCall} {m : Member} (h : m ∈ (s.commit call).users) :
    m ∈ s.users ∨ ∃ i readAt, call = .accept i m readAt := by
  cases call with
  | ended => exact .inl h
  | invite role newRole row retired readAt =>
    unfold Staff.commit at h
    dsimp only at h
    split_ifs at h <;> exact .inl h
  | revoke actor id writes readAt =>
    unfold Staff.commit at h
    dsimp only at h
    split_ifs at h <;> exact .inl h
  | accept i user readAt =>
    unfold Staff.commit at h
    dsimp only at h
    split_ifs at h
    · exact .inl h
    · rcases List.mem_append.mp h with h | h
      · exact .inl h
      · obtain rfl := List.mem_singleton.mp h
        exact .inr ⟨i, readAt, rfl⟩

/-- The invitations after a commit: those that were there, with dates set, and a new one. -/
theorem mem_invitations_commit {s : Staff} {call : StaffCall} {i : Invitation}
    (h : i ∈ (s.commit call).invitations) :
    (∃ j ∈ s.invitations, i.Redated j) ∨ ∃ role newRole retired readAt, call = .invite role newRole i retired readAt := by
  cases call with
  | ended => exact .inl ⟨i, h, .inl rfl⟩
  | invite role newRole row retired readAt =>
    unfold Staff.commit at h
    dsimp only at h
    by_cases hrole : newRole = true ∧ role ∈ s.roleRows
    · rw [if_pos hrole] at h
      exact .inl ⟨i, h, .inl rfl⟩
    rw [if_neg hrole] at h
    split_ifs at h
    · exact .inl ⟨i, h, .inl rfl⟩
    · exact .inl ⟨i, h, .inl rfl⟩
    all_goals
      rcases List.mem_append.mp h with h | h
      · obtain ⟨j, hj, h⟩ := mem_retire h
        exact .inl ⟨j, hj, h.imp_right fun h => ⟨readAt, .inr h⟩⟩
      · obtain rfl := List.mem_singleton.mp h
        exact .inr ⟨role, _, retired, readAt, rfl⟩
  | accept j user readAt =>
    unfold Staff.commit at h
    dsimp only at h
    split_ifs at h
    · exact .inl ⟨i, h, .inl rfl⟩
    · obtain ⟨k, hk, h⟩ := mem_updateInvitation h
      exact .inl ⟨k, hk, h.imp_right fun h => ⟨readAt, .inl h.2⟩⟩
  | revoke actor id writes readAt =>
    unfold Staff.commit at h
    dsimp only at h
    split_ifs at h
    · obtain ⟨k, hk, h⟩ := mem_updateInvitation h
      exact .inl ⟨k, hk, h.imp_right fun h => ⟨readAt, .inr h.2⟩⟩
    · exact .inl ⟨i, h, .inl rfl⟩

/-! ## Nobody has more than the founders -/

/-- Some founder has what these roles come to. -/
def Backed (founders : List Member) (roles : List Role) : Prop :=
  ∃ f ∈ founders, (∀ p, permissionsFor roles p = true → permissionsFor f.effectiveRoles p = true ∨ p = tenantList) ∧
    scopeIndex (widestScope roles) ≤ scopeIndex (widestScope f.effectiveRoles)

theorem backed_of_assignable {founders : List Member} {actorRoles : List Role} {given : Role}
    (h : Backed founders actorRoles) (hgiven : given ∈ assignableRoles actorRoles) : Backed founders [given] := by
  obtain ⟨f, hf, hperms, hscope⟩ := h
  obtain ⟨hp, hs⟩ := within_of_assignableRoles hgiven
  have hone : scopeIndex (widestScope [given]) ≤ scopeIndex given.scope := by
    cases given <;> decide
  refine ⟨f, hf, fun p h => ?_, hone.trans (hs.trans hscope)⟩
  rcases hp p (by simpa [permissionsFor] using h) with h | h
  · exact hperms p h
  · exact .inr h

/-- The role of an invitation is one that a founder could have given. -/
def Invitation.BackedBy (founders : List Member) (i : Invitation) : Prop :=
  ∃ given, i.role = some given ∧ Backed founders [given]

structure Staff.BackedBy (founders : List Member) (s : Staff) : Prop where
  users : ∀ m ∈ s.users, Backed founders m.effectiveRoles
  invitations : ∀ i ∈ s.invitations, i.BackedBy founders
  inviting : ∀ role newRole row retired readAt, .invite role newRole row retired readAt ∈ s.calls →
    row.BackedBy founders
  accepting : ∀ i user readAt, .accept i user readAt ∈ s.calls → Backed founders user.effectiveRoles

theorem Staff.BackedBy.step {founders : List Member} {normalize : String → Option String} {s : Staff}
    (hs : s.BackedBy founders) (st : StaffStep) : (s.step normalize st).BackedBy founders := by
  rcases step_cases st with ⟨d, h⟩ | ⟨call, hopens, h⟩ | ⟨k, h⟩ | ⟨k, call, hcall, h⟩
  · rw [h]
    exact ⟨hs.users, hs.invitations, hs.inviting, hs.accepting⟩
  · rw [h]
    refine ⟨hs.users, hs.invitations, ?_, ?_⟩
    · intro role newRole row retired readAt hmem
      rcases List.mem_append.mp hmem with hmem | hmem
      · exact hs.inviting role newRole row retired readAt hmem
      · rw [← List.mem_singleton.mp hmem] at hopens
        cases hopens with
        | invite hactor hrole => exact ⟨role, rfl, backed_of_assignable (hs.users _ hactor) hrole⟩
    · intro i user readAt hmem
      rcases List.mem_append.mp hmem with hmem | hmem
      · exact hs.accepting i user readAt hmem
      · rw [← List.mem_singleton.mp hmem] at hopens
        cases hopens with
        | accept hi hpending =>
          obtain ⟨given, hgiven, hbacked⟩ := hs.invitations i hi
          simpa [Member.effectiveRoles, hgiven] using hbacked
  · rw [h]
    refine ⟨hs.users, hs.invitations, ?_, ?_⟩
    · intro role newRole row retired readAt hmem
      exact hs.inviting role newRole row retired readAt ((mem_calls_set hmem).resolve_right nofun)
    · intro i user readAt hmem
      exact hs.accepting i user readAt ((mem_calls_set hmem).resolve_right nofun)
  · rw [h]
    have hmem : call ∈ s.calls := List.mem_of_getElem? hcall
    refine ⟨?_, ?_, ?_, ?_⟩
    · intro m hm
      rcases mem_users_commit hm with hm | ⟨i, readAt, rfl⟩
      · exact hs.users m hm
      · exact hs.accepting i m readAt hmem
    · intro i hi
      rcases mem_invitations_commit hi with ⟨j, hj, hsame⟩ | ⟨role, newRole, retired, readAt, rfl⟩
      · obtain ⟨given, hgiven, hbacked⟩ := hs.invitations j hj
        exact ⟨given, hsame.same.2.2.1.trans hgiven, hbacked⟩
      · exact hs.inviting role newRole i retired readAt hmem
    · intro role newRole row retired readAt hmem
      exact hs.inviting role newRole row retired readAt ((mem_calls_set hmem).resolve_right nofun)
    · intro i user readAt hmem
      exact hs.accepting i user readAt ((mem_calls_set hmem).resolve_right nofun)

/-- However invitations are made, accepted and revoked, in whatever order the calls read and commit, whoever becomes a
member stays below one of those who founded the tenant. -/
theorem no_escalation (normalize : String → Option String) (founders : List Member) (roleRows : List Role)
    (steps : List StaffStep) : ∀ m ∈ (after (Staff.step normalize) (Staff.founded founders roleRows) steps).users,
    ∃ f ∈ founders,
      (∀ p, permissionsFor m.effectiveRoles p = true → permissionsFor f.effectiveRoles p = true ∨ p = tenantList) ∧
        scopeIndex (widestScope m.effectiveRoles) ≤ scopeIndex (widestScope f.effectiveRoles) := by
  have hstart : (Staff.founded founders roleRows).BackedBy founders :=
    ⟨fun m hm => ⟨m, hm, fun p h => .inl h, le_rfl⟩, by simp [Staff.founded], by simp [Staff.founded],
      by simp [Staff.founded]⟩
  have hinv : (after (Staff.step normalize) (Staff.founded founders roleRows) steps).BackedBy founders :=
    inv_run (Staff.BackedBy founders) (fun s st hs => hs.step st) steps _ hstart
  exact hinv.users

/-! ## An invitation makes one member -/

/-- The invitation whose acceptance an entry records. -/
def AuditEntry.accepted? : AuditEntry → Option Uuid
  | .invitationAccepted invitation _ _ _ => some invitation
  | _ => none

/-- The invitations that have been accepted, in order. -/
def Staff.acceptances (s : Staff) : List Uuid := s.audit.filterMap AuditEntry.accepted?

theorem map_id_updateInvitation {s : Staff} {id : Uuid} {f : Invitation → Invitation} (hf : ∀ j, (f j).id = j.id) :
    (s.updateInvitation id f).map (·.id) = s.invitations.map (·.id) := by
  unfold Staff.updateInvitation
  rw [List.map_map]
  apply List.map_congr_left
  intro j _
  show (if j.id = id then f j else j).id = j.id
  split_ifs
  · exact hf j
  · rfl

theorem map_id_retire {s : Staff} {readAt : ℕ} {retired : Option Uuid} :
    (s.retire readAt retired).map (·.id) = s.invitations.map (·.id) := by
  cases retired with
  | none => rfl
  | some id => exact map_id_updateInvitation fun _ => rfl

/-- An update that settles a row takes it out of the unique index, and puts none in. -/
theorem unsettled_update {f : Invitation → Invitation} (hf : ∀ j, (f j).unsettled = false) (id : Uuid) :
    ∀ l : List Invitation, ((l.map fun i => if i.id = id then f i else i).filter Invitation.unsettled).Sublist
      (l.filter Invitation.unsettled)
  | [] => List.Sublist.slnil
  | i :: l => by
    have ih := unsettled_update hf id l
    rw [List.map_cons]
    by_cases hid : i.id = id
    · rw [if_pos hid, List.filter_cons_of_neg (by simp [hf])]
      by_cases hi : i.unsettled = true
      · rw [List.filter_cons_of_pos hi]
        exact ih.cons i
      · rwa [List.filter_cons_of_neg hi]
    · rw [if_neg hid]
      by_cases hi : i.unsettled = true
      · rw [List.filter_cons_of_pos hi, List.filter_cons_of_pos hi]
        exact ih.cons_cons i
      · rwa [List.filter_cons_of_neg hi, List.filter_cons_of_neg hi]

theorem unsettled_accept (i : Invitation) (time : ℕ) : (i.accept time).unsettled = false := rfl

theorem unsettled_revoke (i : Invitation) (time : ℕ) : (i.revoke time).unsettled = false := by
  simp [Invitation.unsettled, Invitation.revoke]

/-- The addresses in the unique index of unsettled invitations. -/
def pendingEmails (l : List Invitation) : List String := (l.filter Invitation.unsettled).map (·.email)

/-- What the unique indexes keep, and what the audit log has of it. -/
structure Staff.Once (s : Staff) : Prop where
  emails : (s.users.map (·.email)).Nodup
  ids : (s.invitations.map (·.id)).Nodup
  pending : (pendingEmails s.invitations).Nodup
  accepting : ∀ i user readAt, .accept i user readAt ∈ s.calls → user.email = i.email ∧ user.roles = i.role.toList ∧
    ∃ j ∈ s.invitations, j.id = i.id ∧ j.email = i.email ∧ j.role = i.role
  audited : ∀ id user email role, .invitationAccepted id user email role ∈ s.audit →
    (∃ j ∈ s.invitations, j.id = id ∧ j.email = email ∧ j.role = role) ∧
      ∃ m ∈ s.users, m.id = user ∧ m.email = email ∧ m.roles = role.toList
  once : s.acceptances.Nodup

theorem nodup_pendingEmails_update {s : Staff} (h : (pendingEmails s.invitations).Nodup) {id : Uuid}
    {f : Invitation → Invitation} (hf : ∀ j, (f j).unsettled = false) :
    (pendingEmails (s.updateInvitation id f)).Nodup :=
  h.sublist ((unsettled_update hf id s.invitations).map _)

/-- Rows that are found among those of a state are found after a commit. -/
theorem exists_of_redated {s : Staff} {l : List Invitation} {id : Uuid} {email : String} {role : Option Role}
    (h : ∃ j ∈ s.invitations, j.id = id ∧ j.email = email ∧ j.role = role)
    (hl : ∀ j ∈ s.invitations, ∃ k ∈ l, k.Redated j) : ∃ j ∈ l, j.id = id ∧ j.email = email ∧ j.role = role := by
  obtain ⟨j, hj, rfl, rfl, rfl⟩ := h
  obtain ⟨k, hk, hsame⟩ := hl j hj
  exact ⟨k, hk, hsame.same.1, hsame.same.2.1, hsame.same.2.2.1⟩

theorem exists_updateInvitation {s : Staff} {id : Uuid} {f : Invitation → Invitation}
    (hf : ∀ j, (f j).Redated j) : ∀ j ∈ s.invitations, ∃ k ∈ s.updateInvitation id f, k.Redated j := by
  intro j hj
  refine ⟨_, List.mem_map_of_mem hj, ?_⟩
  split_ifs
  · exact hf j
  · exact .inl rfl

/-- Every row is there after a commit, with what dates it may have. -/
theorem exists_commit {s : Staff} {call : StaffCall} : ∀ j ∈ s.invitations,
    ∃ k ∈ (s.commit call).invitations, k.Redated j := by
  have hsame : ∀ j ∈ s.invitations, ∃ k ∈ s.invitations, k.Redated j := fun j hj => ⟨j, hj, .inl rfl⟩
  have hrevoke : ∀ (id : Uuid) (time : ℕ), ∀ j ∈ s.invitations,
      ∃ k ∈ s.updateInvitation id (·.revoke time), k.Redated j :=
    fun id time => exists_updateInvitation fun j => .inr ⟨time, .inr rfl⟩
  cases call with
  | ended => exact hsame
  | revoke actor id writes readAt =>
    unfold Staff.commit
    dsimp only
    split_ifs
    · exact hrevoke id readAt
    · exact hsame
  | accept i user readAt =>
    unfold Staff.commit
    dsimp only
    split_ifs
    · exact hsame
    · exact exists_updateInvitation fun j => .inr ⟨readAt, .inl rfl⟩
  | invite role newRole row retired readAt =>
    have hretire : ∀ j ∈ s.invitations, ∃ k ∈ s.retire readAt retired ++ [row], k.Redated j := by
      intro j hj
      cases retired with
      | none => exact ⟨j, List.mem_append_left _ hj, .inl rfl⟩
      | some id =>
        obtain ⟨k, hk, h⟩ := hrevoke id readAt j hj
        exact ⟨k, List.mem_append_left _ hk, h⟩
    unfold Staff.commit
    dsimp only
    split_ifs
    · exact hsame
    · exact hsame
    · exact hsame
    all_goals exact hretire

/-- The entry that a commit adds to the audit log. -/
theorem audit_commit {s : Staff} {call : StaffCall} :
    (s.commit call).acceptances = s.acceptances ∧ (s.commit call).users = s.users ∧
        (∀ id user email role, .invitationAccepted id user email role ∈ (s.commit call).audit →
          .invitationAccepted id user email role ∈ s.audit) ∨
      ∃ i user readAt, call = .accept i user readAt ∧ (∀ m ∈ s.users, m.id ≠ user.id ∧ m.email ≠ user.email) ∧
        (s.commit call).audit = s.audit ++ [.invitationAccepted i.id user.id i.email i.role] ∧
        (s.commit call).users = s.users ++ [user] := by
  cases call with
  | ended => exact .inl ⟨rfl, rfl, fun _ _ _ _ h => h⟩
  | invite role newRole row retired readAt =>
    left
    unfold Staff.commit
    dsimp only
    split_ifs
    · exact ⟨rfl, rfl, fun _ _ _ _ h => h⟩
    · exact ⟨rfl, rfl, fun _ _ _ _ h => h⟩
    · exact ⟨rfl, rfl, fun _ _ _ _ h => h⟩
    all_goals
      refine ⟨by simp [Staff.acceptances, AuditEntry.accepted?], rfl, fun id user email role h => ?_⟩
      simpa using h
  | revoke actor id writes readAt =>
    left
    unfold Staff.commit
    dsimp only
    split_ifs
    · refine ⟨by simp [Staff.acceptances, AuditEntry.accepted?], rfl, fun id user email role h => ?_⟩
      simpa using h
    · exact ⟨rfl, rfl, fun _ _ _ _ h => h⟩
  | accept i user readAt =>
    unfold Staff.commit
    dsimp only
    split_ifs with htaken
    · exact .inl ⟨rfl, rfl, fun _ _ _ _ h => h⟩
    · refine .inr ⟨i, user, readAt, rfl, fun m hm => ?_, rfl, rfl⟩
      have h := List.any_eq_false.mp (Bool.not_eq_true _ ▸ htaken) m hm
      simpa using h

theorem nodup_ids_commit {s : Staff} {call : StaffCall} (h : (s.invitations.map (·.id)).Nodup) :
    ((s.commit call).invitations.map (·.id)).Nodup := by
  cases call with
  | ended => exact h
  | revoke actor id writes readAt =>
    unfold Staff.commit
    dsimp only
    split_ifs
    · show ((s.updateInvitation id (·.revoke readAt)).map (·.id)).Nodup
      rwa [map_id_updateInvitation]
      exact fun _ => rfl
    · exact h
  | accept i user readAt =>
    unfold Staff.commit
    dsimp only
    split_ifs
    · exact h
    · show ((s.updateInvitation i.id (·.accept readAt)).map (·.id)).Nodup
      rwa [map_id_updateInvitation]
      exact fun _ => rfl
  | invite role newRole row retired readAt =>
    unfold Staff.commit
    dsimp only
    by_cases htaken : (s.invitations.any fun i => i.id = row.id || i.tokenHash = row.tokenHash) = true
    · simp only [htaken, if_true]
      split_ifs <;> exact h
    · have hnew : row.id ∉ s.invitations.map (·.id) := by
        intro hmem
        obtain ⟨j, hj, hid⟩ := List.mem_map.mp hmem
        exact htaken (List.any_eq_true.mpr ⟨j, hj, by simp [hid]⟩)
      have happend : ((s.retire readAt retired ++ [row]).map (·.id)).Nodup := by
        rw [List.map_append, map_id_retire]
        exact List.nodup_append.mpr ⟨h, by simp, fun k hk l hl heq => by
          rw [List.map_singleton, List.mem_singleton] at hl
          exact hnew (hl ▸ heq ▸ hk)⟩
      split_ifs
      · exact h
      · exact h
      all_goals exact happend

theorem nodup_pending_commit {s : Staff} {call : StaffCall} (h : (pendingEmails s.invitations).Nodup) :
    (pendingEmails (s.commit call).invitations).Nodup := by
  cases call with
  | ended => exact h
  | revoke actor id writes readAt =>
    unfold Staff.commit
    dsimp only
    split_ifs
    · exact nodup_pendingEmails_update h fun j => unsettled_revoke j readAt
    · exact h
  | accept i user readAt =>
    unfold Staff.commit
    dsimp only
    split_ifs
    · exact h
    · exact nodup_pendingEmails_update h fun j => unsettled_accept j readAt
  | invite role newRole row retired readAt =>
    have hretire : (pendingEmails (s.retire readAt retired)).Nodup := by
      cases retired with
      | none => exact h
      | some id => exact nodup_pendingEmails_update h fun j => unsettled_revoke j readAt
    unfold Staff.commit
    dsimp only
    by_cases htaken : ((s.retire readAt retired).any fun i => i.email = row.email && i.unsettled) = true
    · simp only [htaken, if_true]
      split_ifs <;> exact h
    · have happend : (pendingEmails (s.retire readAt retired ++ [row])).Nodup := by
        unfold pendingEmails at hretire ⊢
        rw [List.filter_append, List.map_append]
        refine List.nodup_append.mpr ⟨hretire, ?_, fun k hk l hl heq => ?_⟩
        · by_cases hrow : row.unsettled = true <;> simp [hrow]
        · obtain ⟨j, hj, rfl⟩ := List.mem_map.mp hk
          obtain ⟨j', hj', rfl⟩ := List.mem_map.mp hl
          obtain rfl := List.mem_singleton.mp (List.mem_of_mem_filter hj')
          obtain ⟨hj, hunsettled⟩ := List.mem_filter.mp hj
          exact htaken (List.any_eq_true.mpr ⟨j, hj, by simp [heq, hunsettled]⟩)
      split_ifs
      · exact h
      · exact h
      all_goals exact happend

theorem Staff.Once.step {normalize : String → Option String} {s : Staff} (hs : s.Once) (st : StaffStep) :
    (s.step normalize st).Once := by
  rcases step_cases st with ⟨d, h⟩ | ⟨call, hopens, h⟩ | ⟨k, h⟩ | ⟨k, call, hcall, h⟩
  · rw [h]
    exact ⟨hs.emails, hs.ids, hs.pending, hs.accepting, hs.audited, hs.once⟩
  · rw [h]
    refine ⟨hs.emails, hs.ids, hs.pending, ?_, hs.audited, hs.once⟩
    intro i user readAt hmem
    rcases List.mem_append.mp hmem with hmem | hmem
    · exact hs.accepting i user readAt hmem
    · rw [← List.mem_singleton.mp hmem] at hopens
      cases hopens with
      | accept hi hpending => exact ⟨rfl, rfl, i, hi, rfl, rfl, rfl⟩
  · rw [h]
    refine ⟨hs.emails, hs.ids, hs.pending, ?_, hs.audited, hs.once⟩
    exact fun i user readAt hmem => hs.accepting i user readAt ((mem_calls_set hmem).resolve_right nofun)
  · rw [h]
    have hmem : call ∈ s.calls := List.mem_of_getElem? hcall
    have haccepting : ∀ i user readAt, .accept i user readAt ∈ s.calls.set k .ended →
        user.email = i.email ∧ user.roles = i.role.toList ∧
          ∃ j ∈ (s.commit call).invitations, j.id = i.id ∧ j.email = i.email ∧ j.role = i.role := by
      intro i user readAt h
      obtain ⟨hemail, hroles, hrow⟩ := hs.accepting i user readAt ((mem_calls_set h).resolve_right nofun)
      exact ⟨hemail, hroles, exists_of_redated hrow exists_commit⟩
    rcases @audit_commit s call with ⟨haccepted, husers, haudit⟩ | ⟨i, user, readAt, rfl, hnew, haudit, husers⟩
    · refine ⟨by rw [husers]; exact hs.emails, nodup_ids_commit hs.ids, nodup_pending_commit hs.pending, haccepting,
        fun id user email role h => ?_, haccepted.symm ▸ hs.once⟩
      obtain ⟨hrow, hmember⟩ := hs.audited id user email role (haudit id user email role h)
      exact ⟨exists_of_redated hrow exists_commit, by rw [husers]; exact hmember⟩
    · obtain ⟨hemail, hroles, hrow⟩ := hs.accepting i user readAt hmem
      -- The address is nobody's, so that the invitation has not been accepted before.
      have hfirst : i.id ∉ s.acceptances := by
        intro hacc
        obtain ⟨entry, hentry, hid⟩ := List.mem_filterMap.mp hacc
        cases entry with
        | invited | invitationRevoked => cases hid
        | invitationAccepted id user' email role =>
          obtain rfl := Option.some.inj hid
          obtain ⟨⟨j, hj, hjid, hjemail, -⟩, m, hm, -, hmemail, -⟩ := hs.audited _ user' email role hentry
          obtain ⟨j', hj', hjid', hjemail', -⟩ := hrow
          obtain rfl : j = j' := List.inj_on_of_nodup_map hs.ids hj hj' (hjid.trans hjid'.symm)
          exact (hnew m hm).2 (hmemail.trans (hjemail.symm.trans (hjemail'.trans hemail.symm)))
      refine ⟨?_, nodup_ids_commit hs.ids, nodup_pending_commit hs.pending, haccepting, ?_, ?_⟩
      · rw [husers, List.map_append]
        refine List.nodup_append.mpr ⟨hs.emails, by simp, fun x hx y hy heq => ?_⟩
        obtain ⟨m, hm, rfl⟩ := List.mem_map.mp hx
        rw [List.map_singleton, List.mem_singleton] at hy
        exact (hnew m hm).2 (heq.trans hy)
      · intro id user' email role h
        rw [haudit, List.mem_append] at h
        rw [husers]
        rcases h with h | h
        · obtain ⟨hrow, m, hm, hmember⟩ := hs.audited id user' email role h
          exact ⟨exists_of_redated hrow exists_commit, m, List.mem_append_left _ hm, hmember⟩
        · obtain ⟨rfl, rfl, rfl, rfl⟩ := AuditEntry.invitationAccepted.inj (List.mem_singleton.mp h)
          exact ⟨exists_of_redated hrow exists_commit, user, by simp, rfl, hemail, hroles⟩
      · have hlist : (s.commit (.accept i user readAt)).acceptances = s.acceptances ++ [i.id] := by
          show ((s.commit (.accept i user readAt)).audit).filterMap AuditEntry.accepted? = _
          rw [haudit, List.filterMap_append]
          rfl
        show (s.commit (.accept i user readAt)).acceptances.Nodup
        rw [hlist]
        refine List.nodup_append.mpr ⟨hs.once, by simp, fun x hx y hy heq => ?_⟩
        rw [List.mem_singleton] at hy
        exact hfirst (hy ▸ heq ▸ hx)

/-- In every order of reads and commits: an invitation is accepted once at most, and by it one member joins, with its
address and its role; an address is one member's, and is in one invitation that is not settled. -/
theorem one_membership_each (normalize : String → Option String) {founders : List Member} (roleRows : List Role)
    (hfounders : (founders.map (·.email)).Nodup) (steps : List StaffStep) :
    let s := after (Staff.step normalize) (Staff.founded founders roleRows) steps
    s.acceptances.Nodup ∧ (s.users.map (·.email)).Nodup ∧ (pendingEmails s.invitations).Nodup ∧
      ∀ id user email role, .invitationAccepted id user email role ∈ s.audit →
        (∃ j ∈ s.invitations, j.id = id ∧ j.email = email ∧ j.role = role) ∧
          ∃ m ∈ s.users, m.id = user ∧ m.email = email ∧ m.roles = role.toList := by
  have hstart : (Staff.founded founders roleRows).Once :=
    ⟨hfounders, List.nodup_nil, List.nodup_nil, by simp [Staff.founded], by simp [Staff.founded], List.nodup_nil⟩
  have hinv : (after (Staff.step normalize) (Staff.founded founders roleRows) steps).Once :=
    inv_run Staff.Once (fun s st hs => hs.step st) steps _ hstart
  exact ⟨hinv.once, hinv.emails, hinv.pending, hinv.audited⟩

def soleOwner : List Member := [⟨sampleUuid 'a', "a@x.io", "A", true, [.owner]⟩]

/-- Two people redeem one link at once. -/
def redeemTwice : List StaffStep :=
  [.invite (sampleUuid 'a') "b@x.io" .viewer (sampleUuid 'i') "hash", .commit 0, .accept "hash" "B" (sampleUuid 'b'),
    .accept "hash" "C" (sampleUuid 'c'), .commit 1, .commit 2]

theorem one_membership_of_two :
    let s := after (Staff.step some) (Staff.founded soleOwner [.owner]) redeemTwice
    s.acceptances.Nodup ∧ (s.users.map (·.email)).Nodup ∧ (pendingEmails s.invitations).Nodup ∧
      ∀ id user email role, .invitationAccepted id user email role ∈ s.audit →
        (∃ j ∈ s.invitations, j.id = id ∧ j.email = email ∧ j.role = role) ∧
          ∃ m ∈ s.users, m.id = user ∧ m.email = email ∧ m.roles = role.toList :=
  one_membership_each some [.owner] (by simp [soleOwner]) redeemTwice

/-! ## A settled invitation stays settled -/

/-- The invitation is there, is no longer pending, and nobody is in the middle of accepting it. -/
structure Staff.Settled (id : Uuid) (s : Staff) : Prop where
  present : id ∈ s.invitations.map (·.id)
  settled : ∀ j ∈ s.invitations, j.id = id → j.status s.now ≠ .pending
  accepting : ∀ i user readAt, .accept i user readAt ∈ s.calls → i.id ≠ id

theorem status_mono {i : Invitation} {now later : ℕ} (hle : now ≤ later) (h : i.status now ≠ .pending) :
    i.status later ≠ .pending := by
  intro hpending
  refine h ?_
  unfold Invitation.status at hpending ⊢
  split_ifs at hpending with hacc hrev hexp
  rw [if_neg hacc, if_neg hrev, if_neg (by omega)]

theorem status_redated {i j : Invitation} {now : ℕ} (hsame : i.Redated j) (h : j.status now ≠ .pending) :
    i.status now ≠ .pending := by
  rcases hsame with rfl | ⟨time, rfl | rfl⟩
  · exact h
  · simp [Invitation.status, Invitation.accept]
  · by_cases hacc : j.acceptedAt = none <;> simp [Invitation.status, Invitation.revoke, hacc]

/-- A commit that adds an invitation gives it an id of its own. -/
theorem invite_commit_fresh {s : Staff} {role : Role} {newRole : Bool} {row : Invitation} {retired : Option Uuid}
    {readAt : ℕ} (hid : row.id ∈ s.invitations.map (·.id)) : s.commit (.invite role newRole row retired readAt) = s := by
  obtain ⟨j, hj, hid⟩ := List.mem_map.mp hid
  have htaken : (s.invitations.any fun i => i.id = row.id || i.tokenHash = row.tokenHash) = true :=
    List.any_eq_true.mpr ⟨j, hj, by simp [hid]⟩
  unfold Staff.commit
  dsimp only
  simp only [htaken, if_true, ite_self]

theorem Staff.Settled.step {normalize : String → Option String} {id : Uuid} {s : Staff} (hs : s.Settled id)
    (st : StaffStep) : (s.step normalize st).Settled id ∧
      (s.step normalize st).acceptances.count id = s.acceptances.count id := by
  rcases step_cases st with ⟨d, h⟩ | ⟨call, hopens, h⟩ | ⟨k, h⟩ | ⟨k, call, hcall, h⟩
  · rw [h]
    refine ⟨⟨hs.present, fun j hj hid => ?_, hs.accepting⟩, rfl⟩
    exact status_mono (Nat.le_add_right s.now d) (hs.settled j hj hid)
  · rw [h]
    refine ⟨⟨hs.present, hs.settled, fun i user readAt hmem => ?_⟩, rfl⟩
    rcases List.mem_append.mp hmem with hmem | hmem
    · exact hs.accepting i user readAt hmem
    · rw [← List.mem_singleton.mp hmem] at hopens
      cases hopens with
      | accept hi hpending => exact fun hid => hs.settled i hi hid hpending
  · rw [h]
    refine ⟨⟨hs.present, hs.settled, fun i user readAt hmem => ?_⟩, rfl⟩
    exact hs.accepting i user readAt ((mem_calls_set hmem).resolve_right nofun)
  · rw [h]
    have hmem : call ∈ s.calls := List.mem_of_getElem? hcall
    have hnow : (s.commit call).now = s.now := now_commit
    refine ⟨⟨?_, ?_, fun i user readAt hmem => ?_⟩, ?_⟩
    · obtain ⟨j, hj, hid⟩ := List.mem_map.mp hs.present
      obtain ⟨k, hk, hsame⟩ := exists_commit j hj
      exact List.mem_map.mpr ⟨k, hk, hsame.same.1.trans hid⟩
    · intro j hj hid
      show j.status (s.commit call).now ≠ .pending
      rw [hnow]
      rcases mem_invitations_commit hj with ⟨k, hk, hsame⟩ | ⟨role, newRole, retired, readAt, rfl⟩
      · exact status_redated hsame (hs.settled k hk (hsame.same.1.symm.trans hid))
      · have hknown : j.id ∈ s.invitations.map (·.id) := hid ▸ hs.present
        rw [invite_commit_fresh hknown] at hj
        exact hs.settled j hj hid
    · exact hs.accepting i user readAt ((mem_calls_set hmem).resolve_right nofun)
    · rcases @audit_commit s call with ⟨haccepted, -, -⟩ | ⟨i, user, readAt, rfl, -, haudit, -⟩
      · show (s.commit call).acceptances.count id = _
        rw [haccepted]
      · show List.count id ((s.commit (.accept i user readAt)).audit.filterMap AuditEntry.accepted?) = _
        rw [haudit, List.filterMap_append, List.count_append]
        have hne : i.id ≠ id := hs.accepting i user readAt hmem
        have hzero : List.count id [i.id] = 0 := List.count_eq_zero.mpr (by simpa using Ne.symm hne)
        show s.acceptances.count id + List.count id [i.id] = _
        rw [hzero, Nat.add_zero]

/-- Once an invitation is accepted, revoked or expired, and nobody is in the middle of accepting it, it is never
accepted, whatever happens with it or with others of the same address. -/
theorem settled_is_final (normalize : String → Option String) {id : Uuid} {s : Staff}
    (hpresent : id ∈ s.invitations.map (·.id))
    (hsettled : ∀ j ∈ s.invitations, j.id = id → j.status s.now ≠ .pending)
    (hcalls : ∀ i user readAt, .accept i user readAt ∈ s.calls → i.id ≠ id) (steps : List StaffStep) :
    (after (Staff.step normalize) s steps).acceptances.count id = s.acceptances.count id ∧
      ∀ j ∈ (after (Staff.step normalize) s steps).invitations, j.id = id →
        j.status (after (Staff.step normalize) s steps).now ≠ .pending := by
  have hinv := @inv_run Staff StaffStep (Staff.step normalize)
    (fun s' => s'.Settled id ∧ s'.acceptances.count id = s.acceptances.count id)
    (fun s' st hs => ⟨(hs.1.step st).1, (hs.1.step st).2.trans hs.2⟩) steps s
    ⟨⟨hpresent, hsettled, hcalls⟩, rfl⟩
  exact ⟨hinv.2, hinv.1.settled⟩

/-- An invitation that nobody took up in its seven days. -/
def expiredInvitation : Staff :=
  ⟨invitationTtl, soleOwner, [.owner, .viewer],
    [⟨sampleUuid 'i', "b@x.io", some .viewer, "hash", sampleUuid 'a', invitationTtl, none, none⟩], [], []⟩

theorem expired_is_final :
    (after (Staff.step some) expiredInvitation redeemTwice).acceptances.count (sampleUuid 'i') = 0 ∧
      ∀ j ∈ (after (Staff.step some) expiredInvitation redeemTwice).invitations, j.id = sampleUuid 'i' →
        j.status (after (Staff.step some) expiredInvitation redeemTwice).now ≠ .pending :=
  settled_is_final some (by simp [expiredInvitation])
    (by simp [expiredInvitation, Invitation.status]) (by simp [expiredInvitation]) redeemTwice

end RevenueOS.Auth
