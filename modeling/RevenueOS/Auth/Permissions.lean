import RevenueOS.Crm.Listing

/-!
# RevenueOS.Auth.Permissions — the role matrix, and who may hand out which role

`domain/auth/permissions.py`, and `ASSIGNABLE_ROLES` of `application/auth/invitations.py`.

* `within_of_assignableRoles`: a role that somebody may hand out has no wider scope than its giver, and no permission
  that the giver lacks, but for `tenant:list`.

A permission is its resource and its action, where the source has the text `resource:action`; a role is one of the six,
where the source has its name.
-/

namespace RevenueOS.Auth

open RevenueOS.Crm

/-- `RESOURCES`. -/
inductive Resource where
  | tenant | billing | subscription | user | role | branch | team | contact | account | lead | deal | pipeline | task
  | note | activity | tag | customField | savedView | form | imports | exports | conversation | message | channel
  | messageTemplate | consent | appointment | appointmentType | resource | document | documentTemplate | file
  | signature | payment | invoice | paymentLink | workflow | approval | analytics | report | ai | prompt | apiKey
  | webhook | integration | auditLog | privacyRequest | notification | supportAccess
deriving DecidableEq

/-- `ACTIONS`. -/
inductive PermissionAction where
  | create | read | update | delete | list | exports | assign | merge | approve | execute | configure | publish
  | transfer | impersonate | send | refund
deriving DecidableEq

structure Permission where
  resource : Resource
  action : PermissionAction
deriving DecidableEq

inductive Role where
  | owner | admin | manager | member | viewer | support
deriving DecidableEq

/-- What `_expand` takes: actions by resource. -/
abbrev PermissionSpec := List (Resource × List PermissionAction)

/-- `_expand`. -/
def expand (spec : PermissionSpec) : List Permission := spec.flatMap fun (r, actions) => actions.map fun a => ⟨r, a⟩

namespace Matrix

/-- `_CRUD`. -/
def crud : List PermissionAction := [.create, .read, .update, .delete, .list]

/-- `(*_CRUD, ..)`. -/
def crudAnd (more : List PermissionAction) : List PermissionAction := crud ++ more

/-- `_RU`. -/
def ru : List PermissionAction := [.read, .list]

/-- `_LOG`: activities are never changed. -/
def log : List PermissionAction := [.create, .read, .list]

def admin : PermissionSpec :=
  [(.tenant, [.read, .update, .configure]), (.billing, [.read]), (.subscription, [.read, .update]),
    (.user, crudAnd [.assign]), (.role, crud), (.branch, crud), (.team, crud),
    (.contact, crudAnd [.assign, .merge, .exports]), (.account, crudAnd [.merge, .exports]),
    (.lead, crudAnd [.assign, .merge, .exports]), (.deal, crudAnd [.assign, .exports]), (.pipeline, crud),
    (.task, crudAnd [.assign]), (.note, crud), (.activity, log), (.tag, crud), (.customField, crud),
    (.savedView, crud), (.form, crudAnd [.publish]), (.imports, [.create, .read, .list]),
    (.exports, [.create, .read, .list]), (.conversation, crudAnd [.assign, .send]),
    (.message, [.create, .read, .list, .send]), (.channel, crudAnd [.configure]), (.messageTemplate, crud),
    (.consent, [.create, .read, .list, .update]), (.appointment, crudAnd [.assign]), (.appointmentType, crud),
    (.resource, crud), (.document, crudAnd [.send]), (.documentTemplate, crud),
    (.file, [.create, .read, .list, .delete]), (.signature, [.create, .read, .list]),
    (.payment, [.read, .list, .create]), (.invoice, crud), (.paymentLink, crud), (.workflow, crudAnd [.execute]),
    (.approval, [.read, .list, .approve]), (.analytics, [.read, .list, .exports]), (.report, crudAnd [.exports]),
    (.ai, [.read, .execute]), (.prompt, ru), (.apiKey, [.create, .read, .list, .delete]), (.webhook, crud),
    (.integration, crudAnd [.configure]), (.auditLog, [.read, .list, .exports]),
    (.privacyRequest, [.create, .read, .list]), (.notification, [.read, .list, .update])]

def manager : PermissionSpec :=
  [(.tenant, [.read]), (.user, [.read, .list]), (.branch, ru), (.team, [.read, .list, .update]),
    (.contact, [.create, .read, .update, .list, .assign, .merge, .exports]),
    (.account, [.create, .read, .update, .list]),
    (.lead, [.create, .read, .update, .list, .assign, .merge, .exports]),
    (.deal, [.create, .read, .update, .list, .assign, .exports]), (.pipeline, ru), (.task, crudAnd [.assign]),
    (.note, crud), (.activity, log), (.tag, [.create, .read, .list]), (.customField, ru), (.savedView, crud),
    (.form, crudAnd [.publish]), (.imports, [.create, .read, .list]), (.exports, [.create, .read, .list]),
    (.conversation, [.create, .read, .update, .list, .assign, .send]), (.message, [.create, .read, .list, .send]),
    (.channel, ru), (.messageTemplate, [.create, .read, .list, .update]), (.consent, [.create, .read, .list]),
    (.appointment, crudAnd [.assign]), (.appointmentType, ru), (.resource, ru),
    (.document, [.create, .read, .update, .list, .send]), (.documentTemplate, ru), (.file, [.create, .read, .list]),
    (.signature, [.create, .read, .list]), (.payment, [.read, .list]), (.invoice, [.create, .read, .list, .update]),
    (.paymentLink, [.create, .read, .list]), (.workflow, [.create, .read, .update, .list, .execute]),
    (.approval, [.read, .list, .approve]), (.analytics, [.read, .list, .exports]), (.report, crudAnd [.exports]),
    (.ai, [.read, .execute]), (.auditLog, [.read, .list]), (.notification, [.read, .list, .update])]

def member : PermissionSpec :=
  [(.tenant, [.read]), (.user, [.read]), (.contact, [.create, .read, .update, .list]), (.account, [.read, .list]),
    (.lead, [.create, .read, .update, .list]), (.deal, [.create, .read, .update, .list]), (.pipeline, ru),
    (.task, [.create, .read, .update, .list]), (.note, crud), (.activity, log), (.tag, [.read, .list]),
    (.customField, ru), (.savedView, crud), (.form, ru), (.conversation, [.read, .update, .list, .send]),
    (.message, [.create, .read, .list, .send]), (.channel, ru), (.consent, [.read, .list]),
    (.appointment, [.create, .read, .update, .list]), (.appointmentType, ru), (.document, [.create, .read, .list]),
    (.documentTemplate, ru), (.file, [.create, .read, .list]), (.paymentLink, [.create, .read, .list]),
    (.invoice, [.read, .list]), (.workflow, [.read, .list, .execute]), (.analytics, [.read]),
    (.report, [.read, .list]), (.ai, [.read, .execute]), (.notification, [.read, .list, .update])]

def viewer : PermissionSpec :=
  [.tenant, .user, .branch, .team, .contact, .account, .lead, .deal, .pipeline, .task, .note, .activity, .tag,
    .savedView, .form, .conversation, .message, .channel, .consent, .appointment, .document, .payment, .invoice,
    .workflow, .analytics, .report, .auditLog, .notification].map fun r => (r, ru)

def support : PermissionSpec :=
  [(.tenant, [.read]), (.user, [.read, .list]), (.auditLog, [.read, .list]), (.conversation, [.read, .list]),
    (.lead, [.read, .list]), (.contact, [.read, .list]), (.workflow, [.read, .list]), (.payment, [.read, .list]),
    (.notification, [.read, .list])]

end Matrix

/-- `ROLE_PERMISSIONS`: the owner has all permissions but one. -/
def Role.allows : Role → Permission → Bool
  | .owner, p => p ≠ ⟨.user, .impersonate⟩
  | .admin, p => p ∈ expand Matrix.admin
  | .manager, p => p ∈ expand Matrix.manager
  | .member, p => p ∈ expand Matrix.member
  | .viewer, p => p ∈ expand Matrix.viewer
  | .support, p => p ∈ expand Matrix.support

/-- `DEFAULT_ROLE_SCOPE`. -/
def Role.scope : Role → Scope
  | .owner => .global
  | .admin => .global
  | .manager => .team
  | .member => .self
  | .viewer => .team
  | .support => .global

/-- `ASSIGNABLE_ROLES`. -/
def Role.assignable : Role → List Role
  | .owner => [.owner, .admin, .manager, .member, .viewer]
  | .admin => [.admin, .manager, .member, .viewer]
  | .manager => [.member, .viewer]
  | .member => []
  | .viewer => []
  | .support => []

def assignableRoles (actorRoles : List Role) : List Role := actorRoles.flatMap Role.assignable

/-- `permissions_for`. -/
def permissionsFor (roles : List Role) (p : Permission) : Bool := roles.any (·.allows p)

/-- The place of a scope in the order of `widest_scope`. -/
def scopeIndex : Scope → ℕ
  | .self => 0
  | .team => 1
  | .branch => 2
  | .global => 3

def widestScope (roles : List Role) : Scope :=
  roles.foldl (fun best role => if scopeIndex best < scopeIndex role.scope then role.scope else best) .self

/-! ## What a role may hand out -/

theorem mem_expand {spec : PermissionSpec} {p : Permission} :
    p ∈ expand spec ↔ (spec.any fun (r, actions) => decide (r = p.resource) && decide (p.action ∈ actions)) = true := by
  unfold expand
  simp only [List.mem_flatMap, List.mem_map, List.any_eq_true, Bool.and_eq_true, decide_eq_true_eq]
  constructor
  · rintro ⟨⟨r, actions⟩, hmem, a, ha, rfl⟩
    exact ⟨⟨r, actions⟩, hmem, rfl, ha⟩
  · rintro ⟨⟨r, actions⟩, hmem, rfl, ha⟩
    exact ⟨⟨p.resource, actions⟩, hmem, p.action, ha, rfl⟩

/-- The permissions of one specification are among those of another, or are the one that is left out. -/
def specWithin (a b : PermissionSpec) (out : Permission) : Bool :=
  a.all fun (r, actions) => actions.all fun x =>
    (b.any fun (r', actions') => decide (r' = r) && decide (x ∈ actions')) || decide (⟨r, x⟩ = out)

theorem mem_of_specWithin {a b : PermissionSpec} {out p : Permission} (h : specWithin a b out = true)
    (hp : p ∈ expand a) : p ∈ expand b ∨ p = out := by
  obtain ⟨⟨r, actions⟩, hmem, hp⟩ := List.mem_flatMap.mp hp
  obtain ⟨x, hx, rfl⟩ := List.mem_map.mp hp
  have hone := List.all_eq_true.mp (List.all_eq_true.mp h (r, actions) hmem) x hx
  rcases Bool.or_eq_true_iff.mp hone with hone | hone
  · exact .inl (mem_expand.mpr hone)
  · exact .inr (of_decide_eq_true hone)

theorem manager_within_admin : specWithin Matrix.manager Matrix.admin ⟨.tenant, .list⟩ = true := by decide +kernel

theorem member_within_manager : specWithin Matrix.member Matrix.manager ⟨.tenant, .list⟩ = true := by decide +kernel

theorem viewer_within_manager : specWithin Matrix.viewer Matrix.manager ⟨.tenant, .list⟩ = true := by decide +kernel

theorem impersonate_not_within : ∀ spec ∈ [Matrix.admin, Matrix.manager, Matrix.member, Matrix.viewer],
    (⟨.user, .impersonate⟩ : Permission) ∉ expand spec := by
  simp only [mem_expand]
  decide +kernel

/-- `tenant:list`, which is a viewer's without being a manager's or an admin's. -/
def tenantList : Permission := ⟨.tenant, .list⟩

/-- A role has the permissions of every role that it may hand out, but for one. -/
theorem allows_of_assignable {role given : Role} (h : given ∈ role.assignable) {p : Permission}
    (hp : given.allows p = true) : role.allows p = true ∨ p = tenantList := by
  have hmanager : Role.manager.allows p = true → Role.admin.allows p = true ∨ p = tenantList := fun h =>
    (mem_of_specWithin manager_within_admin (of_decide_eq_true h)).imp_left fun h => decide_eq_true h
  have hmember : Role.member.allows p = true → Role.manager.allows p = true ∨ p = tenantList := fun h =>
    (mem_of_specWithin member_within_manager (of_decide_eq_true h)).imp_left fun h => decide_eq_true h
  have hviewer : Role.viewer.allows p = true → Role.manager.allows p = true ∨ p = tenantList := fun h =>
    (mem_of_specWithin viewer_within_manager (of_decide_eq_true h)).imp_left fun h => decide_eq_true h
  have howner : ∀ spec ∈ [Matrix.admin, Matrix.manager, Matrix.member, Matrix.viewer], p ∈ expand spec →
      Role.owner.allows p = true := by
    intro spec hspec hp
    refine decide_eq_true fun heq => ?_
    exact impersonate_not_within spec hspec (heq ▸ hp)
  cases role with
  | owner =>
    left
    cases given with
    | owner => exact hp
    | admin => exact howner Matrix.admin (by simp) (of_decide_eq_true hp)
    | manager => exact howner Matrix.manager (by simp) (of_decide_eq_true hp)
    | member => exact howner Matrix.member (by simp) (of_decide_eq_true hp)
    | viewer => exact howner Matrix.viewer (by simp) (of_decide_eq_true hp)
    | support => simp [Role.assignable] at h
  | admin =>
    cases given with
    | admin => exact .inl hp
    | manager => exact hmanager hp
    | member => exact (hmember hp).elim hmanager .inr
    | viewer => exact (hviewer hp).elim hmanager .inr
    | owner | support => simp [Role.assignable] at h
  | manager =>
    cases given with
    | member => exact hmember hp
    | viewer => exact hviewer hp
    | owner | admin | manager | support => simp [Role.assignable] at h
  | member | viewer | support => simp [Role.assignable] at h

theorem scope_of_assignable {role given : Role} (h : given ∈ role.assignable) :
    scopeIndex given.scope ≤ scopeIndex role.scope := by
  revert h
  cases role <;> cases given <;> decide

/-! ## Several roles at once -/

theorem le_widestScope {roles : List Role} {role : Role} (h : role ∈ roles) :
    scopeIndex role.scope ≤ scopeIndex (widestScope roles) := by
  have key : ∀ (roles : List Role) (best : Scope),
      scopeIndex best ≤ scopeIndex (roles.foldl
        (fun best role => if scopeIndex best < scopeIndex role.scope then role.scope else best) best) ∧
      ∀ role ∈ roles, scopeIndex role.scope ≤ scopeIndex (roles.foldl
        (fun best role => if scopeIndex best < scopeIndex role.scope then role.scope else best) best) := by
    intro roles
    induction roles with
    | nil => exact fun best => ⟨le_rfl, by simp⟩
    | cons r rs ih =>
      intro best
      obtain ⟨hbest, hrest⟩ := ih (if scopeIndex best < scopeIndex r.scope then r.scope else best)
      have hle : scopeIndex best ≤ scopeIndex (if scopeIndex best < scopeIndex r.scope then r.scope else best) ∧
          scopeIndex r.scope ≤ scopeIndex (if scopeIndex best < scopeIndex r.scope then r.scope else best) := by
        split_ifs <;> omega
      refine ⟨hle.1.trans hbest, fun role hrole => ?_⟩
      rcases List.mem_cons.mp hrole with rfl | hrole
      · exact hle.2.trans hbest
      · exact hrest role hrole
  exact (key roles .self).2 role h

/-- What is handed out stays below what the giver's roles come to together. -/
theorem within_of_assignableRoles {actorRoles : List Role} {given : Role} (h : given ∈ assignableRoles actorRoles) :
    (∀ p, given.allows p = true → permissionsFor actorRoles p = true ∨ p = tenantList) ∧
      scopeIndex given.scope ≤ scopeIndex (widestScope actorRoles) := by
  obtain ⟨role, hrole, hgiven⟩ := List.mem_flatMap.mp h
  constructor
  · intro p hp
    exact (allows_of_assignable hgiven hp).imp_left fun h => List.any_eq_true.mpr ⟨role, hrole, h⟩
  · exact (scope_of_assignable hgiven).trans (le_widestScope hrole)

end RevenueOS.Auth
