import RevenueOS.Auth.Sessions
import Mathlib.Data.Finset.Card
import Mathlib.Data.Finset.Dedup

/-!
# RevenueOS.Auth.SessionCap — how many sessions a user has

`enforce_session_cap` (`application/auth/sessions.py`) in the runs of the calls of `RevenueOS.Auth.Sessions` that are
taken one after the other: no call starts before the others ended.  A call may still fail after any of its
transactions, and time passes between them.

* `evictsOldest_cap`: the session cap drops the oldest sessions, and as many as leave room for one more.
* `session_cap`: in a run of calls one after the other no user ever has more than `MAX_SESSIONS_PER_USER` sessions.

A rotation moves the row of its family to the end of the order.  It may also come after the token expired that it was
given; the family then counted when the token was judged.
-/

namespace RevenueOS.Auth

open RevenueOS.Lib RevenueOS.Workflows

/-! ## Sessions -/

/-- The families of a user that have a live refresh token. -/
def liveSessions (t : TokenTable) (now : ℕ) (user : Uuid) : Finset Uuid :=
  ((t.rows.filter fun row => decide (row.Live now) && row.userId == user).map RefreshToken.familyId).toFinset

section LiveSessions

variable {t : TokenTable} {now : ℕ} {user family : Uuid}

theorem mem_liveRows {row : RefreshToken} :
    (row ∈ t.rows.filter fun row => decide (row.Live now) && row.userId == user) ↔
      row ∈ t.rows ∧ row.Live now ∧ row.userId = user := by
  rw [List.mem_filter, Bool.and_eq_true, decide_eq_true_iff, beq_iff_eq]

theorem mem_liveSessions :
    family ∈ liveSessions t now user ↔ ∃ row ∈ t.rows, row.Live now ∧ row.userId = user ∧ row.familyId = family := by
  unfold liveSessions
  rw [List.mem_toFinset, List.mem_map]
  refine exists_congr fun row => ?_
  rw [mem_liveRows, and_assoc, and_assoc]

/-- Tokens expire with time. -/
theorem liveSessions_elapse {later : ℕ} (h : now ≤ later) : liveSessions t later user ⊆ liveSessions t now user := by
  intro family hfamily
  obtain ⟨row, hrow, hlive, huser, hfam⟩ := mem_liveSessions.mp hfamily
  exact mem_liveSessions.mpr ⟨row, hrow, ⟨hlive.1, Nat.lt_of_le_of_lt h hlive.2⟩, huser, hfam⟩

/-- What is left after the `UPDATE` of some rows. -/
theorem mem_liveSessions_revokeRows {jtis : List String} {at' : ℕ} {reason : String} :
    family ∈ liveSessions (revokeRows t jtis at' reason) now user ↔
      ∃ row ∈ t.rows, row.jti ∉ jtis ∧ row.Live now ∧ row.userId = user ∧ row.familyId = family := by
  rw [mem_liveSessions]
  constructor
  · rintro ⟨row, hrow, hlive, huser, hfam⟩
    obtain ⟨hmem, hrow⟩ := unrevoked_revokeRows hrow hlive.1
    exact ⟨row, hrow, hmem, hlive, huser, hfam⟩
  · rintro ⟨row, hrow, hmem, hlive, huser, hfam⟩
    exact ⟨row, List.mem_map.mpr ⟨row, hrow, if_neg hmem⟩, hlive, huser, hfam⟩

theorem liveSessions_revokeRows_subset (jtis : List String) (at' : ℕ) (reason : String) :
    liveSessions (revokeRows t jtis at' reason) now user ⊆ liveSessions t now user := by
  intro family hfamily
  obtain ⟨row, hrow, -, hlive, huser, hfam⟩ := mem_liveSessions_revokeRows.mp hfamily
  exact mem_liveSessions.mpr ⟨row, hrow, hlive, huser, hfam⟩

/-- A new row adds its family to the sessions of its user. -/
theorem liveSessions_insert_subset {new : RefreshToken} (hfresh : new.jti ∉ t.rows.map RefreshToken.jti) :
    liveSessions (t.insert new) now user ⊆
      if new.userId = user then insert new.familyId (liveSessions t now user) else liveSessions t now user := by
  intro family hfamily
  obtain ⟨row, hrow, hlive, huser, hfam⟩ := mem_liveSessions.mp hfamily
  rw [rows_insert hfresh, List.mem_append, List.mem_singleton] at hrow
  rcases hrow with hrow | rfl
  · have hold : family ∈ liveSessions t now user := mem_liveSessions.mpr ⟨row, hrow, hlive, huser, hfam⟩
    split_ifs
    · exact Finset.mem_insert_of_mem hold
    · exact hold
  · rw [if_pos huser, ← hfam]
    exact Finset.mem_insert_self _ _

end LiveSessions

/-- A family has at most one token that is not revoked. -/
def SingleToken (t : TokenTable) : Prop :=
  ∀ a ∈ t.rows, ∀ b ∈ t.rows, a.revokedAt = none → b.revokedAt = none → a.familyId = b.familyId → a = b

theorem SingleToken.revokeRows {t : TokenTable} (h : SingleToken t) (jtis : List String) (at' : ℕ) (reason : String) :
    SingleToken (revokeRows t jtis at' reason) := by
  intro a ha b hb hopena hopenb hfamily
  obtain ⟨-, ha⟩ := unrevoked_revokeRows ha hopena
  obtain ⟨-, hb⟩ := unrevoked_revokeRows hb hopenb
  exact h a ha b hb hopena hopenb hfamily

/-- A row is added to a family without a token that is not revoked. -/
theorem SingleToken.insert {t : TokenTable} (h : SingleToken t) {new : RefreshToken}
    (hfresh : new.jti ∉ t.rows.map RefreshToken.jti)
    (hfree : ∀ row ∈ t.rows, row.revokedAt = none → row.familyId ≠ new.familyId) : SingleToken (t.insert new) := by
  intro a ha b hb hopena hopenb hfamily
  rw [rows_insert hfresh, List.mem_append, List.mem_singleton] at ha hb
  rcases ha with ha | rfl
  · rcases hb with hb | rfl
    · exact h a ha b hb hopena hopenb hfamily
    · exact absurd hfamily (hfree a ha hopena)
  · rcases hb with hb | rfl
    · exact absurd hfamily.symm (hfree b hb hopenb)
    · rfl

/-! ## The session cap -/

/-- From `before` to `after`, the sessions that the user had at the time `asked` make room for one more: the oldest of
them are dropped, and no more than needed. -/
structure EvictsOldest (before after : TokenTable) (asked : ℕ) (user : Uuid) : Prop where
  kept : ∀ other, liveSessions after asked other ⊆ liveSessions before asked other
  others : ∀ other, other ≠ user → liveSessions after asked other = liveSessions before asked other
  needed : (liveSessions before asked user \ liveSessions after asked user).card =
    (liveSessions before asked user).card + 1 - maxSessionsPerUser
  oldest : ∀ a ∈ before.rows, ∀ b ∈ before.rows, a.Live asked → b.Live asked → a.userId = user → b.userId = user →
    a.familyId ∉ liveSessions after asked user → b.familyId ∈ liveSessions after asked user → a.createdAt ≤ b.createdAt

/-- There is room for one more session. -/
theorem EvictsOldest.room {before after : TokenTable} {asked : ℕ} {user : Uuid}
    (h : EvictsOldest before after asked user) :
    (liveSessions after asked user).card < maxSessionsPerUser := by
  have hsplit := Finset.card_sdiff_add_card_eq_card (h.kept user)
  have hneeded := h.needed
  have hpos : 0 < maxSessionsPerUser := by decide
  omega

/-- A list without repetitions is what is kept of it. -/
theorem keepFirst_of_nodup : ∀ (families ordered : List Uuid), (ordered ++ families).Nodup →
    families.foldl (fun ordered family => if family ∈ ordered then ordered else ordered ++ [family]) ordered =
      ordered ++ families
  | [], ordered, _ => (List.append_nil ordered).symm
  | family :: families, ordered, h => by
    have hnew : family ∉ ordered := fun hmem => (List.nodup_append.mp h).2.2 family hmem family List.mem_cons_self rfl
    have hassoc : ordered ++ family :: families = ordered ++ [family] ++ families := List.append_cons _ _ _
    rw [List.foldl_cons, if_neg hnew, hassoc]
    exact keepFirst_of_nodup families (ordered ++ [family]) (hassoc ▸ h)

section Cap

variable {t : TokenTable} {now : ℕ} {user : Uuid}

/-- The live rows of the user, the oldest first. -/
def liveRows (t : TokenTable) (now : ℕ) (user : Uuid) : List RefreshToken :=
  (t.rows.filter fun row => decide (row.Live now) && row.userId == user).insertionSort
    (fun a b => a.createdAt ≤ b.createdAt)

theorem mem_sortedRows {row : RefreshToken} :
    row ∈ liveRows t now user ↔ row ∈ t.rows ∧ row.Live now ∧ row.userId = user := by
  rw [liveRows, List.mem_insertionSort, mem_liveRows]

theorem families_nodup (h : SingleToken t) : ((liveRows t now user).map RefreshToken.familyId).Nodup := by
  have hrows : (liveRows t now user).Nodup :=
    (List.perm_insertionSort _ _).nodup_iff.mpr (List.Nodup.filter _ (List.Nodup.of_map _ t.keys_nodup))
  refine List.Nodup.map_on ?_ hrows
  intro a ha b hb hfamily
  obtain ⟨ha, hlivea, -⟩ := mem_sortedRows.mp ha
  obtain ⟨hb, hliveb, -⟩ := mem_sortedRows.mp hb
  exact h a ha b hb hlivea.1 hliveb.1 hfamily

theorem liveFamilies_eq (h : SingleToken t) :
    liveFamilies t now user = (liveRows t now user).map RefreshToken.familyId := by
  have hkeep := keepFirst_of_nodup ((liveRows t now user).map RefreshToken.familyId) []
    ((List.nil_append _).symm ▸ families_nodup h)
  rw [List.nil_append] at hkeep
  exact hkeep

theorem liveSessions_eq (t : TokenTable) (now : ℕ) (user : Uuid) :
    liveSessions t now user = ((liveRows t now user).map RefreshToken.familyId).toFinset := by
  ext family
  rw [mem_liveSessions, List.mem_toFinset, List.mem_map]
  refine exists_congr fun row => ?_
  rw [mem_sortedRows, and_assoc, and_assoc]

theorem card_liveSessions (h : SingleToken t) : (liveSessions t now user).card = (liveRows t now user).length := by
  rw [liveSessions_eq, List.toFinset_card_of_nodup (families_nodup h), List.length_map]

/-- How many sessions are to go. -/
def excess (t : TokenTable) (now : ℕ) (user : Uuid) : ℕ := (liveRows t now user).length + 1 - maxSessionsPerUser

theorem sessionsToEvict_eq (h : SingleToken t) : sessionsToEvict (liveFamilies t now user) =
    ((liveRows t now user).take (excess t now user)).map RefreshToken.familyId := by
  rw [liveFamilies_eq h, sessionsToEvict, List.length_map, List.map_take]
  unfold excess
  split_ifs with hfull
  · rw [Nat.sub_add_comm hfull]
  · rw [Nat.sub_eq_zero_of_le (by omega), List.take_zero]

/-- The session cap writes nothing exactly if there is room. -/
theorem select_cap_nothing_iff (h : SingleToken t) :
    (Revocation.cap user).select t now = .nothing ↔ (liveSessions t now user).card < maxSessionsPerUser := by
  have hlen : ((liveRows t now user).take (excess t now user)).length = 0 ↔
      (liveRows t now user).length < maxSessionsPerUser := by
    rw [List.length_take]
    unfold excess
    have hpos : 0 < maxSessionsPerUser := by decide
    omega
  rw [card_liveSessions h, ← hlen]
  unfold Revocation.select
  dsimp only
  rw [sessionsToEvict_eq h, ← List.length_map (f := RefreshToken.familyId), ← List.isEmpty_iff_length_eq_zero]
  split_ifs with hnone
  · exact iff_of_true rfl hnone
  · exact iff_of_false not_false hnone

/-- Which rows the session cap writes. -/
theorem mem_jtis_of_select_cap (h : SingleToken t) {families : List Uuid} {jtis : List String}
    (hselect : (Revocation.cap user).select t now = .rows families jtis) {row : RefreshToken} (hrow : row ∈ t.rows)
    (hlive : row.Live now) : row.jti ∈ jtis ↔
      row.userId = user ∧
        row.familyId ∈ ((liveRows t now user).take (excess t now user)).map RefreshToken.familyId := by
  unfold Revocation.select at hselect
  dsimp only at hselect
  rw [sessionsToEvict_eq h] at hselect
  split_ifs at hselect
  obtain ⟨-, rfl⟩ := Selection.rows.inj hselect
  unfold unrevokedJtis
  rw [List.mem_map]
  constructor
  · rintro ⟨row', hrow', hjti⟩
    obtain ⟨hmem, hp⟩ := List.mem_filter.mp hrow'
    rw [Table.eq_of_key hmem hrow hjti] at hp
    rw [Bool.and_eq_true, Bool.and_eq_true, Bool.and_eq_true, beq_iff_eq, List.contains_iff_mem] at hp
    exact ⟨hp.2.1.2, hp.2.2⟩
  · rintro ⟨huser, hfamily⟩
    refine ⟨row, List.mem_filter.mpr ⟨hrow, ?_⟩, rfl⟩
    rw [Bool.and_eq_true, Bool.and_eq_true, Bool.and_eq_true, beq_iff_eq, List.contains_iff_mem]
    exact ⟨by rw [hlive.1]; rfl, ⟨decide_eq_true hlive.2, huser⟩, hfamily⟩

/-- **The session cap** drops the oldest sessions, and as many as leave room for one more. -/
theorem evictsOldest_cap (h : SingleToken t) {families : List Uuid} {jtis : List String}
    (hselect : (Revocation.cap user).select t now = .rows families jtis) (at' : ℕ) (reason : String) :
    EvictsOldest t (revokeRows t jtis at' reason) now user := by
  set rows := liveRows t now user with hrows
  set n := excess t now user with hn
  have hwritten : ∀ {row : RefreshToken}, row ∈ t.rows → row.Live now →
      (row.jti ∈ jtis ↔ row.userId = user ∧ row.familyId ∈ (rows.take n).map RefreshToken.familyId) :=
    mem_jtis_of_select_cap h hselect
  have hnodup : (rows.map RefreshToken.familyId).Nodup := families_nodup h
  have hdisjoint := List.disjoint_take_drop hnodup (Nat.le_refl n)
  have hafter : liveSessions (revokeRows t jtis at' reason) now user =
      ((rows.drop n).map RefreshToken.familyId).toFinset := by
    ext family
    rw [mem_liveSessions_revokeRows, List.mem_toFinset, List.mem_map]
    constructor
    · rintro ⟨row, hrow, hmem, hlive, huser, rfl⟩
      have hin : row ∈ rows := mem_sortedRows.mpr ⟨hrow, hlive, huser⟩
      rw [← List.take_append_drop n rows, List.mem_append] at hin
      refine ⟨row, hin.resolve_left fun htake => hmem ((hwritten hrow hlive).mpr ⟨huser, ?_⟩), rfl⟩
      exact List.mem_map_of_mem htake
    · rintro ⟨row, hrow, rfl⟩
      obtain ⟨hmem, hlive, huser⟩ := mem_sortedRows.mp (List.mem_of_mem_drop hrow)
      refine ⟨row, hmem, fun hjti => ?_, hlive, huser, rfl⟩
      have htake := ((hwritten hmem hlive).mp hjti).2
      rw [List.map_take] at htake
      exact hdisjoint htake (List.map_drop ▸ List.mem_map_of_mem hrow)
  refine ⟨fun other => liveSessions_revokeRows_subset jtis at' reason, fun other hother => ?_, ?_, ?_⟩
  · refine Finset.Subset.antisymm (liveSessions_revokeRows_subset jtis at' reason) fun family hfamily => ?_
    obtain ⟨row, hrow, hlive, huser, hfam⟩ := mem_liveSessions.mp hfamily
    refine mem_liveSessions_revokeRows.mpr ⟨row, hrow, fun hjti => ?_, hlive, huser, hfam⟩
    exact hother (huser.symm.trans ((hwritten hrow hlive).mp hjti).1)
  · have hdrop : (liveSessions (revokeRows t jtis at' reason) now user).card = rows.length - n := by
      rw [hafter, List.toFinset_card_of_nodup, List.length_map, List.length_drop]
      rw [List.map_drop]
      exact (families_nodup h).sublist (List.drop_sublist n _)
    have hless : liveSessions (revokeRows t jtis at' reason) now user ⊆ liveSessions t now user :=
      liveSessions_revokeRows_subset jtis at' reason
    have hsplit := Finset.card_sdiff_add_card_eq_card hless
    rw [hdrop, card_liveSessions h, ← hrows] at hsplit
    rw [card_liveSessions h, ← hrows]
    have hexcess : n = rows.length + 1 - maxSessionsPerUser := hn
    have hpos : 1 ≤ maxSessionsPerUser := by decide
    omega
  · intro a ha b hb hlivea hliveb husera huserb hgone hstays
    have hina : a ∈ rows := mem_sortedRows.mpr ⟨ha, hlivea, husera⟩
    have hinb : b ∈ rows := mem_sortedRows.mpr ⟨hb, hliveb, huserb⟩
    rw [hafter, List.mem_toFinset, List.mem_map] at hgone hstays
    have htake : a ∈ rows.take n := by
      rw [← List.take_append_drop n rows, List.mem_append] at hina
      exact hina.resolve_right fun hdrop => hgone ⟨a, hdrop, rfl⟩
    obtain ⟨b', hdrop, hfamily⟩ := hstays
    obtain ⟨hb', hliveb', -⟩ := mem_sortedRows.mp (List.mem_of_mem_drop hdrop)
    rw [h b' hb' b hb hliveb'.1 hliveb.1 hfamily] at hdrop
    have hsorted : rows.Pairwise fun a b => a.createdAt ≤ b.createdAt :=
      List.pairwise_insertionSort (fun a b : RefreshToken => a.createdAt ≤ b.createdAt) _
    rw [← List.take_append_drop n rows, List.pairwise_append] at hsorted
    exact hsorted.2.2 a htake b hdrop

end Cap

/-! ## Calls one after the other -/

def RefreshCall.Done : RefreshCall → Prop
  | .rotated _ _ => True
  | .rejected => True
  | _ => False

def RevokeCall.Done : RevokeCall → Prop
  | .returned _ _ => True
  | .failed => True
  | _ => False

def IssueCall.Done : IssueCall → Prop
  | .capping _ _ _ => False
  | _ => True

instance : DecidablePred RefreshCall.Done
  | .presented _ => .isFalse id
  | .judged _ _ _ => .isFalse id
  | .reloaded _ _ _ _ => .isFalse id
  | .rotated _ _ => .isTrue trivial
  | .rejected => .isTrue trivial

instance : DecidablePred RevokeCall.Done
  | .opened _ => .isFalse id
  | .selected _ _ _ => .isFalse id
  | .committed _ _ _ => .isFalse id
  | .returned _ _ => .isTrue trivial
  | .failed => .isTrue trivial

instance : DecidablePred IssueCall.Done
  | .capping _ _ _ => .isFalse id
  | .issued _ => .isTrue trivial
  | .failed => .isTrue trivial

/-- The step starts a call. -/
def AuthStep.starts : AuthStep → Bool
  | .signIn _ _ => true
  | .refresh _ => true
  | .revoke _ => true
  | _ => false

namespace AuthState

/-- No call is running. -/
structure Quiet (s : AuthState) : Prop where
  refreshes : ∀ call ∈ s.refreshes, call.Done
  revokes : ∀ call ∈ s.revokes, call.Done
  issues : ∀ call ∈ s.issues, call.Done

instance (s : AuthState) : Decidable s.Quiet :=
  decidable_of_iff ((∀ call ∈ s.refreshes, call.Done) ∧ (∀ call ∈ s.revokes, call.Done) ∧ ∀ call ∈ s.issues, call.Done)
    ⟨fun h => ⟨h.1, h.2.1, h.2.2⟩, fun h => ⟨h.refreshes, h.revokes, h.issues⟩⟩

/-- A call starts when no other is running. -/
def OneByOne (s : AuthState) (l : AuthStep) : Prop := l.starts = true → s.Quiet

instance (s : AuthState) (l : AuthStep) : Decidable (s.OneByOne l) :=
  inferInstanceAs (Decidable (l.starts = true → s.Quiet))

end AuthState

/-- What a step does, with what it has found. -/
inductive SessionMove (sha256 : String → String) (accessTtl : ℕ) (s : AuthState) : AuthStep → AuthState → Prop where
  | idle {l : AuthStep} : SessionMove sha256 accessTtl s l s
  | ticked (seconds : ℕ) : SessionMove sha256 accessTtl s (.tick seconds) { s with redis := s.redis.elapse seconds }
  | signedIn (user : Uuid) (profile : Profile) : SessionMove sha256 accessTtl s (.signIn user profile)
      { s with
        revokes := s.revokes ++ [.opened (.cap user)]
        issues := s.issues ++ [.capping s.revokes.length user profile] }
  | presented (token : String) : SessionMove sha256 accessTtl s (.refresh token)
      { s with refreshes := s.refreshes ++ [.presented token] }
  | requested (request : Revocation) : SessionMove sha256 accessTtl s (.revoke request)
      { s with revokes := s.revokes ++ [.opened request] }
  | judged {k : ℕ} {token : String} {row : RefreshToken} (hk : s.refreshes[k]? = some (.presented token))
      (hrow : row ∈ s.tokens.rows) (hlive : row.Live s.now) : SessionMove sha256 accessTtl s (.judge k)
      (s.setRefresh k (.judged row.jti row.familyId row.userId))
  | reloaded {k : ℕ} {current : String} {family user : Uuid} (profile : Profile)
      (hk : s.refreshes[k]? = some (.judged current family user)) :
        SessionMove sha256 accessTtl s (.reload k (some profile))
      (s.setRefresh k (.reloaded current family user profile))
  | rejected {l : AuthStep} (k : ℕ) : SessionMove sha256 accessTtl s l (s.setRefresh k .rejected)
  | reused {l : AuthStep} {k : ℕ} {token : String} (row : RefreshToken)
    (hk : s.refreshes[k]? = some (.presented token)) :
      SessionMove sha256 accessTtl s l
        { s.setRefresh k .rejected with revokes := s.revokes ++ [.opened (.reuse row.familyId)] }
  | rotated {k : ℕ} {draw : Draw} {current : String} {family user : Uuid} {profile : Profile}
      (hk : s.refreshes[k]? = some (.reloaded current family user profile)) (hfresh : s.Fresh draw) :
      SessionMove sha256 accessTtl s (.rotate k draw)
      { s with
        tokens := (revokeRows s.tokens [current] s.now "rotated").insert
          (s.newRow sha256 draw user family (some current))
        access := s.access ++ [s.newAccess accessTtl draw user family profile]
        refreshes := s.refreshes.set k (.rotated current draw.jti) }
  | selected {k : ℕ} {request : Revocation} {families : List Uuid} {jtis : List String}
      (hk : s.revokes[k]? = some (.opened request)) (hselect : request.select s.tokens s.now = .rows families jtis) :
      SessionMove sha256 accessTtl s (.select k) (s.setRevoke k (.selected request families jtis))
  | unneeded {k : ℕ} {request : Revocation} (hk : s.revokes[k]? = some (.opened request))
      (hselect : request.select s.tokens s.now = .nothing) :
      SessionMove sha256 accessTtl s (.select k) (s.setRevoke k (.returned request []))
  | failed {l : AuthStep} (k : ℕ) : SessionMove sha256 accessTtl s l (s.setRevoke k .failed)
  | committed {k : ℕ} {request : Revocation} {families : List Uuid} {jtis : List String}
      (hk : s.revokes[k]? = some (.selected request families jtis)) :
      SessionMove sha256 accessTtl s (.commit k)
      { s.setRevoke k (.committed request families jtis) with
        tokens := revokeRows s.tokens jtis s.now request.reason }
  | blacklisted {k : ℕ} {request : Revocation} {families : List Uuid} {jtis : List String} {redis : TtlStore String}
      (hk : s.revokes[k]? = some (.committed request families jtis)) (hnow : redis.now = s.now) :
      SessionMove sha256 accessTtl s (.blacklist k) { s.setRevoke k (.returned request families) with redis := redis }
  | issued {k cap : ℕ} {user family : Uuid} {profile : Profile} {draw : Draw} {request : Revocation}
      {families : List Uuid} (hk : s.issues[k]? = some (.capping cap user profile))
      (hcap : s.revokes[cap]? = some (.returned request families)) (hfresh : s.Fresh draw)
      (hfamily : s.NewFamily family) : SessionMove sha256 accessTtl s (.issue k family draw)
      { s with
        tokens := s.tokens.insert (s.newRow sha256 draw user family none)
        access := s.access ++ [s.newAccess accessTtl draw user family profile]
        issues := s.issues.set k (.issued family) }
  | abandoned (k : ℕ) : SessionMove sha256 accessTtl s (.failIssue k) { s with issues := s.issues.set k .failed }

section Moves

variable (sha256 : String → String) (accessTtl : ℕ)

theorem live_of_accepted {row : RefreshToken} {presented : String} {now : ℕ}
    (h : (evaluateRotation (some row) presented now).accepted = true) : row.Live now := by
  unfold evaluateRotation at h
  dsimp only at h
  split_ifs at h with hhash hrevoked hexpired
  exact ⟨not_not.mp hrevoked, Nat.lt_of_not_le hexpired⟩

theorem sessionMove_judge (s : AuthState) (k : ℕ) :
    SessionMove sha256 accessTtl s (.judge k) (s.step sha256 accessTtl (.judge k)) := by
  dsimp only [AuthState.step]
  split
  · rename_i token hk
    split
    · exact .rejected k
    · rename_i jti hjti
      cases hfind : s.tokens.find? jti with
      | none => exact .rejected k
      | some row =>
        dsimp only
        split_ifs with hreused hrefused
        · exact .reused row hk
        · exact .rejected k
        · rw [Bool.not_eq_true', Bool.not_eq_false] at hrefused
          exact .judged hk (Table.mem_of_find? hfind) (live_of_accepted hrefused)
  · exact .idle

theorem sessionMove_step (s : AuthState) (l : AuthStep) :
    SessionMove sha256 accessTtl s l (s.step sha256 accessTtl l) := by
  cases l with
  | tick seconds => exact .ticked seconds
  | signIn user profile => exact .signedIn user profile
  | issue k family draw =>
    dsimp only [AuthState.step]
    split
    · rename_i cap user profile hk
      split
      · rename_i request families hcap
        split_ifs with hfresh
        · exact .issued hk hcap hfresh.1 hfresh.2
        · exact .idle
      · exact .idle
    · exact .idle
  | refresh token => exact .presented token
  | judge k => exact sessionMove_judge sha256 accessTtl s k
  | reload k profile =>
    dsimp only [AuthState.step]
    split
    · rename_i current family user profile hk
      exact .reloaded profile hk
    · exact .rejected k
    · exact .idle
  | rotate k draw =>
    dsimp only [AuthState.step]
    split
    · rename_i current family user profile hk
      split_ifs with hfresh
      · exact .rotated hk hfresh
      · exact .idle
    · exact .idle
  | revoke request =>
    dsimp only [AuthState.step]
    split_ifs
    · exact .idle
    · exact .requested request
  | select k =>
    dsimp only [AuthState.step]
    split
    · rename_i request hk
      split
      · rename_i families jtis hselect
        exact .selected hk hselect
      · rename_i hselect
        exact .unneeded hk hselect
      · exact .failed k
    · exact .idle
  | commit k =>
    dsimp only [AuthState.step]
    split
    · rename_i request families jtis hk
      exact .committed hk
    · exact .idle
  | blacklist k =>
    dsimp only [AuthState.step]
    split
    · rename_i request families jtis hk
      refine .blacklisted hk ?_
      split_ifs
      · exact now_revokeAccessJtis s.redis jtis
      · rfl
    · exact .idle
  | failRefresh k =>
    dsimp only [AuthState.step]
    split
    · exact .idle
    · exact .rejected k
    · exact .idle
  | failRevoke k =>
    dsimp only [AuthState.step]
    split
    · exact .idle
    · exact .failed k
    · exact .idle
  | failIssue k =>
    dsimp only [AuthState.step]
    split
    · exact .abandoned k
    · exact .idle

end Moves

/-! ## One call at a time -/

/-- The calls that are running: one, or a login with its session cap. -/
structure AuthState.Alone (s : AuthState) : Prop where
  refresh : ∀ (k : ℕ) (call : RefreshCall), s.refreshes[k]? = some call → ¬call.Done →
    (∀ (j : ℕ) (other : RefreshCall), s.refreshes[j]? = some other → ¬other.Done → j = k) ∧
      (∀ other ∈ s.revokes, other.Done) ∧ ∀ other ∈ s.issues, other.Done
  revoke : ∀ (j k : ℕ) (a b : RevokeCall), s.revokes[j]? = some a → s.revokes[k]? = some b → ¬a.Done → ¬b.Done → j = k
  issue : ∀ (k cap : ℕ) (user : Uuid) (profile : Profile), s.issues[k]? = some (.capping cap user profile) →
    (∀ (j : ℕ) (other : IssueCall), s.issues[j]? = some other → ¬other.Done → j = k) ∧
      ∀ (j : ℕ) (other : RevokeCall), s.revokes[j]? = some other → ¬other.Done → j = cap

namespace AuthState.Alone

variable {s s' : AuthState}

/-- No call is opened. -/
theorem mono (h : s.Alone)
    (hrefreshes : ∀ (k : ℕ) (call' : RefreshCall), s'.refreshes[k]? = some call' → ¬call'.Done →
      ∃ call, s.refreshes[k]? = some call ∧ ¬call.Done)
    (hrevokes : ∀ (k : ℕ) (call' : RevokeCall), s'.revokes[k]? = some call' → ¬call'.Done →
      ∃ call, s.revokes[k]? = some call ∧ ¬call.Done)
    (hissues : ∀ (k : ℕ) (call' : IssueCall), s'.issues[k]? = some call' → ¬call'.Done → s.issues[k]? = some call') :
    s'.Alone where
  refresh k call' hk hopen := by
    obtain ⟨call, hcall, hopen⟩ := hrefreshes k call' hk hopen
    obtain ⟨hone, hrevoked, hissued⟩ := h.refresh k call hcall hopen
    refine ⟨fun j other' hj hopen' => ?_, fun other' hother => ?_, fun other' hother => ?_⟩
    · obtain ⟨other, hother, hopen⟩ := hrefreshes j other' hj hopen'
      exact hone j other hother hopen
    · by_contra hopen'
      obtain ⟨j, hj⟩ := List.mem_iff_getElem?.mp hother
      obtain ⟨other, hother, hopen⟩ := hrevokes j other' hj hopen'
      exact hopen (hrevoked other (List.mem_of_getElem? hother))
    · by_contra hopen'
      obtain ⟨j, hj⟩ := List.mem_iff_getElem?.mp hother
      exact hopen' (hissued other' (List.mem_of_getElem? (hissues j other' hj hopen')))
  revoke j k a' b' hj hk hopena hopenb := by
    obtain ⟨a, ha, hopena⟩ := hrevokes j a' hj hopena
    obtain ⟨b, hb, hopenb⟩ := hrevokes k b' hk hopenb
    exact h.revoke j k a b ha hb hopena hopenb
  issue k cap user profile hk := by
    obtain ⟨hone, hcap⟩ := h.issue k cap user profile (hissues k _ hk id)
    refine ⟨fun j other hj hopen => hone j other (hissues j other hj hopen) hopen, fun j other' hj hopen' => ?_⟩
    obtain ⟨other, hother, hopen⟩ := hrevokes j other' hj hopen'
    exact hcap j other hother hopen

/-- A revoking call is opened when no other call is running. -/
theorem of_revoke {call : RevokeCall} {revokes : List RevokeCall} (hrefreshes : ∀ call ∈ s.refreshes, call.Done)
    (hissues : ∀ call ∈ s.issues, call.Done) (hrevokes : ∀ call ∈ revokes, call.Done)
    (hs : s.revokes = revokes ++ [call]) : s.Alone where
  refresh k other hk hopen := absurd (hrefreshes other (List.mem_of_getElem? hk)) hopen
  revoke j k a b ha hb hopena hopenb := by
    rw [hs] at ha hb
    rw [(eq_of_getElem?_concat hrevokes ha hopena).1, (eq_of_getElem?_concat hrevokes hb hopenb).1]
  issue k cap user profile hk := (hissues _ (List.mem_of_getElem? hk)).elim

end AuthState.Alone

/-! ## What the running call has found -/

/-- A rotation that is under way: its token is the only one of the family that may be live, and the family is
counted. -/
structure Rotatable (t : TokenTable) (now : ℕ) (current : String) (family user : Uuid) : Prop where
  only : ∀ row ∈ t.rows, row.revokedAt = none → row.familyId = family → row.jti = current
  room : (insert family (liveSessions t now user)).card ≤ maxSessionsPerUser

def RefreshCall.Ready (t : TokenTable) (now : ℕ) : RefreshCall → Prop
  | .judged current family user => Rotatable t now current family user
  | .reloaded current family user _ => Rotatable t now current family user
  | _ => True

/-- What a session cap is about to write was right when it read the rows. -/
def RevokeCall.Ready (t : TokenTable) (now : ℕ) : RevokeCall → Prop
  | .selected (.cap user) _ jtis =>
    ∃ asked ≤ now, ∀ at' : ℕ, EvictsOldest t (revokeRows t jtis at' "session_cap") asked user
  | _ => True

/-- The session cap of a login, and the room it made. -/
def RevokeCall.MakesRoom (t : TokenTable) (now : ℕ) (user : Uuid) : RevokeCall → Prop
  | .opened request => request = .cap user
  | .selected request _ _ => request = .cap user
  | .committed _ _ _ => (liveSessions t now user).card < maxSessionsPerUser
  | .returned _ _ => (liveSessions t now user).card < maxSessionsPerUser
  | .failed => True

def IssueCall.Ready (t : TokenTable) (now : ℕ) (revokes : List RevokeCall) : IssueCall → Prop
  | .capping cap user _ => ∀ call, revokes[cap]? = some call → call.MakesRoom t now user
  | _ => True

theorem RefreshCall.ready_of_done {t : TokenTable} {now : ℕ} {call : RefreshCall} (h : call.Done) :
    call.Ready t now := by
  cases call with
  | judged current family user => exact h.elim
  | reloaded current family user profile => exact h.elim
  | _ => trivial

theorem RevokeCall.ready_of_done {t : TokenTable} {now : ℕ} {call : RevokeCall} (h : call.Done) :
    call.Ready t now := by
  cases call with
  | selected request families jtis => exact h.elim
  | _ => trivial

theorem IssueCall.ready_of_done {t : TokenTable} {now : ℕ} {revokes : List RevokeCall} {call : IssueCall}
    (h : call.Done) : call.Ready t now revokes := by
  cases call with
  | capping cap user profile => exact h.elim
  | _ => trivial

section Elapse

variable {t : TokenTable} {now later : ℕ} (h : now ≤ later)
include h

theorem Rotatable.elapse {current : String} {family user : Uuid} (hcall : Rotatable t now current family user) :
    Rotatable t later current family user where
  only := hcall.only
  room := (Finset.card_le_card (Finset.insert_subset_insert _ (liveSessions_elapse h))).trans hcall.room

theorem RefreshCall.Ready.elapse {call : RefreshCall} (hcall : call.Ready t now) : call.Ready t later := by
  cases call with
  | judged current family user => exact Rotatable.elapse h hcall
  | reloaded current family user profile => exact Rotatable.elapse h hcall
  | _ => trivial

theorem RevokeCall.Ready.elapse {call : RevokeCall} (hcall : call.Ready t now) : call.Ready t later := by
  cases call with
  | selected request families jtis =>
    cases request with
    | cap user =>
      obtain ⟨asked, hasked, hevicts⟩ := hcall
      exact ⟨asked, hasked.trans h, hevicts⟩
    | _ => trivial
  | _ => trivial

theorem card_liveSessions_elapse {user : Uuid} (hroom : (liveSessions t now user).card < maxSessionsPerUser) :
    (liveSessions t later user).card < maxSessionsPerUser :=
  Nat.lt_of_le_of_lt (Finset.card_le_card (liveSessions_elapse h)) hroom

theorem RevokeCall.MakesRoom.elapse {user : Uuid} {call : RevokeCall} (hcall : call.MakesRoom t now user) :
    call.MakesRoom t later user := by
  cases call with
  | opened request => exact hcall
  | selected request families jtis => exact hcall
  | committed request families jtis => exact card_liveSessions_elapse h hcall
  | returned request families => exact card_liveSessions_elapse h hcall
  | failed => trivial

theorem IssueCall.Ready.elapse {revokes : List RevokeCall} {call : IssueCall} (hcall : call.Ready t now revokes) :
    call.Ready t later revokes := by
  cases call with
  | capping cap user profile => exact fun other hother => (hcall other hother).elapse h
  | _ => trivial

end Elapse

/-! ## Runs -/

/-- What holds between the steps of calls that are made one after the other. -/
structure AuthState.Sequenced (s : AuthState) : Prop where
  single : SingleToken s.tokens
  capped : ∀ user, (liveSessions s.tokens s.now user).card ≤ maxSessionsPerUser
  alone : s.Alone
  refreshReady : ∀ (k : ℕ) (call : RefreshCall), s.refreshes[k]? = some call → call.Ready s.tokens s.now
  revokeReady : ∀ (k : ℕ) (call : RevokeCall), s.revokes[k]? = some call → call.Ready s.tokens s.now
  issueReady : ∀ (k : ℕ) (call : IssueCall), s.issues[k]? = some call → call.Ready s.tokens s.now s.revokes

namespace AuthState.Sequenced

variable {sha256 : String → String} {accessTtl : ℕ} {s : AuthState}

/-- A step of a refresh that writes no row. -/
theorem setRefresh (h : s.Sequenced) {k : ℕ} {call : RefreshCall} (hready : call.Ready s.tokens s.now)
    (hopen : ¬call.Done → ∃ old, s.refreshes[k]? = some old ∧ ¬old.Done) : (s.setRefresh k call).Sequenced where
  single := h.single
  capped := h.capped
  alone := by
    refine h.alone.mono (fun j c hj hc => ?_) (fun j c hj hc => ⟨c, hj, hc⟩) (fun j c hj _ => hj)
    rcases getElem?_set_cases hj with ⟨rfl, rfl⟩ | ⟨-, hj⟩
    · exact hopen hc
    · exact ⟨c, hj, hc⟩
  refreshReady j c hj := by
    rcases getElem?_set_cases hj with ⟨-, rfl⟩ | ⟨-, hj⟩
    · exact hready
    · exact h.refreshReady j c hj
  revokeReady := h.revokeReady
  issueReady := h.issueReady

/-- A step of a revoking call that writes no row. -/
theorem setRevoke (h : s.Sequenced) {k : ℕ} {call : RevokeCall} (hready : call.Ready s.tokens s.now)
    (hopen : ¬call.Done → ∃ old, s.revokes[k]? = some old ∧ ¬old.Done)
    (hroom : ∀ (j : ℕ) (user : Uuid) (profile : Profile), s.issues[j]? = some (.capping k user profile) →
      call.MakesRoom s.tokens s.now user) : (s.setRevoke k call).Sequenced where
  single := h.single
  capped := h.capped
  alone := by
    refine h.alone.mono (fun j c hj hc => ⟨c, hj, hc⟩) (fun j c hj hc => ?_) (fun j c hj _ => hj)
    rcases getElem?_set_cases hj with ⟨rfl, rfl⟩ | ⟨-, hj⟩
    · exact hopen hc
    · exact ⟨c, hj, hc⟩
  refreshReady := h.refreshReady
  revokeReady j c hj := by
    rcases getElem?_set_cases hj with ⟨-, rfl⟩ | ⟨-, hj⟩
    · exact hready
    · exact h.revokeReady j c hj
  issueReady j c hj := by
    cases c with
    | capping cap user profile =>
      intro other hother
      rcases getElem?_set_cases hother with ⟨rfl, rfl⟩ | ⟨-, hother⟩
      · exact hroom j user profile hj
      · exact h.issueReady j _ hj other hother
    | issued family => trivial
    | failed => trivial

/-- The room that the session cap of a login has found or made. -/
theorem makesRoom (h : s.Sequenced) {j k : ℕ} {user : Uuid} {profile : Profile} {call : RevokeCall}
    (hj : s.issues[j]? = some (.capping k user profile)) (hk : s.revokes[k]? = some call) :
    call.MakesRoom s.tokens s.now user := h.issueReady j _ hj call hk

theorem signedIn (h : s.Sequenced) (hquiet : s.Quiet) (user : Uuid) (profile : Profile) :
    AuthState.Sequenced { s with
      revokes := s.revokes ++ [.opened (.cap user)]
      issues := s.issues ++ [.capping s.revokes.length user profile] } where
  single := h.single
  capped := h.capped
  alone := by
    refine ⟨fun k c hk hopen => absurd (hquiet.refreshes c (List.mem_of_getElem? hk)) hopen,
      fun j k a b ha hb hopena hopenb => ?_, fun k cap user' profile' hk => ?_⟩
    · rw [(eq_of_getElem?_concat hquiet.revokes ha hopena).1, (eq_of_getElem?_concat hquiet.revokes hb hopenb).1]
    · obtain ⟨rfl, hcall⟩ := eq_of_getElem?_concat hquiet.issues hk id
      obtain ⟨rfl, -, -⟩ := IssueCall.capping.inj hcall
      exact ⟨fun j c hj hopen => (eq_of_getElem?_concat hquiet.issues hj hopen).1,
        fun j c hj hopen => (eq_of_getElem?_concat hquiet.revokes hj hopen).1⟩
  refreshReady := h.refreshReady
  revokeReady j c hj := by
    rcases getElem?_concat_cases hj with rfl | hj
    · trivial
    · exact h.revokeReady j c hj
  issueReady j c hj := by
    rcases getElem?_concat_cases hj with rfl | hj
    · intro call hcall
      rw [List.getElem?_concat_length] at hcall
      cases hcall
      exact rfl
    · exact IssueCall.ready_of_done (hquiet.issues c (List.mem_of_getElem? hj))

theorem presented (h : s.Sequenced) (hquiet : s.Quiet) (token : String) :
    AuthState.Sequenced { s with refreshes := s.refreshes ++ [.presented token] } where
  single := h.single
  capped := h.capped
  alone := by
    refine ⟨fun k c hk hopen => ⟨fun j other hj hopen' => ?_, hquiet.revokes, hquiet.issues⟩, h.alone.revoke,
      h.alone.issue⟩
    rw [(eq_of_getElem?_concat hquiet.refreshes hj hopen').1, (eq_of_getElem?_concat hquiet.refreshes hk hopen).1]
  refreshReady j c hj := by
    rcases getElem?_concat_cases hj with rfl | hj
    · trivial
    · exact h.refreshReady j c hj
  revokeReady := h.revokeReady
  issueReady := h.issueReady

/-- A revoking call is opened when no other call is running. -/
theorem revoking (h : s.Sequenced) {refreshes : List RefreshCall} (request : Revocation)
    (hrefreshes : ∀ call ∈ refreshes, call.Done) (hrevokes : ∀ call ∈ s.revokes, call.Done)
    (hissues : ∀ call ∈ s.issues, call.Done) :
    AuthState.Sequenced { s with refreshes := refreshes, revokes := s.revokes ++ [.opened request] } where
  single := h.single
  capped := h.capped
  alone := .of_revoke hrefreshes hissues hrevokes rfl
  refreshReady _ c hj := RefreshCall.ready_of_done (hrefreshes c (List.mem_of_getElem? hj))
  revokeReady j c hj := by
    rcases getElem?_concat_cases hj with rfl | hj
    · trivial
    · exact h.revokeReady j c hj
  issueReady _ c hj := IssueCall.ready_of_done (hissues c (List.mem_of_getElem? hj))

theorem judged (h : s.Sequenced) {k : ℕ} {token : String} {row : RefreshToken}
    (hk : s.refreshes[k]? = some (.presented token)) (hrow : row ∈ s.tokens.rows) (hlive : row.Live s.now) :
    (s.setRefresh k (.judged row.jti row.familyId row.userId)).Sequenced := by
  refine h.setRefresh ⟨fun other hother hopen hfamily => ?_, ?_⟩ fun _ => ⟨_, hk, id⟩
  · rw [h.single other hother row hrow hopen hlive.1 hfamily]
  · rw [Finset.insert_eq_of_mem (mem_liveSessions.mpr ⟨row, hrow, hlive, rfl, rfl⟩)]
    exact h.capped row.userId

theorem reused (h : s.Sequenced) {k : ℕ} {token : String} (hk : s.refreshes[k]? = some (.presented token))
    (family : Uuid) :
    AuthState.Sequenced { s.setRefresh k .rejected with revokes := s.revokes ++ [.opened (.reuse family)] } := by
  obtain ⟨hone, hrevokes, hissues⟩ := h.alone.refresh k _ hk id
  have hrefreshes : ∀ call ∈ s.refreshes.set k .rejected, call.Done := by
    intro call hcall
    obtain ⟨j, hj⟩ := List.mem_iff_getElem?.mp hcall
    rcases getElem?_set_cases hj with ⟨-, rfl⟩ | ⟨hne, hj⟩
    · trivial
    · by_contra hopen
      exact hne (hone j call hj hopen)
  exact h.revoking (.reuse family) hrefreshes hrevokes hissues

/-- Rows are written by the one call that is running: the others are done. -/
theorem of_done {s' : AuthState} (hsingle : SingleToken s'.tokens)
    (hcapped : ∀ user, (liveSessions s'.tokens s'.now user).card ≤ maxSessionsPerUser) (halone : s'.Alone)
    (hrefreshes : ∀ (k : ℕ) (call : RefreshCall), s'.refreshes[k]? = some call → call.Done)
    (hrevokes : ∀ (k : ℕ) (call : RevokeCall), s'.revokes[k]? = some call → call.Ready s'.tokens s'.now)
    (hissues : ∀ (k : ℕ) (call : IssueCall), s'.issues[k]? = some call → call.Ready s'.tokens s'.now s'.revokes) :
    s'.Sequenced :=
  ⟨hsingle, hcapped, halone, fun k call hk => RefreshCall.ready_of_done (hrefreshes k call hk), hrevokes, hissues⟩

theorem rotated (h : s.Sequenced) {k : ℕ} {draw : Draw} {current : String} {family user : Uuid} {profile : Profile}
    (hk : s.refreshes[k]? = some (.reloaded current family user profile)) (hfresh : s.Fresh draw) :
    AuthState.Sequenced { s with
      tokens := (revokeRows s.tokens [current] s.now "rotated").insert
        (s.newRow sha256 draw user family (some current))
      access := s.access ++ [s.newAccess accessTtl draw user family profile]
      refreshes := s.refreshes.set k (.rotated current draw.jti) } := by
  have hready : Rotatable s.tokens s.now current family user := h.refreshReady k _ hk
  obtain ⟨hone, hrevokes, hissues⟩ := h.alone.refresh k _ hk id
  have hdone : ∀ (j : ℕ) (call : RefreshCall), (s.refreshes.set k (.rotated current draw.jti))[j]? = some call →
      call.Done := by
    intro j call hj
    rcases getElem?_set_cases hj with ⟨-, rfl⟩ | ⟨hne, hj⟩
    · trivial
    · by_contra hopen
      exact hne (hone j call hj hopen)
  have hnew := fresh_revokeRows hfresh [current] "rotated"
  have hcard : ∀ other, (liveSessions ((revokeRows s.tokens [current] s.now "rotated").insert
      (s.newRow sha256 draw user family (some current))) s.now other).card ≤ maxSessionsPerUser := by
    intro other
    have hinsert := @liveSessions_insert_subset _ s.now other (s.newRow sha256 draw user family (some current)) hnew
    have hless : liveSessions (revokeRows s.tokens [current] s.now "rotated") s.now other ⊆
        liveSessions s.tokens s.now other := liveSessions_revokeRows_subset [current] s.now "rotated"
    split_ifs at hinsert with huser
    · have heq : user = other := huser
      subst heq
      exact (Finset.card_le_card (hinsert.trans (Finset.insert_subset_insert _ hless))).trans hready.room
    · exact (Finset.card_le_card (hinsert.trans hless)).trans (h.capped other)
  refine of_done ((h.single.revokeRows _ _ _).insert hnew fun row hrow hopen hfamily => ?_) hcard ?_ hdone
    (fun j call hj => RevokeCall.ready_of_done (hrevokes call (List.mem_of_getElem? hj)))
    (fun j call hj => IssueCall.ready_of_done (hissues call (List.mem_of_getElem? hj)))
  · obtain ⟨hmem, hrow⟩ := unrevoked_revokeRows hrow hopen
    exact hmem (List.mem_singleton.mpr (hready.only row hrow hopen hfamily))
  · exact h.alone.mono (fun j call hj hopen => absurd (hdone j call hj) hopen)
      (fun j call hj hopen => ⟨call, hj, hopen⟩)
      (fun j call hj _ => hj)

theorem committed (h : s.Sequenced) {k : ℕ} {request : Revocation} {families : List Uuid} {jtis : List String}
    (hk : s.revokes[k]? = some (.selected request families jtis)) :
    AuthState.Sequenced { s.setRevoke k (.committed request families jtis) with
      tokens := revokeRows s.tokens jtis s.now request.reason } := by
  have hrefreshes : ∀ (j : ℕ) (call : RefreshCall), s.refreshes[j]? = some call → call.Done := by
    intro j call hj
    by_contra hopen
    exact (h.alone.refresh j call hj hopen).2.1 _ (List.mem_of_getElem? hk)
  have hset : ∀ (j : ℕ) (call : RevokeCall), (s.revokes.set k (.committed request families jtis))[j]? = some call →
      (j = k ∧ call = .committed request families jtis) ∨ call.Done := by
    intro j call hj
    rcases getElem?_set_cases hj with hset | ⟨hne, hj⟩
    · exact .inl hset
    · refine .inr ?_
      by_contra hopen
      exact hne (h.alone.revoke j k _ _ hj hk hopen id)
  refine of_done (h.single.revokeRows _ _ _)
    (fun user => (Finset.card_le_card (liveSessions_revokeRows_subset _ _ _)).trans (h.capped user)) ?_ hrefreshes
    (fun j call hj => ?_) (fun j call hj => ?_)
  · refine h.alone.mono (fun j call hj hopen => ⟨call, hj, hopen⟩) (fun j call hj hopen => ?_) (fun j call hj _ => hj)
    rcases hset j call hj with ⟨rfl, -⟩ | hdone
    · exact ⟨_, hk, id⟩
    · exact absurd hdone hopen
  · rcases hset j call hj with ⟨-, rfl⟩ | hdone
    · trivial
    · exact RevokeCall.ready_of_done hdone
  · cases call with
    | capping cap user profile =>
      intro other hother
      have hcap : k = cap := (h.alone.issue j cap user profile hj).2 k _ hk id
      subst hcap
      have hrequest : request = .cap user := h.makesRoom hj hk
      subst hrequest
      obtain ⟨asked, hasked, hevicts⟩ := h.revokeReady k _ hk
      rcases getElem?_set_cases hother with ⟨-, rfl⟩ | ⟨hne, -⟩
      · exact card_liveSessions_elapse hasked (hevicts s.now).room
      · exact absurd rfl hne
    | issued family => trivial
    | failed => trivial

theorem issued (h : s.Sequenced) {k cap : ℕ} {user family : Uuid} {profile : Profile} {draw : Draw}
    {request : Revocation} {families : List Uuid} (hk : s.issues[k]? = some (.capping cap user profile))
    (hcap : s.revokes[cap]? = some (.returned request families)) (hfresh : s.Fresh draw)
    (hfamily : s.NewFamily family) :
    AuthState.Sequenced { s with
      tokens := s.tokens.insert (s.newRow sha256 draw user family none)
      access := s.access ++ [s.newAccess accessTtl draw user family profile]
      issues := s.issues.set k (.issued family) } := by
  obtain ⟨hone, hrevoke⟩ := h.alone.issue k cap user profile hk
  have hroom : (liveSessions s.tokens s.now user).card < maxSessionsPerUser := h.makesRoom hk hcap
  have hrefreshes : ∀ (j : ℕ) (call : RefreshCall), s.refreshes[j]? = some call → call.Done := by
    intro j call hj
    by_contra hopen
    exact (h.alone.refresh j call hj hopen).2.2 _ (List.mem_of_getElem? hk)
  have hrevokes : ∀ (j : ℕ) (call : RevokeCall), s.revokes[j]? = some call → call.Done := by
    intro j call hj
    by_contra hopen
    rw [hrevoke j call hj hopen, hcap] at hj
    cases hj
    exact hopen trivial
  have hdone : ∀ (j : ℕ) (call : IssueCall), (s.issues.set k (.issued family))[j]? = some call → call.Done := by
    intro j call hj
    rcases getElem?_set_cases hj with ⟨-, rfl⟩ | ⟨hne, hj⟩
    · trivial
    · by_contra hopen
      exact hne (hone j call hj hopen)
  have hcard : ∀ other, (liveSessions (s.tokens.insert (s.newRow sha256 draw user family none)) s.now other).card ≤
      maxSessionsPerUser := by
    intro other
    have hinsert := @liveSessions_insert_subset _ s.now other (s.newRow sha256 draw user family none) hfresh.row
    split_ifs at hinsert with huser
    · have heq : user = other := huser
      subst heq
      exact (Finset.card_le_card hinsert).trans ((Finset.card_insert_le _ _).trans hroom)
    · exact (Finset.card_le_card hinsert).trans (h.capped other)
  refine of_done (h.single.insert hfresh.row fun row hrow _ => hfamily row hrow) hcard ?_ hrefreshes
    (fun j call hj => RevokeCall.ready_of_done (hrevokes j call hj))
    (fun j call hj => IssueCall.ready_of_done (hdone j call hj))
  exact h.alone.mono (fun j call hj hopen => ⟨call, hj, hopen⟩) (fun j call hj hopen => ⟨call, hj, hopen⟩)
    (fun j call hj hopen => absurd (hdone j call hj) hopen)

theorem move {s' : AuthState} {l : AuthStep} (h : s.Sequenced) (hone : s.OneByOne l)
    (hmove : SessionMove sha256 accessTtl s l s') : s'.Sequenced := by
  cases hmove with
  | idle => exact h
  | ticked seconds =>
    have hlater : s.now ≤ (s.redis.elapse seconds).now := Nat.le_add_right _ _
    exact ⟨h.single, fun user => (Finset.card_le_card (liveSessions_elapse hlater)).trans (h.capped user),
      h.alone.mono (fun _ c hj hc => ⟨c, hj, hc⟩) (fun _ c hj hc => ⟨c, hj, hc⟩) (fun _ _ hj _ => hj),
      fun j c hj => (h.refreshReady j c hj).elapse hlater, fun j c hj => (h.revokeReady j c hj).elapse hlater,
      fun j c hj => (h.issueReady j c hj).elapse hlater⟩
  | signedIn user profile => exact h.signedIn (hone rfl) user profile
  | presented token => exact h.presented (hone rfl) token
  | requested request =>
    have hquiet := hone rfl
    exact h.revoking request hquiet.refreshes hquiet.revokes hquiet.issues
  | judged hk hrow hlive => exact h.judged hk hrow hlive
  | reloaded profile hk =>
    have hready := h.refreshReady _ _ hk
    exact h.setRefresh hready fun _ => ⟨_, hk, id⟩
  | rejected k => exact h.setRefresh trivial fun hopen => absurd trivial hopen
  | reused row hk => exact h.reused hk row.familyId
  | rotated hk hfresh => exact h.rotated hk hfresh
  | @selected k request families jtis hk hselect =>
    have hroom : ∀ (j : ℕ) (user : Uuid) (profile : Profile), s.issues[j]? = some (.capping k user profile) →
        request = .cap user := fun j user profile hj => h.makesRoom hj hk
    refine h.setRevoke ?_ (fun _ => ⟨_, hk, id⟩) hroom
    cases request with
    | cap user => exact ⟨s.now, Nat.le_refl _, fun at' => evictsOldest_cap h.single hselect at' _⟩
    | _ => trivial
  | unneeded hk hselect =>
    refine h.setRevoke trivial (fun hopen => absurd trivial hopen) fun j user profile hj => ?_
    have hrequest := h.makesRoom hj hk
    rw [hrequest] at hselect
    exact (select_cap_nothing_iff h.single).mp hselect
  | failed k => exact h.setRevoke trivial (fun hopen => absurd trivial hopen) fun _ _ _ _ => trivial
  | committed hk => exact h.committed hk
  | @blacklisted k request families jtis redis hk hnow =>
    have hroom : ∀ (j : ℕ) (user : Uuid) (profile : Profile), s.issues[j]? = some (.capping k user profile) →
        (liveSessions s.tokens s.now user).card < maxSessionsPerUser := fun j user profile hj => h.makesRoom hj hk
    have hset : (s.setRevoke k (.returned request families)).Sequenced :=
      h.setRevoke trivial (fun hopen => absurd trivial hopen) hroom
    have hclock : AuthState.now { s.setRevoke k (.returned request families) with redis := redis } = s.now := hnow
    refine ⟨hset.single, ?_, ⟨hset.alone.refresh, hset.alone.revoke, hset.alone.issue⟩, ?_, ?_, ?_⟩
    · rw [hclock]
      exact hset.capped
    · rw [hclock]
      exact hset.refreshReady
    · rw [hclock]
      exact hset.revokeReady
    · rw [hclock]
      exact hset.issueReady
  | issued hk hcap hfresh hfamily => exact h.issued hk hcap hfresh hfamily
  | abandoned k =>
    refine ⟨h.single, h.capped, h.alone.mono (fun _ c hj hc => ⟨c, hj, hc⟩) (fun _ c hj hc => ⟨c, hj, hc⟩)
      (fun j c hj hopen => ?_), h.refreshReady, h.revokeReady, fun j c hj => ?_⟩
    · rcases getElem?_set_cases hj with ⟨-, rfl⟩ | ⟨-, hj⟩
      · exact absurd trivial hopen
      · exact hj
    · rcases getElem?_set_cases hj with ⟨-, rfl⟩ | ⟨-, hj⟩
      · trivial
      · exact h.issueReady j c hj

end AuthState.Sequenced

theorem sequenced_start : AuthState.start.Sequenced where
  single a ha := by cases ha
  capped user := Nat.zero_le _
  alone := {
    refresh := fun k call hk => by cases hk
    revoke := fun j k a b ha => by cases ha
    issue := fun k cap user profile hk => by cases hk }
  refreshReady k call hk := by cases hk
  revokeReady k call hk := by cases hk
  issueReady k call hk := by cases hk

/-! ## The bound -/

/-- No user has more sessions than allowed, and the session cap of a login drops what it has to. -/
structure AuthState.SessionsCapped (sha256 : String → String) (accessTtl : ℕ) (s : AuthState) : Prop where
  bounded : ∀ user, (liveSessions s.tokens s.now user).card ≤ maxSessionsPerUser
  /-- Nothing is dropped where there is room. -/
  needed : ∀ user, (Revocation.cap user).select s.tokens s.now = .nothing ↔
    (liveSessions s.tokens s.now user).card < maxSessionsPerUser
  /-- What is dropped was judged by the rows that are written. -/
  evicts : ∀ (k : ℕ) (user : Uuid) (families : List Uuid) (jtis : List String),
    s.revokes[k]? = some (.selected (.cap user) families jtis) →
      ∃ asked ≤ s.now, EvictsOldest s.tokens (s.step sha256 accessTtl (.commit k)).tokens asked user

theorem AuthState.Sequenced.sessionsCapped {sha256 : String → String} {accessTtl : ℕ} {s : AuthState}
    (h : s.Sequenced) : s.SessionsCapped sha256 accessTtl where
  bounded := h.capped
  needed _ := select_cap_nothing_iff h.single
  evicts k user families jtis hk := by
    obtain ⟨asked, hasked, hevicts⟩ := h.revokeReady k _ hk
    refine ⟨asked, hasked, ?_⟩
    have hcommit : (s.step sha256 accessTtl (.commit k)).tokens = revokeRows s.tokens jtis s.now "session_cap" := by
      dsimp only [AuthState.step]
      rw [hk]
      rfl
    rw [hcommit]
    exact hevicts s.now

/-- **The session cap** holds in every run of calls that are made one after the other. -/
theorem session_cap (sha256 : String → String) (accessTtl : ℕ) (steps : List AuthStep)
    (h : Meets (AuthState.step sha256 accessTtl) AuthState.OneByOne .start steps) :
    Always (AuthState.step sha256 accessTtl) (AuthState.SessionsCapped sha256 accessTtl) .start steps :=
  always_of_inv AuthState.Sequenced (fun _ hs => hs.sessionsCapped)
    (fun s l hs hone => hs.move hone (sessionMove_step sha256 accessTtl s l)) steps .start sequenced_start h

/-- The login of a number, with all that its session cap may have to do. -/
def loginOf (k : ℕ) : List AuthStep :=
  let mark := String.singleton (Char.ofNat (97 + k))
  [.signIn (sampleUuid 'u') ⟨"acme", ["member"]⟩, .select k, .commit k, .blacklist k, .tick 60,
    .issue k (sampleUuid (Char.ofNat (97 + k))) ⟨"token-" ++ mark, "secret", "access-" ++ mark⟩]

/-- The eleventh login drops the first one. -/
theorem session_cap_eleven :
    (after (AuthState.step id accessTtlSeconds) .start ((List.range 11).flatMap loginOf)).tokens.rows.map
        (fun row => row.revokedReason) = some "session_cap" :: List.replicate 10 none ∧
      Always (AuthState.step id accessTtlSeconds) (AuthState.SessionsCapped id accessTtlSeconds) .start
        ((List.range 11).flatMap loginOf) :=
  ⟨by decide +kernel, session_cap id accessTtlSeconds _ (by decide +kernel)⟩

end RevenueOS.Auth
