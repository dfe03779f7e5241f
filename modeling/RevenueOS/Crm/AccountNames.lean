import RevenueOS.Crm.Handlers
import RevenueOS.Lib.Trace

/-!
# RevenueOS.Crm.AccountNames — renames of accounts and companies of contacts

Runs of edits and of deliveries to the handlers of `application/crm/handlers.py`.  An edit saves a row as it is to be:
new, renamed, linked, deleted, or with nothing changed that is modelled.  A world keeps, beside the tables, every name
that an account was saved with; no handler reads them.

* `renames_respect_iff`: when `propagate_account_rename` changes only companies that are names of the account.
* `noneOfItsOwn_of_saves`: it does so while no linked contact is saved with a company of its own.
-/

namespace RevenueOS.Crm

open RevenueOS.Py RevenueOS.Lib RevenueOS.Workflows RevenueOS.Messaging

/-! ## Runs -/

structure World where
  db : Database
  /-- The names that an account of a tenant has had. -/
  names : Uuid → Uuid → List String

inductive CrmStep where
  | saveAccount (tenantId : Uuid) (account : Account)
  | saveContact (tenantId : Uuid) (contact : Contact)
  /-- The relay hands over an event in the form the handlers read, for the first time or again. -/
  | deliver (event : DomainEvent) (follows : event.eventType ∈ crmEventTypes)

/-- The contact is one that `propagate_account_rename` selects. -/
def LinkedTo (contact : Contact) (accountId : Uuid) : Prop :=
  contact.accountId = some accountId ∧ contact.deleted = false

def saveAccount (account : Account) (t : Tables) : Tables := { t with accounts := t.accounts.upsert account }

def saveContact (contact : Contact) (t : Tables) : Tables := { t with contacts := t.contacts.upsert contact }

namespace World

/-- The names, with one more for an account. -/
def named (w : World) (tenantId accountId : Uuid) (name : String) : Uuid → Uuid → List String :=
  fun t a => if t = tenantId ∧ a = accountId then name :: w.names t a else w.names t a

/-- An exception leaves the tables as they were. -/
def step (w : World) : CrmStep → World
  | .saveAccount tenantId account =>
    ⟨w.db.update tenantId (saveAccount account), w.named tenantId account.id account.name⟩
  | .saveContact tenantId contact => { w with db := w.db.update tenantId (saveContact contact) }
  | .deliver e _ => { w with db := (dispatchCrm e.eventType (asRead e) w.db).toOption.getD w.db }

/-- The company of the contact is one of the names of its account. -/
def HasInherited (w : World) (tenantId : Uuid) (contact : Contact) : Prop :=
  ∃ accountId, contact.accountId = some accountId ∧ ∃ name ∈ w.names tenantId accountId, contact.company = some name

/-- A delivery of `account.updated` changes only companies that were inherited. -/
def Respects (w : World) : CrmStep → Prop
  | .deliver e follows => e.eventType = "account.updated" → ∀ tenantId,
      ∀ contact ∈ (w.db.tables tenantId).contacts.rows,
        ∀ contact' ∈ ((w.step (.deliver e follows)).db.tables tenantId).contacts.rows,
          contact'.id = contact.id → contact'.company ≠ contact.company → w.HasInherited tenantId contact
  | _ => True

/-- Where `account.updated` is delivered, no contact linked to the account has a company of its own, or none. -/
def NoneOfItsOwn (w : World) : CrmStep → Prop
  | .deliver e _ => e.eventType = "account.updated" →
      ∀ name, (w.db.tables e.tenantId).accountName e.resourceId = some name →
        ∀ contact ∈ (w.db.tables e.tenantId).contacts.rows, LinkedTo contact e.resourceId →
          contact.company = some name ∨ ∃ former ∈ w.names e.tenantId e.resourceId, contact.company = some former
  | _ => True

end World

/-! ## One delivery -/

theorem Database.tables_update (db : Database) (tenantId : Uuid) (f : Tables → Tables) (t : Uuid) :
    (db.update tenantId f).tables t = if t = tenantId then f (db.tables tenantId) else db.tables t := by
  show Function.update db.tables tenantId (f (db.tables tenantId)) t = _
  by_cases ht : t = tenantId
  · rw [if_pos ht, ht, Function.update_self]
  · rw [if_neg ht, Function.update_of_ne ht]

namespace World

theorem step_deliver (w : World) {e : DomainEvent} (follows : e.eventType ∈ crmEventTypes) :
    (w.step (.deliver e follows)).db =
      (w.db.commit e.tenantId (act e (w.db.tables e.tenantId))).toOption.getD w.db := by
  show (dispatchCrm e.eventType (asRead e) w.db).toOption.getD w.db = _
  rw [dispatchCrm_asRead follows]

theorem step_updated (w : World) {e : DomainEvent} (follows : e.eventType ∈ crmEventTypes)
    (h : e.eventType = "account.updated") :
    (w.step (.deliver e follows)).db = w.db.update e.tenantId (renameContacts e.resourceId) := by
  rw [step_deliver, act, if_pos h]
  rfl

/-- What the handler changes on a contact. -/
theorem renameCompany_company_ne {accountId : Uuid} {name : String} {contact : Contact} :
    (renameCompany accountId name contact).company ≠ contact.company ↔
      LinkedTo contact accountId ∧ contact.company ≠ some name := by
  unfold renameCompany LinkedTo
  split_ifs with h
  · exact iff_of_true (Ne.symm h.2.2) ⟨⟨h.1, h.2.1⟩, h.2.2⟩
  · exact iff_of_false (fun hne => hne rfl) (fun hlinked => h ⟨hlinked.1.1, hlinked.1.2, hlinked.2⟩)

/-- One delivery respects the companies that are no names of the account exactly if there are none. -/
theorem respects_iff (w : World) (l : CrmStep) : w.Respects l ↔ w.NoneOfItsOwn l := by
  cases l with
  | saveAccount => exact Iff.rfl
  | saveContact => exact Iff.rfl
  | deliver e follows =>
    unfold Respects NoneOfItsOwn
    refine forall_congr' fun htype => ?_
    rw [step_updated w follows htype]
    constructor
    · intro h name hname contact hcontact hlinked
      by_cases hcompany : contact.company = some name
      · exact .inl hcompany
      · have hrows : renameCompany e.resourceId name contact ∈
            ((w.db.update e.tenantId (renameContacts e.resourceId)).tables e.tenantId).contacts.rows := by
          rw [Database.tables_update, if_pos rfl]
          unfold renameContacts
          rw [hname]
          exact List.mem_map_of_mem hcontact
        obtain ⟨accountId, haccount, hinherited⟩ := h e.tenantId contact hcontact _ hrows (renameCompany_id _ _ _)
          (renameCompany_company_ne.mpr ⟨hlinked, hcompany⟩)
        obtain rfl := Option.some.inj (hlinked.1.symm.trans haccount)
        exact .inr hinherited
    · intro h tenantId contact hcontact contact' hcontact' hid hchanged
      rw [Database.tables_update] at hcontact'
      split_ifs at hcontact' with htenant
      · subst htenant
        unfold renameContacts at hcontact'
        cases hname : (w.db.tables e.tenantId).accountName e.resourceId with
        | none =>
          rw [hname] at hcontact'
          rw [Table.eq_of_key hcontact' hcontact hid] at hchanged
          exact absurd rfl hchanged
        | some name =>
          rw [hname] at hcontact'
          obtain ⟨original, horiginal, rfl⟩ := List.mem_map.mp hcontact'
          rw [renameCompany_id] at hid
          obtain rfl := Table.eq_of_key horiginal hcontact hid
          obtain ⟨hlinked, hcompany⟩ := renameCompany_company_ne.mp hchanged
          rcases h name hname original hcontact hlinked with hsame | hinherited
          · exact absurd hsame hcompany
          · exact ⟨e.resourceId, hlinked.1, hinherited⟩
      · rw [Table.eq_of_key hcontact' hcontact hid] at hchanged
        exact absurd rfl hchanged

/-- **When renames respect the companies of contacts**, over every run. -/
theorem renames_respect_iff (w : World) (ls : List CrmStep) :
    Meets step Respects w ls ↔ Meets step NoneOfItsOwn w ls :=
  @meets_congr_of_inv _ _ step (fun _ => True) _ _ (fun _ _ _ => trivial) (fun w l _ => respects_iff w l) ls w trivial

/-! ## Edits that give no contact a company of its own -/

/-- The accounts and the contacts linked to them, against the names so far. -/
structure Inherited (w : World) : Prop where
  accounts : ∀ tenantId, ∀ account ∈ (w.db.tables tenantId).accounts.rows, account.name ∈ w.names tenantId account.id
  contacts : ∀ tenantId, ∀ contact ∈ (w.db.tables tenantId).contacts.rows, ∀ accountId, LinkedTo contact accountId →
    ∃ name ∈ w.names tenantId accountId, contact.company = some name

/-- A contact saved with a link has the company of one of the account's names. -/
def SavesInherited (w : World) : CrmStep → Prop
  | .saveContact tenantId contact => ∀ accountId, LinkedTo contact accountId →
      ∃ name ∈ w.names tenantId accountId, contact.company = some name
  | _ => True

theorem mem_named_of_mem {w : World} {tenantId accountId : Uuid} {name former : String} {t a : Uuid}
    (h : former ∈ w.names t a) : former ∈ w.named tenantId accountId name t a := by
  unfold named
  split_ifs
  · exact List.mem_cons_of_mem _ h
  · exact h

end World

/-- What a handler does to contacts: it writes the current name of an account, or leaves link and company alone. -/
structure KeepsCompanies (t t' : Tables) : Prop where
  accounts : t'.accounts = t.accounts
  contacts : ∀ contact' ∈ t'.contacts.rows,
    (∃ accountId name, contact'.accountId = some accountId ∧ t.accountName accountId = some name ∧
      contact'.company = some name) ∨
    ∃ contact ∈ t.contacts.rows, contact'.accountId = contact.accountId ∧ contact'.company = contact.company ∧
      contact'.deleted = contact.deleted

theorem KeepsCompanies.refl (t : Tables) : KeepsCompanies t t :=
  ⟨rfl, fun contact hcontact => .inr ⟨contact, hcontact, rfl, rfl, rfl⟩⟩

theorem keepsCompanies_stampCompany (contactId : Uuid) (t : Tables) : KeepsCompanies t (stampCompany contactId t) := by
  unfold stampCompany
  cases hcontact : t.contacts.find? contactId with
  | none => exact .refl t
  | some contact =>
    dsimp only
    cases haccount : contact.accountId with
    | none => exact .refl t
    | some accountId =>
      dsimp only
      split_ifs
      · exact .refl t
      · cases hname : t.accountName accountId with
        | none => exact .refl t
        | some name =>
          refine ⟨rfl, fun contact' hcontact' => ?_⟩
          rcases Table.mem_set hcontact' with rfl | ⟨hmem, -⟩
          · exact .inl ⟨accountId, name, rfl, hname, rfl⟩
          · exact .inr ⟨contact', hmem, rfl, rfl, rfl⟩

theorem keepsCompanies_renameContacts (accountId : Uuid) (t : Tables) :
    KeepsCompanies t (renameContacts accountId t) := by
  unfold renameContacts
  cases hname : t.accountName accountId with
  | none => exact .refl t
  | some name =>
    refine ⟨rfl, fun contact' hcontact' => ?_⟩
    obtain ⟨contact, hcontact, rfl⟩ := List.mem_map.mp hcontact'
    unfold renameCompany
    split_ifs with h
    · exact .inl ⟨accountId, name, h.1, hname, rfl⟩
    · exact .inr ⟨contact, hcontact, rfl, rfl, rfl⟩

theorem keepsCompanies_stampContact {activityId : Uuid} {contactId : String} {t t' : Tables}
    (h : stampContact activityId contactId t = .ok t') : KeepsCompanies t t' := by
  unfold stampContact at h
  split at h
  · exact Except.ok.inj h ▸ .refl t
  · split at h
    · cases h
    · split at h
      · exact Except.ok.inj h ▸ .refl t
      · rename_i contact hcontact
        split_ifs at h
        · exact Except.ok.inj h ▸ .refl t
        · obtain rfl := Except.ok.inj h
          refine ⟨rfl, fun contact' hcontact' => ?_⟩
          rcases Table.mem_set hcontact' with rfl | ⟨hmem, -⟩
          · exact .inr ⟨contact, Table.mem_of_find? hcontact, rfl, rfl, rfl⟩
          · exact .inr ⟨contact', hmem, rfl, rfl, rfl⟩

theorem keepsCompanies_act {e : DomainEvent} {t t' : Tables} (h : act e t = .ok t') : KeepsCompanies t t' := by
  unfold act at h
  split_ifs at h
  · exact Except.ok.inj h ▸ keepsCompanies_renameContacts _ t
  · split at h
    · cases h
    · exact Except.ok.inj h ▸ .refl t
    · exact keepsCompanies_stampContact h
  · exact Except.ok.inj h ▸ keepsCompanies_stampCompany _ t

theorem exists_account {t : Tables} {accountId : Uuid} {name : String} (h : t.accountName accountId = some name) :
    ∃ account ∈ t.accounts.rows, account.id = accountId ∧ account.name = name := by
  unfold Tables.accountName at h
  split at h
  · rename_i account haccount
    split_ifs at h
    exact ⟨account, Table.mem_of_find? haccount, Table.key_of_find? haccount, Option.some.inj h⟩
  · cases h

namespace World

theorem Inherited.deliver {w : World} (hw : w.Inherited) {e : DomainEvent} (follows : e.eventType ∈ crmEventTypes) :
    (w.step (.deliver e follows)).Inherited := by
  have hkeeps : ∀ t, KeepsCompanies (w.db.tables t) ((w.step (.deliver e follows)).db.tables t) := by
    intro t
    rw [step_deliver]
    cases hact : act e (w.db.tables e.tenantId) with
    | error err => exact .refl _
    | ok tables =>
      show KeepsCompanies _ ((w.db.update e.tenantId fun _ => tables).tables t)
      rw [Database.tables_update]
      split_ifs with ht
      · exact ht ▸ keepsCompanies_act hact
      · exact .refl _
  refine ⟨fun t account haccount => ?_, fun t contact' hcontact' accountId hlinked => ?_⟩
  · rw [(hkeeps t).accounts] at haccount
    exact hw.accounts t account haccount
  · rcases (hkeeps t).contacts contact' hcontact' with ⟨own, name, hown, hname, hcompany⟩ |
      ⟨contact, hcontact, hid, hcompany, hdeleted⟩
    · obtain rfl := Option.some.inj (hown.symm.trans hlinked.1)
      obtain ⟨account, haccount, rfl, rfl⟩ := exists_account hname
      exact ⟨account.name, hw.accounts t account haccount, hcompany⟩
    · rw [hcompany]
      exact hw.contacts t contact hcontact accountId ⟨hid ▸ hlinked.1, hdeleted ▸ hlinked.2⟩

/-- A step that gives no linked contact a company of its own. -/
theorem Inherited.step {w : World} (hw : w.Inherited) {l : CrmStep} (hl : w.SavesInherited l) :
    (w.step l).Inherited := by
  cases l with
  | saveAccount tenantId account =>
    refine ⟨fun t saved hsaved => ?_, fun t contact hcontact accountId hlinked => ?_⟩
    · change saved ∈ ((w.db.update tenantId (saveAccount account)).tables t).accounts.rows at hsaved
      show saved.name ∈ w.named tenantId account.id account.name t saved.id
      rw [Database.tables_update] at hsaved
      split_ifs at hsaved with ht
      · subst ht
        rcases Table.mem_upsert hsaved with rfl | hmem
        · unfold named
          rw [if_pos ⟨rfl, rfl⟩]
          exact List.mem_cons_self
        · exact mem_named_of_mem (hw.accounts t saved hmem)
      · exact mem_named_of_mem (hw.accounts t saved hsaved)
    · change contact ∈ ((w.db.update tenantId (saveAccount account)).tables t).contacts.rows at hcontact
      have hmem : contact ∈ (w.db.tables t).contacts.rows := by
        rw [Database.tables_update] at hcontact
        split_ifs at hcontact with ht
        · exact ht ▸ hcontact
        · exact hcontact
      obtain ⟨name, hname, hcompany⟩ := hw.contacts t contact hmem accountId hlinked
      exact ⟨name, mem_named_of_mem hname, hcompany⟩
  | saveContact tenantId contact =>
    refine ⟨fun t account haccount => ?_, fun t saved hsaved accountId hlinked => ?_⟩
    · change account ∈ ((w.db.update tenantId (saveContact contact)).tables t).accounts.rows at haccount
      rw [Database.tables_update] at haccount
      split_ifs at haccount with ht
      · exact hw.accounts t account (ht ▸ haccount)
      · exact hw.accounts t account haccount
    · change saved ∈ ((w.db.update tenantId (saveContact contact)).tables t).contacts.rows at hsaved
      rw [Database.tables_update] at hsaved
      split_ifs at hsaved with ht
      · subst ht
        rcases Table.mem_upsert hsaved with rfl | hmem
        · exact hl accountId hlinked
        · exact hw.contacts t saved hmem accountId hlinked
      · exact hw.contacts t saved hsaved accountId hlinked
  | deliver e follows => exact hw.deliver follows

/-- While no edit gives a linked contact a company of its own, no delivery meets one. -/
theorem noneOfItsOwn_of_saves {w : World} (hw : w.Inherited) (ls : List CrmStep)
    (h : Meets World.step SavesInherited w ls) : Meets World.step NoneOfItsOwn w ls := by
  refine meets_of_meets Inherited (fun v l hv hl => ⟨?_, hv.step hl⟩) ls w hw h
  cases l with
  | saveAccount => trivial
  | saveContact => trivial
  | deliver e follows =>
    intro _ name _ contact hcontact hlinked
    exact .inr (hv.contacts e.tenantId contact hcontact e.resourceId hlinked)

end World

/-! ## A contact with a company of its own -/

def accountUpdated : DomainEvent := sampleEvent "account.updated" "account" (sampleUuid '2') []

/-- A world with nothing in it. -/
def emptyWorld : World := ⟨⟨fun _ => ⟨.empty, .empty, .empty⟩, []⟩, fun _ _ => []⟩

/-- An account, a contact of it who works elsewhere, and a change of the account that is not its name. -/
def contractorRun : List CrmStep :=
  [.saveAccount (sampleUuid '9') ⟨sampleUuid '2', "Acme", false⟩,
    .saveContact (sampleUuid '9') ⟨sampleUuid '1', some (sampleUuid '2'), some "Initech", none, false⟩,
    .deliver accountUpdated (by decide)]

theorem contractor_renamed : ¬Meets World.step World.Respects emptyWorld contractorRun ∧
    ((after World.step emptyWorld contractorRun).db.tables (sampleUuid '9')).contacts.rows.map Contact.company =
      [some "Acme"] := by
  refine ⟨fun h => ?_, by decide +kernel⟩
  have hdelivery := (World.respects_iff _ _).mp h.2.2.1 rfl "Acme" (by decide +kernel)
    ⟨sampleUuid '1', some (sampleUuid '2'), some "Initech", none, false⟩ (by decide +kernel) ⟨rfl, rfl⟩
  revert hdelivery
  decide +kernel

end RevenueOS.Crm
