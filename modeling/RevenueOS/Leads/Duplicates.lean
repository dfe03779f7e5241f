import RevenueOS.Leads.Forms

/-!
# RevenueOS.Leads.Duplicates — duplicate detection

`find_duplicates` and `duplicate_resolution` of `domain/leads/lifecycle.py`.  A field of a record is missing, `None`
or a text: the callers pass the columns of a lead, and a lead without a last name has `None` there.  Where the email,
the phone and the company are read with `or ""`, the name is put into an f-string, and `None` becomes the text `None`.
`str.lower` is a parameter, as in `Leads.Importing`.

* `matchReason_comm`: the reason is the same in both directions.
* `detection_iff`: when a match by name is one of the names that the records have.
-/

namespace RevenueOS.Leads

open RevenueOS.Py

/-! ## Records -/

/-- A field of a record. -/
inductive RecordField where
  | missing
  | null
  | text (s : String)
deriving DecidableEq

/-- `record.get(key) or ""`. -/
def RecordField.orEmpty : RecordField → String
  | .text s => s
  | _ => ""

/-- `f"{record.get(key, '')}"`. -/
def RecordField.formatted : RecordField → String
  | .missing => ""
  | .null => "None"
  | .text s => s

structure LeadRecord where
  id : String
  email : RecordField
  phone : RecordField
  firstName : RecordField
  lastName : RecordField
  company : RecordField
  source : RecordField

/-- `try_normalize_phone`. -/
def tryNormalizePhone (phone : String) : Option String := if phone = "" then none else normalizePhone phone

namespace LeadRecord

def emailKey (lower : String → String) (r : LeadRecord) : String := lower (strip r.email.orEmpty)

def phoneKey (r : LeadRecord) : Option String := tryNormalizePhone r.phone.orEmpty

variable (nfkd : String → String)

/-- The key of the name, with `None` for a part that is `None`. -/
def nameKey (r : LeadRecord) : String := normalizeNameKey nfkd (r.firstName.formatted ++ " " ++ r.lastName.formatted)

def companyKey (r : LeadRecord) : String := normalizeNameKey nfkd r.company.orEmpty

/-- The key of the name that the record has: a part that is missing or `None` is empty. -/
def ownNameKey (r : LeadRecord) : String := normalizeNameKey nfkd (r.firstName.orEmpty ++ " " ++ r.lastName.orEmpty)

end LeadRecord

/-! ## Matches -/

inductive MatchReason where
  | emailExact | phoneExact | nameAndCompany | nameAndSourceWindow
deriving DecidableEq, Repr

namespace MatchReason

/-- `MATCH_WEIGHTS`. -/
def weight : MatchReason → ℚ
  | emailExact => 1
  | phoneExact => 95 / 100
  | nameAndCompany => 72 / 100
  | nameAndSourceWindow => 55 / 100

/-- The reasons that rest on the name. -/
def isNamed : MatchReason → Bool
  | nameAndCompany | nameAndSourceWindow => true
  | _ => false

end MatchReason

structure DuplicateCandidate where
  leadId : String
  matchReason : MatchReason
  confidence : ℚ

section Detection

variable (lower nfkd : String → String)

/-- One email for both. -/
def SameEmail (a b : LeadRecord) : Prop :=
  a.emailKey lower ≠ "" ∧ b.emailKey lower ≠ "" ∧ a.emailKey lower = b.emailKey lower

def SamePhone (a b : LeadRecord) : Prop := a.phoneKey ≠ none ∧ b.phoneKey ≠ none ∧ a.phoneKey = b.phoneKey

def SameCompany (a b : LeadRecord) : Prop := a.companyKey nfkd ≠ "" ∧ a.companyKey nfkd = b.companyKey nfkd

def SameSource (a b : LeadRecord) : Prop := a.source.orEmpty ≠ "" ∧ a.source.orEmpty = b.source.orEmpty

def SameName (a b : LeadRecord) : Prop := a.nameKey nfkd ≠ "" ∧ a.nameKey nfkd = b.nameKey nfkd

instance (a b : LeadRecord) : Decidable (SameEmail lower a b) := inferInstanceAs (Decidable (_ ∧ _ ∧ _))
instance (a b : LeadRecord) : Decidable (SamePhone a b) := inferInstanceAs (Decidable (_ ∧ _ ∧ _))
instance (a b : LeadRecord) : Decidable (SameCompany nfkd a b) := inferInstanceAs (Decidable (_ ∧ _))
instance (a b : LeadRecord) : Decidable (SameSource a b) := inferInstanceAs (Decidable (_ ∧ _))
instance (a b : LeadRecord) : Decidable (SameName nfkd a b) := inferInstanceAs (Decidable (_ ∧ _))

/-- The body of the loop of `find_duplicates`. -/
def matchReason (candidate row : LeadRecord) : Option MatchReason :=
  if SameEmail lower candidate row then some .emailExact
  else if SamePhone candidate row then some .phoneExact
  else if SameName nfkd candidate row ∧ SameCompany nfkd candidate row then some .nameAndCompany
  else if SameName nfkd candidate row ∧ SameSource candidate row then some .nameAndSourceWindow
  else none

/-- The match with a record. -/
def candidateOf (candidate row : LeadRecord) : Option DuplicateCandidate :=
  (matchReason lower nfkd candidate row).map fun reason => ⟨row.id, reason, reason.weight⟩

/-- `find_duplicates`: the most confident match first. -/
def findDuplicates (candidate : LeadRecord) (existing : List LeadRecord) : List DuplicateCandidate :=
  (existing.filterMap (candidateOf lower nfkd candidate)).mergeSort fun c d => d.confidence ≤ c.confidence

end Detection

/-- `duplicate_resolution`. -/
def duplicateResolution : List DuplicateCandidate → String
  | [] => "create"
  | best :: _ =>
    if 95 / 100 ≤ best.confidence then "merge"
    else if 50 / 100 ≤ best.confidence then "review"
    else "create"

/-! ## Symmetry -/

section Facts

variable {lower nfkd : String → String} {a b : LeadRecord}

theorem sameEmail_comm : SameEmail lower a b ↔ SameEmail lower b a :=
  ⟨fun h => ⟨h.2.1, h.1, h.2.2.symm⟩, fun h => ⟨h.2.1, h.1, h.2.2.symm⟩⟩

theorem samePhone_comm : SamePhone a b ↔ SamePhone b a :=
  ⟨fun h => ⟨h.2.1, h.1, h.2.2.symm⟩, fun h => ⟨h.2.1, h.1, h.2.2.symm⟩⟩

theorem sameName_comm : SameName nfkd a b ↔ SameName nfkd b a :=
  ⟨fun h => ⟨h.2 ▸ h.1, h.2.symm⟩, fun h => ⟨h.2 ▸ h.1, h.2.symm⟩⟩

theorem sameCompany_comm : SameCompany nfkd a b ↔ SameCompany nfkd b a :=
  ⟨fun h => ⟨h.2 ▸ h.1, h.2.symm⟩, fun h => ⟨h.2 ▸ h.1, h.2.symm⟩⟩

theorem sameSource_comm : SameSource a b ↔ SameSource b a :=
  ⟨fun h => ⟨h.2 ▸ h.1, h.2.symm⟩, fun h => ⟨h.2 ▸ h.1, h.2.symm⟩⟩

/-- The reason does not depend on which record is the candidate. -/
theorem matchReason_comm (a b : LeadRecord) : matchReason lower nfkd a b = matchReason lower nfkd b a := by
  unfold matchReason
  simp only [@sameEmail_comm lower a b, @samePhone_comm a b, @sameName_comm nfkd a b, @sameCompany_comm nfkd a b,
    @sameSource_comm a b]

variable (lower nfkd)

/-- `find_duplicates` of `a` against `[b]` reports the reason. -/
def Reports (a b : LeadRecord) (reason : MatchReason) : Prop :=
  ∃ c ∈ findDuplicates lower nfkd a [b], c.matchReason = reason

variable {lower nfkd}

theorem reports_iff {reason : MatchReason} :
    Reports lower nfkd a b reason ↔ matchReason lower nfkd a b = some reason := by
  unfold Reports findDuplicates
  simp only [List.mem_mergeSort, List.mem_filterMap, List.mem_singleton]
  constructor
  · rintro ⟨c, ⟨row, rfl, hc⟩, rfl⟩
    obtain ⟨reason, hreason, rfl⟩ := Option.map_eq_some_iff.mp hc
    exact hreason
  · intro h
    exact ⟨⟨b.id, reason, reason.weight⟩, ⟨b, rfl, by rw [candidateOf, h, Option.map_some]⟩, rfl⟩

/-- The records are compared by their names: neither email nor phone decides, and the company or the source is one. -/
def ComparedByName (lower nfkd : String → String) (a b : LeadRecord) : Prop :=
  ¬SameEmail lower a b ∧ ¬SamePhone a b ∧ (SameCompany nfkd a b ∨ SameSource a b)

theorem named_iff : (∃ reason, reason.isNamed = true ∧ matchReason lower nfkd a b = some reason) ↔
    ComparedByName lower nfkd a b ∧ SameName nfkd a b := by
  unfold matchReason ComparedByName
  by_cases hemail : SameEmail lower a b
  · simp [hemail, MatchReason.isNamed]
  by_cases hphone : SamePhone a b
  · simp [hemail, hphone, MatchReason.isNamed]
  by_cases hname : SameName nfkd a b
  · by_cases hcompany : SameCompany nfkd a b
    · simp [hemail, hphone, hname, hcompany, MatchReason.isNamed]
    · by_cases hsource : SameSource a b
      · simp [hemail, hphone, hname, hcompany, hsource, MatchReason.isNamed]
      · simp [hemail, hphone, hname, hcompany, hsource]
  · simp [hemail, hphone, hname]

/-! ## The order of the records -/

theorem pairwise_findDuplicates (candidate : LeadRecord) (existing : List LeadRecord) :
    (findDuplicates lower nfkd candidate existing).Pairwise fun c d => d.confidence ≤ c.confidence := by
  have hsorted := @List.pairwise_mergeSort _ (fun c d : DuplicateCandidate => d.confidence ≤ c.confidence)
    (fun a b c hab hbc => by simpa using le_trans (by simpa using hbc) (by simpa using hab))
    (fun a b => by simpa using le_total b.confidence a.confidence)
    (existing.filterMap (candidateOf lower nfkd candidate))
  simpa [findDuplicates] using hsorted

/-- The confidences, the highest first, do not depend on the order of the records. -/
theorem confidences_perm (candidate : LeadRecord) {existing existing' : List LeadRecord}
    (h : existing.Perm existing') :
    (findDuplicates lower nfkd candidate existing).map DuplicateCandidate.confidence =
      (findDuplicates lower nfkd candidate existing').map DuplicateCandidate.confidence := by
  have hsorted : ∀ rows : List LeadRecord,
      ((findDuplicates lower nfkd candidate rows).map DuplicateCandidate.confidence).Pairwise fun p q => q ≤ p :=
    fun rows => List.pairwise_map.mpr (pairwise_findDuplicates candidate rows)
  have hperm : (findDuplicates lower nfkd candidate existing).Perm (findDuplicates lower nfkd candidate existing') :=
    (List.mergeSort_perm _ _).trans ((h.filterMap _).trans (List.mergeSort_perm _ _).symm)
  exact List.Perm.eq_of_pairwise (fun p q _ _ hpq hqp => le_antisymm hqp hpq) (hsorted existing) (hsorted existing')
    (hperm.map DuplicateCandidate.confidence)

theorem duplicateResolution_congr : ∀ {l l' : List DuplicateCandidate},
    l.map DuplicateCandidate.confidence = l'.map DuplicateCandidate.confidence →
      duplicateResolution l = duplicateResolution l'
  | [], [], _ => rfl
  | c :: l, c' :: l', h => by
    have hbest : c.confidence = c'.confidence := (List.cons.inj h).1
    simp only [duplicateResolution, hbest]

/-- What detection is to be: symmetric, by name only where the records have that name, and with a resolution that
does not depend on the order of the records. -/
structure DetectsFromData (lower nfkd : String → String) (a b : LeadRecord) : Prop where
  symmetric : ∀ reason, Reports lower nfkd a b reason ↔ Reports lower nfkd b a reason
  named : ∀ reason, reason.isNamed = true → Reports lower nfkd a b reason →
    a.ownNameKey nfkd ≠ "" ∧ a.ownNameKey nfkd = b.ownNameKey nfkd
  unordered : ∀ existing existing' : List LeadRecord, existing.Perm existing' →
    duplicateResolution (findDuplicates lower nfkd a existing) = duplicateResolution (findDuplicates lower nfkd a existing')

/-- **Detection rests on data exactly if**, where two records are compared by their names and have one key with `None`
written for what is missing, they have one key, not empty, without it. -/
theorem detection_iff (lower nfkd : String → String) (a b : LeadRecord) : DetectsFromData lower nfkd a b ↔
    (ComparedByName lower nfkd a b → SameName nfkd a b →
      a.ownNameKey nfkd ≠ "" ∧ a.ownNameKey nfkd = b.ownNameKey nfkd) := by
  constructor
  · intro h hcompared hname
    obtain ⟨reason, hnamed, hreason⟩ := named_iff.mpr ⟨hcompared, hname⟩
    exact h.named reason hnamed (reports_iff.mpr hreason)
  · intro h
    refine ⟨fun reason => ?_, fun reason hnamed hreports => ?_, fun existing existing' hperm => ?_⟩
    · rw [reports_iff, reports_iff, matchReason_comm]
    · obtain ⟨hcompared, hname⟩ := named_iff.mp ⟨reason, hnamed, reports_iff.mp hreports⟩
      exact h hcompared hname
    · exact duplicateResolution_congr (confidences_perm a hperm)

/-- Where no part of a name is `None`, the key is that of the name. -/
theorem nameKey_eq_own {r : LeadRecord} (hfirst : r.firstName ≠ .null) (hlast : r.lastName ≠ .null) :
    r.nameKey nfkd = r.ownNameKey nfkd := by
  have hpart : ∀ f : RecordField, f ≠ .null → f.formatted = f.orEmpty := by
    intro f hf
    cases f with
    | null => exact absurd rfl hf
    | _ => rfl
  rw [LeadRecord.nameKey, LeadRecord.ownNameKey, hpart _ hfirst, hpart _ hlast]

end Facts

/-! ## Two leads with nothing in common -/

/-- A lead from the web with a first name in Devanagari. -/
def devanagariLead (id name : String) : LeadRecord :=
  ⟨id, .null, .null, .text name, .null, .missing, .text "web"⟩

/-- Their names leave nothing of the alphabet, and the missing last names make them one. -/
theorem devanagari_matched :
    Reports Py.lower id (devanagariLead "1" "रवि") (devanagariLead "2" "सीता") .nameAndSourceWindow ∧
    (devanagariLead "1" "रवि").ownNameKey id = "" ∧
    ¬DetectsFromData Py.lower id (devanagariLead "1" "रवि") (devanagariLead "2" "सीता") := by
  have hreports : Reports Py.lower id (devanagariLead "1" "रवि") (devanagariLead "2" "सीता") .nameAndSourceWindow :=
    reports_iff.mpr (by decide +kernel)
  have hempty : (devanagariLead "1" "रवि").ownNameKey id = "" := by decide +kernel
  exact ⟨hreports, hempty, fun h => (h.named _ rfl hreports).1 hempty⟩

end RevenueOS.Leads
