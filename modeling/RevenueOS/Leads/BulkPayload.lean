import Mathlib.Data.List.Dedup
import RevenueOS.Leads.Operations
import RevenueOS.Py.JsonText

/-!
# RevenueOS.Leads.BulkPayload — the payload of a bulk update and its hash

The request `bulk_update` hashes (`application/leads/service.py`) and `hash_payload` (`application/idempotency.py`),
with SHA-256 given as a function that has no collisions.

* `requestHash_eq_iff`: two requests have one hash exactly if they name the same leads, in any order, and their
  changes have one canonical form.
-/

namespace RevenueOS.Leads

open RevenueOS.Py RevenueOS.Lib RevenueOS.Workflows

/-- `LeadBulkChanges.model_dump(exclude_unset=True)`: a field that is not set, `None`, or a value. -/
structure BulkPayload where
  status : Option (Option String) := none
  assigneeId : Option (Option Uuid) := none
  disqualifyReason : Option (Option String) := none

namespace BulkPayload

/-- What the loop of `bulk_update` reads of the changes. -/
def changes (p : BulkPayload) : BulkChanges := ⟨p.status.join, p.assigneeId, p.disqualifyReason.join⟩

/-- `sorted(set(changes) - {"disqualify_reason"})`. -/
def changedFields (p : BulkPayload) : List String :=
  (if p.assigneeId.isSome then ["assignee_id"] else []) ++ (if p.status.isSome then ["status"] else [])

/-- The entries of `_json_safe(changes)`. -/
def entries (p : BulkPayload) : List (String × Option String) :=
  (p.status.map fun v => ("status", v)).toList ++
    (p.assigneeId.map fun v => ("assignee_id", v.map Uuid.text)).toList ++
    (p.disqualifyReason.map fun v => ("disqualify_reason", v)).toList

/-- A text or `None`. -/
def value : Option String → Json
  | none => .null
  | some s => .str s

/-- `_json_safe(changes)`. -/
def json (p : BulkPayload) : Json := .obj (p.entries.map fun e => (e.1, value e.2))

end BulkPayload

/-- `sorted(set(lead_ids), key=str)`. -/
def normalizedIds (leadIds : List Uuid) : List Uuid := leadIds.dedup.insertionSort fun a b => a.text ≤ b.text

/-- `request_payload`. -/
def requestPayload (leadIds : List Uuid) (p : BulkPayload) : Json :=
  .obj [("lead_ids", .arr (((normalizedIds leadIds).map Uuid.text).map .str)), ("changes", p.json)]

/-- `hashlib.sha256(..).hexdigest()`, without collisions. -/
structure Sha256 where
  hexdigest : String → String
  injective : Function.Injective hexdigest

/-- `hash_payload`. -/
def hashPayload (nfc : Json.Nfc) (sha256 : Sha256) (payload : Json) : String :=
  sha256.hexdigest (Json.canonicalJson nfc payload)

/-! ## The canonical text -/

section Canonical

variable {nfc : Json.Nfc}

/-- The text of a value. -/
def valueText : Option String → String
  | none => "null"
  | some s => quote s

/-- The text of an entry. -/
def entryText (e : String × Option String) : String := quote e.1 ++ ":" ++ valueText e.2

theorem canonicalJson_value (v : Option String) :
    Json.canonicalJson nfc (BulkPayload.value v) = valueText (v.map nfc.normalize) := by
  cases v with
  | none => rw [BulkPayload.value, Json.canonicalJson, Json.norm, Json.dumps] <;> simp [valueText]
  | some s => exact Json.canonicalJson_str s

theorem prefixFree_valueText : PrefixFree fun v => (valueText v).toList := by
  refine .option ?_ ?_ prefixFree_quote
  · intro s r r' heq
    simp only [valueText, toList_quote] at heq
    exact absurd (List.cons.inj heq).1 (by decide)
  · intro r r' heq
    exact List.append_cancel_left heq

theorem prefixFree_entryText : PrefixFree fun e => (entryText e).toList := by
  have h := prefixFree_quote.pair (prefixFree_valueText.cons ':')
  intro e e' r r' heq
  simp only [entryText, String.toList_append, List.append_assoc] at heq
  exact h (by simpa using heq)

theorem avoids_entryText : Avoids (fun e => (entryText e).toList) '\x7d' := by
  intro e r s heq
  simp only [entryText, String.toList_append, toList_quote] at heq
  exact absurd (List.cons.inj heq).1 (by decide)

theorem avoids_quote : Avoids (fun s => (quote s).toList) ']' := by
  intro s r r' heq
  simp only [toList_quote] at heq
  exact absurd (List.cons.inj heq).1 (by decide)

/-- The keys of the changes are distinct, and ASCII. -/
theorem entries_keys (p : BulkPayload) :
    (p.entries.map Prod.fst).Nodup ∧ ∀ e ∈ p.entries, nfc.normalize e.1 = e.1 := by
  have hstatus := @Json.Nfc.normalize_of_all nfc "status" (by decide)
  have hassignee := @Json.Nfc.normalize_of_all nfc "assignee_id" (by decide)
  have hreason := @Json.Nfc.normalize_of_all nfc "disqualify_reason" (by decide)
  obtain ⟨status, assigneeId, disqualifyReason⟩ := p
  refine ⟨?_, fun e he => ?_⟩
  · cases status <;> cases assigneeId <;> cases disqualifyReason <;> simp [BulkPayload.entries]
  · simp only [BulkPayload.entries, List.mem_append, Option.mem_toList, Option.map_eq_some_iff] at he
    rcases he with (⟨v, -, rfl⟩ | ⟨v, -, rfl⟩) | ⟨v, -, rfl⟩
    · exact hstatus
    · exact hassignee
    · exact hreason

/-- The entries of the changes in the order of their keys, normalized. -/
def BulkPayload.normalized (nfc : Json.Nfc) (p : BulkPayload) : List (String × Option String) :=
  (sortEntries p.entries).map fun e => (e.1, e.2.map nfc.normalize)

theorem canonicalJson_changes (p : BulkPayload) : Json.canonicalJson nfc p.json =
    "\x7b" ++ join "," ((p.normalized nfc).map entryText) ++ "\x7d" := by
  obtain ⟨hnodup, hnfc⟩ := @entries_keys nfc p
  have hkeys : (p.entries.map fun e => (e.1, BulkPayload.value e.2)).map Prod.fst = p.entries.map Prod.fst := by
    rw [List.map_map]
    rfl
  rw [BulkPayload.json, Json.canonicalJson_obj, Json.sortEntries_map, BulkPayload.normalized, List.map_map,
    List.map_map]
  · simp only [Function.comp_def, canonicalJson_value, entryText]
  · intro kv hkv
    obtain ⟨e, he, rfl⟩ := List.mem_map.mp hkv
    exact hnfc e he
  · rw [hkeys]
    exact hnodup

/-- The text of the changes ends where it ends. -/
theorem changes_append {p q : BulkPayload} {r s : List Char}
    (h : (Json.canonicalJson nfc p.json).toList ++ r = (Json.canonicalJson nfc q.json).toList ++ s) :
    Json.canonicalJson nfc p.json = Json.canonicalJson nfc q.json ∧ r = s := by
  have hcode : ∀ x : BulkPayload, (Json.canonicalJson nfc x.json).toList =
      '\x7b' :: separated (fun e => (entryText e).toList) ',' '\x7d' (x.normalized nfc) := by
    intro x
    rw [canonicalJson_changes, String.toList_append, String.toList_append, List.append_assoc]
    exact congrArg ('\x7b' :: ·) (toList_join entryText '\x7d' (x.normalized nfc))
  rw [hcode p, hcode q] at h
  obtain ⟨heq, hrest⟩ := (prefixFree_entryText.separated avoids_entryText (by decide)).cons '\x7b' h
  rw [canonicalJson_changes, canonicalJson_changes, heq]
  exact ⟨rfl, hrest⟩

/-- The texts of ids are ASCII. -/
def AsciiIds (ids : List Uuid) : Prop := ∀ id ∈ ids, ∀ c ∈ id.text.toList, c.toNat < 128

theorem mem_normalizedIds {ids : List Uuid} {id : Uuid} : id ∈ normalizedIds ids ↔ id ∈ ids := by
  rw [normalizedIds, (List.perm_insertionSort _ _).mem_iff, List.mem_dedup]

/-- The canonical text of a request. -/
theorem toList_canonicalJson {ids : List Uuid} (hids : AsciiIds ids) (p : BulkPayload) :
    (Json.canonicalJson nfc (requestPayload ids p)).toList =
      ("\x7b" ++ quote "changes" ++ ":").toList ++ ((Json.canonicalJson nfc p.json).toList ++
        (("," ++ (quote "lead_ids" ++ ":" ++ "[")).toList ++
          (separated (fun id : Uuid => (quote id.text).toList) ',' ']' (normalizedIds ids) ++ "\x7d".toList))) := by
  have hsort : ∀ a b : Json, sortEntries [("lead_ids", a), ("changes", b)] = [("changes", b), ("lead_ids", a)] := by
    intro a b
    exact if_neg (by decide : ¬("lead_ids" : String) ≤ "changes")
  have hchanges := @Json.Nfc.normalize_of_all nfc "changes" (by decide)
  have hleads := @Json.Nfc.normalize_of_all nfc "lead_ids" (by decide)
  have htexts : ((normalizedIds ids).map Uuid.text).map (fun s => quote (nfc.normalize s)) =
      (normalizedIds ids).map fun id => quote id.text := by
    rw [List.map_map]
    refine List.map_congr_left fun id hid => ?_
    exact congrArg quote (nfc.normalize_ascii _ (hids id (mem_normalizedIds.mp hid)))
  rw [requestPayload, Json.canonicalJson_obj, hsort, List.map_cons, List.map_singleton, Json.canonicalJson_texts,
    htexts, ← toList_join (fun id : Uuid => quote id.text)]
  · simp only [join, String.toList_append, List.append_assoc]
    rfl
  · intro kv hkv
    rcases List.mem_cons.mp hkv with rfl | hkv
    · exact hleads
    · obtain rfl := List.mem_singleton.mp hkv
      exact hchanges
  · exact (by decide : ["lead_ids", "changes"].Nodup)

end Canonical

/-! ## The hash -/

theorem normalizedIds_eq_iff {ids ids' : List Uuid} :
    normalizedIds ids = normalizedIds ids' ↔ ∀ id, id ∈ ids ↔ id ∈ ids' := by
  constructor
  · intro h id
    rw [← mem_normalizedIds, h, mem_normalizedIds]
  · intro h
    have hnodup : ∀ l : List Uuid, (normalizedIds l).Nodup := fun l =>
      (List.perm_insertionSort _ _).nodup_iff.mpr (List.nodup_dedup l)
    have htotal : Std.Total fun a b : Uuid => a.text ≤ b.text := ⟨fun a b => le_total a.text b.text⟩
    have htrans : IsTrans Uuid fun a b => a.text ≤ b.text := ⟨fun a b c => le_trans⟩
    have hperm := (List.perm_ext_iff_of_nodup (hnodup ids) (hnodup ids')).mpr fun id => by
      rw [mem_normalizedIds, mem_normalizedIds, h]
    refine hperm.eq_of_pairwise (fun a b _ _ hab hba => Uuid.ext ?_) (List.pairwise_insertionSort _ _)
      (List.pairwise_insertionSort _ _)
    exact congrArg String.toList (le_antisymm hab hba)

/-- Requests that name the same leads, in any order, with changes that have one canonical form. -/
structure Equivalent (nfc : Json.Nfc) (ids ids' : List Uuid) (p p' : BulkPayload) : Prop where
  leads : ∀ id, id ∈ ids ↔ id ∈ ids'
  changes : Json.canonicalJson nfc p.json = Json.canonicalJson nfc p'.json

/-- **One hash**: exactly the equivalent requests have it. -/
theorem requestHash_eq_iff {nfc : Json.Nfc} {sha256 : Sha256} {ids ids' : List Uuid} {p p' : BulkPayload}
    (hids : AsciiIds ids) (hids' : AsciiIds ids') :
    hashPayload nfc sha256 (requestPayload ids p) = hashPayload nfc sha256 (requestPayload ids' p') ↔
      Equivalent nfc ids ids' p p' := by
  constructor
  · intro h
    have htext := congrArg String.toList (sha256.injective h)
    rw [toList_canonicalJson hids, toList_canonicalJson hids'] at htext
    obtain ⟨hchanges, hrest⟩ := changes_append (List.append_cancel_left htext)
    have hcode : PrefixFree fun id : Uuid => (quote id.text).toList :=
      prefixFree_quote.comp fun a b h => Uuid.ext (congrArg String.toList h)
    have hleads := (hcode.separated (fun id => avoids_quote id.text) (by decide) (List.append_cancel_left hrest)).1
    exact ⟨normalizedIds_eq_iff.mp hleads, hchanges⟩
  · rintro ⟨hleads, hchanges⟩
    refine congrArg sha256.hexdigest (String.toList_inj.mp ?_)
    rw [toList_canonicalJson hids, toList_canonicalJson hids', hchanges, normalizedIds_eq_iff.mpr hleads]

end RevenueOS.Leads
