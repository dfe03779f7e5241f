import Mathlib.Data.List.Sort
import RevenueOS.Lib.Codes
import RevenueOS.Py.Json

/-!
# RevenueOS.Py.JsonText — the canonical text of a document

`json.dumps` with sorted keys, the separators `,` and `:` and no escapes beyond ASCII's own, and `canonical_json`
(`shared/utils/text.py`) over it.  `unicodedata.normalize("NFC", ..)` is given by what it does to ASCII texts.

* `prefixFree_quote`: the text of a string ends where it ends.
-/

namespace RevenueOS.Py

open RevenueOS.Lib

/-! ## Strings -/

/-- One character inside the text of a string. -/
def escapeChar (c : Char) : List Char :=
  if c = '"' ∨ c = '\\' then ['\\', c]
  else if c = '\n' then ['\\', 'n']
  else if c = '\r' then ['\\', 'r']
  else if c = '\t' then ['\\', 't']
  else if c.toNat = 8 then ['\\', 'b']
  else if c.toNat = 12 then ['\\', 'f']
  else if c.toNat < 32 then ['\\', 'u', '0', '0', (c.toNat / 16).digitChar, (c.toNat % 16).digitChar]
  else [c]

/-- `json.dumps` of a string. -/
def quote (s : String) : String := String.ofList ('"' :: s.toList.flatMap escapeChar ++ ['"'])

/-- The value of a hexadecimal digit. -/
def hexValue (c : Char) : ℕ := if c.isDigit then c.toNat - 48 else c.toNat - 87

/-- The first character of an escaped text. -/
def unescape : List Char → Option (Char × List Char)
  | '\\' :: 'u' :: _ :: _ :: a :: b :: rest => some (Char.ofNat (16 * hexValue a + hexValue b), rest)
  | '\\' :: 'n' :: rest => some ('\n', rest)
  | '\\' :: 'r' :: rest => some ('\r', rest)
  | '\\' :: 't' :: rest => some ('\t', rest)
  | '\\' :: 'b' :: rest => some (Char.ofNat 8, rest)
  | '\\' :: 'f' :: rest => some (Char.ofNat 12, rest)
  | '\\' :: c :: rest => some (c, rest)
  | c :: rest => some (c, rest)
  | [] => none

theorem hexValue_digitChar : ∀ n < 16, hexValue n.digitChar = n := by decide

theorem ofNat_toNat (c : Char) : Char.ofNat c.toNat = c := Char.ofNat_toNat c

theorem unescape_escapeChar (c : Char) (rest : List Char) : unescape (escapeChar c ++ rest) = some (c, rest) := by
  unfold escapeChar
  split_ifs with hquote hn hr ht hb hf hcontrol
  · rcases hquote with rfl | rfl <;> rfl
  · rw [hn]
    rfl
  · rw [hr]
    rfl
  · rw [ht]
    rfl
  · rw [← ofNat_toNat c, hb]
    rfl
  · rw [← ofNat_toNat c, hf]
    rfl
  · show some (Char.ofNat _, rest) = _
    rw [hexValue_digitChar _ (by omega), hexValue_digitChar _ (by omega), Nat.div_add_mod, ofNat_toNat]
  · have hne : c ≠ '\\' := fun heq => hquote (.inr heq)
    show unescape (c :: rest) = _
    unfold unescape
    split <;> simp_all

theorem prefixFree_escapeChar : PrefixFree escapeChar := .of_read unescape unescape_escapeChar

theorem avoids_escapeChar : Avoids escapeChar '"' := by
  intro c r s heq
  unfold escapeChar at heq
  split_ifs at heq with hquote
  · cases (List.cons.inj heq).1
  · cases (List.cons.inj heq).1
  · cases (List.cons.inj heq).1
  · cases (List.cons.inj heq).1
  · cases (List.cons.inj heq).1
  · cases (List.cons.inj heq).1
  · cases (List.cons.inj heq).1
  · exact hquote (.inl (List.cons.inj heq).1)

theorem toList_quote (s : String) : (quote s).toList = '"' :: terminated escapeChar '"' s.toList := by
  have hbody : ∀ cs : List Char, cs.flatMap escapeChar ++ ['"'] = terminated escapeChar '"' cs := by
    intro cs
    induction cs with
    | nil => rfl
    | cons c cs ih =>
      rw [List.flatMap_cons, List.append_assoc, ih]
      rfl
  rw [quote, String.toList_ofList, List.cons_append, hbody]

/-- **The text of a string ends where it ends.** -/
theorem prefixFree_quote : PrefixFree fun s : String => (quote s).toList := by
  have h := ((prefixFree_escapeChar.terminated avoids_escapeChar).cons '"').comp
    (fun s t : String => String.toList_inj.mp)
  intro s t r r' heq
  simp only [toList_quote] at heq
  exact h heq

/-! ## `json.dumps` -/

/-- Entries by their keys, a later one after an earlier one with the same key. -/
def sortEntries {α : Type} (entries : List (String × α)) : List (String × α) :=
  entries.insertionSort fun a b => a.1 ≤ b.1

namespace Json

mutual

/-- `json.dumps(x, separators=(",", ":"), ensure_ascii=False, sort_keys=True)`. -/
def dumps : Json → String
  | .null => "null"
  | .bool b => if b then "true" else "false"
  | .int n => toString n
  | .float q => floatRepr q
  | .str s => quote s
  | .arr xs => "[" ++ join "," (dumpsList xs) ++ "]"
  | .obj d => "\x7b" ++ join "," ((sortEntries (dumpsEntries d)).map fun e => quote e.1 ++ ":" ++ e.2) ++ "\x7d"

def dumpsList : List Json → List String
  | [] => []
  | x :: xs => dumps x :: dumpsList xs

def dumpsEntries : List (String × Json) → List (String × String)
  | [] => []
  | (k, v) :: rest => (k, dumps v) :: dumpsEntries rest

end

/-! ## `canonical_json` -/

/-- `unicodedata.normalize("NFC", ..)`; it leaves ASCII texts, and so the texts of UUIDs, as they are. -/
structure Nfc where
  normalize : String → String
  normalize_ascii : ∀ s, (∀ c ∈ s.toList, c.toNat < 128) → normalize s = s

/-- The same as a test. -/
theorem Nfc.normalize_of_all (nfc : Nfc) {s : String} (h : s.toList.all (·.toNat < 128) = true) : nfc.normalize s = s :=
  nfc.normalize_ascii s fun c hc => of_decide_eq_true (List.all_eq_true.mp h c hc)

variable (nfc : Nfc)

mutual

/-- `norm` of `canonical_json`, where `str(k)` is the key. -/
def norm : Json → Json
  | .str s => .str (nfc.normalize s)
  | .obj d =>
    .obj ((sortEntries (normEntries d)).foldl (fun e kv => assocSet e (nfc.normalize kv.1) kv.2) [])
  | .arr xs => .arr (normList xs)
  | .float q => if q.den = 1 then .int q.num else .float q
  | x => x

def normList : List Json → List Json
  | [] => []
  | x :: xs => norm x :: normList xs

def normEntries : List (String × Json) → List (String × Json)
  | [] => []
  | (k, v) :: rest => (k, norm v) :: normEntries rest

end

/-- `canonical_json`. -/
def canonicalJson (value : Json) : String := (norm nfc value).dumps

/-! ## The text of a `dict` -/

variable {nfc}

theorem dumpsEntries_eq (d : Dict) : dumpsEntries d = d.map fun kv => (kv.1, kv.2.dumps) := by
  induction d with
  | nil => rfl
  | cons kv d ih => rw [dumpsEntries, ih, List.map_cons]

theorem normEntries_eq (d : Dict) : normEntries nfc d = d.map fun kv => (kv.1, norm nfc kv.2) := by
  induction d with
  | nil => rfl
  | cons kv d ih => rw [normEntries, ih, List.map_cons]

/-- Sorting looks at the keys alone. -/
theorem sortEntries_map {α β : Type} (f : α → β) (entries : List (String × α)) :
    sortEntries (entries.map fun kv => (kv.1, f kv.2)) = (sortEntries entries).map fun kv => (kv.1, f kv.2) :=
  (List.map_insertionSort (fun a b : String × α => a.1 ≤ b.1) (fun a b : String × β => a.1 ≤ b.1)
    (fun kv => (kv.1, f kv.2)) entries fun _ _ _ _ => Iff.rfl).symm

theorem sortEntries_sortEntries {α : Type} (entries : List (String × α)) :
    sortEntries (sortEntries entries) = sortEntries entries := by
  have : Std.Total fun a b : String × α => a.1 ≤ b.1 := ⟨fun a b => le_total a.1 b.1⟩
  have : IsTrans (String × α) fun a b => a.1 ≤ b.1 := ⟨fun a b c => le_trans⟩
  exact List.Pairwise.insertionSort_eq (List.pairwise_insertionSort _ _)

theorem perm_sortEntries {α : Type} (entries : List (String × α)) : (sortEntries entries).Perm entries :=
  List.perm_insertionSort _ entries

theorem assocSet_of_not_mem {α : Type} {d : List (String × α)} {k : String} {v : α} (h : k ∉ d.map Prod.fst) :
    assocSet d k v = d ++ [(k, v)] := by
  induction d with
  | nil => rfl
  | cons kv d ih =>
    rw [List.map_cons, List.mem_cons, not_or] at h
    rw [assocSet, if_neg h.1, ih h.2, List.cons_append]

/-- A `dict` that is built from entries with keys of their own holds them in their order. -/
theorem foldl_assocSet_normalize {entries d : Dict}
    (hnodup : (d.map Prod.fst ++ entries.map fun kv => nfc.normalize kv.1).Nodup) :
    entries.foldl (fun e kv => assocSet e (nfc.normalize kv.1) kv.2) d =
      d ++ entries.map fun kv => (nfc.normalize kv.1, kv.2) := by
  induction entries generalizing d with
  | nil => exact (List.append_nil d).symm
  | cons kv entries ih =>
    rw [List.map_cons] at hnodup
    have hkey : nfc.normalize kv.1 ∉ d.map Prod.fst := fun hmem =>
      (List.nodup_append.mp hnodup).2.2 _ hmem _ List.mem_cons_self rfl
    have hnext : ((d ++ [(nfc.normalize kv.1, kv.2)]).map Prod.fst ++ entries.map fun kv => nfc.normalize kv.1).Nodup := by
      rw [List.map_append, List.append_assoc]
      exact hnodup
    rw [List.foldl_cons, assocSet_of_not_mem hkey, ih hnext, List.append_assoc]
    rfl

/-- Normalized keys stay as they are. -/
theorem foldl_assocSet {entries d : Dict} (hnfc : ∀ kv ∈ entries, nfc.normalize kv.1 = kv.1)
    (hnodup : ((d ++ entries).map Prod.fst).Nodup) :
    entries.foldl (fun e kv => assocSet e (nfc.normalize kv.1) kv.2) d = d ++ entries := by
  have hkeys : (entries.map fun kv => nfc.normalize kv.1) = entries.map Prod.fst := List.map_congr_left hnfc
  have hmap : (entries.map fun kv => (nfc.normalize kv.1, kv.2)) = entries :=
    (List.map_congr_left fun kv hkv => congrArg (Prod.mk · kv.2) (hnfc kv hkv)).trans (List.map_id entries)
  rw [foldl_assocSet_normalize (by rw [hkeys, ← List.map_append]; exact hnodup), hmap]

/-- **The canonical text of a `dict`** whose keys are distinct and normalized: its entries by their keys. -/
theorem canonicalJson_obj {d : Dict} (hnfc : ∀ kv ∈ d, nfc.normalize kv.1 = kv.1) (hnodup : (d.map Prod.fst).Nodup) :
    canonicalJson nfc (.obj d) =
      "\x7b" ++ join "," ((sortEntries d).map fun kv => quote kv.1 ++ ":" ++ canonicalJson nfc kv.2) ++ "\x7d" := by
  have hperm := perm_sortEntries d
  have hentries : sortEntries (normEntries nfc d) = (sortEntries d).map fun kv => (kv.1, norm nfc kv.2) := by
    rw [normEntries_eq, sortEntries_map]
  have hkeys : ((sortEntries d).map fun kv => (kv.1, norm nfc kv.2)).map Prod.fst = (sortEntries d).map Prod.fst := by
    rw [List.map_map]
    rfl
  have hfold := @foldl_assocSet nfc ((sortEntries d).map fun kv => (kv.1, norm nfc kv.2)) []
    (fun kv hkv => by
      obtain ⟨kv', hkv', rfl⟩ := List.mem_map.mp hkv
      exact hnfc kv' (hperm.mem_iff.mp hkv'))
    (by
      rw [List.nil_append, hkeys]
      exact (hperm.map Prod.fst).nodup_iff.mpr hnodup)
  unfold canonicalJson
  rw [norm, hentries, hfold, List.nil_append, dumps, dumpsEntries_eq, sortEntries_map, sortEntries_map,
    sortEntries_sortEntries, List.map_map, List.map_map]
  rfl

theorem canonicalJson_str (s : String) : canonicalJson nfc (.str s) = quote (nfc.normalize s) := by
  rw [canonicalJson, norm, dumps]

/-- The canonical text of a list of texts. -/
theorem canonicalJson_texts (texts : List String) : canonicalJson nfc (.arr (texts.map .str)) =
    "[" ++ join "," (texts.map fun s => quote (nfc.normalize s)) ++ "]" := by
  have hlist : dumpsList (normList nfc (texts.map .str)) = texts.map fun s => quote (nfc.normalize s) := by
    induction texts with
    | nil => rfl
    | cons s texts ih => rw [List.map_cons, normList, norm, dumpsList, dumps, ih, List.map_cons]
  rw [canonicalJson, norm, dumps, hlist]

end Json

/-- Joined texts up to a stop. -/
theorem toList_join {α : Type} (text : α → String) (stop : Char) (l : List α) :
    (join "," (l.map text)).toList ++ [stop] = separated (fun a => (text a).toList) ',' stop l := by
  cases l with
  | nil => rfl
  | cons a l =>
    show (join "," (text a :: l.map text)).toList ++ [stop] = (text a).toList ++ terminated _ stop l
    induction l generalizing a with
    | nil => rfl
    | cons b l ih =>
      rw [List.map_cons, join, String.toList_append, String.toList_append, List.append_assoc, List.append_assoc, ih b]
      · rfl
      · simp

end RevenueOS.Py
