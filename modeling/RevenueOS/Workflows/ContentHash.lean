import RevenueOS.Py.Canonical
import RevenueOS.Workflows.Dsl
import RevenueOS.Lib.Except

/-!
# RevenueOS.Workflows.ContentHash — the hash of a definition and its column

`canonical_hash` (`domain/workflows/dsl.py`) over `content_hash` (`shared/utils/text.py`), and what a JSONB column
gives back of a document: the entries in an order of its own, and each float as the decimal that its text denotes.

* `canonicalHash_yields`: which documents can be hashed.
* `canonical_forms`: a definition keeps its hash in the column if its floats are the integers that come back for them.
-/

namespace RevenueOS.Workflows

open RevenueOS.Py RevenueOS.Py.Json RevenueOS.Lib

/-! ## The hash -/

mutual

/-- How deep the calls of `norm` and `nfc` nest in `canonical_json`. -/
def normCalls : Json → ℕ
  | .str _ => 2
  | .arr xs => normCallsItems xs + 1
  | .obj d => normCallsEntries d + 1
  | _ => 1

def normCallsItems : List Json → ℕ
  | [] => 0
  | x :: xs => max (normCalls x) (normCallsItems xs)

def normCallsEntries : List (String × Json) → ℕ
  | [] => 0
  | (_, v) :: d => max (normCalls v) (normCallsEntries d)

end

/-- What `content_hash` rests on: the NFC form, SHA-256, how many nested calls the stack holds, and the characters
that stand here for lone surrogates, which are no `Char`. -/
structure Hashing where
  nfc : Nfc
  hexdigest : String → String
  calls : ℕ
  lone : Char → Bool

/-- `content_hash`.  `encode("utf-8")` refuses lone surrogates with a `UnicodeEncodeError`, which is a `ValueError`. -/
def contentHash (h : Hashing) (value : Json) : Except PyError String :=
  if h.calls < normCalls value then .error .recursionError
  else
    let text := canonicalJson h.nfc value
    if text.toList.any h.lone then .error .valueError else .ok (h.hexdigest text)

/-- The interpreter with this hash. -/
def Interpreter.hashing (py : Interpreter) (h : Hashing) : Interpreter :=
  { py with contentHash := fun d => Workflows.contentHash h (.obj d) }

/-- The keys that `canonical_hash` keeps. -/
def isHashed (key : String) : Bool := !(["version", "content_hash", "updated_at"].contains key)

/-- `stripped` of `canonical_hash`. -/
def stripped (doc : Dict) : Dict := doc.filter fun kv => isHashed kv.1

/-- The hash of a document that can be hashed. -/
def documentHash (nfc : Nfc) (hexdigest : String → String) (doc : Dict) : String :=
  hexdigest (canonicalJson nfc (.obj (stripped doc)))

theorem documentHash_eq (nfc : Nfc) (hexdigest : String → String) (doc : Dict) :
    documentHash nfc hexdigest doc = hexdigest (canonicalJson nfc (.obj (stripped doc))) := rfl

/-- The document is not nested too deeply, and its canonical form has no lone surrogate. -/
structure Hashable (h : Hashing) (doc : Dict) : Prop where
  shallow : normCalls (.obj (stripped doc)) ≤ h.calls
  encodable : ∀ c ∈ (canonicalJson h.nfc (.obj (stripped doc))).toList, h.lone c = false

/-- **`canonical_hash`** returns the hash of the document where it can be hashed, and raises elsewhere. -/
theorem canonicalHash_yields {py : Interpreter} {h : Hashing} {doc : Dict} {Q : String → Prop} :
    Yields (canonicalHash (py.hashing h) doc) Q ↔ Hashable h doc ∧ Q (documentHash h.nfc h.hexdigest doc) := by
  have hdef : canonicalHash (py.hashing h) doc = contentHash h (.obj (stripped doc)) := rfl
  rw [hdef, contentHash]
  simp only
  split_ifs with hcalls hlone
  · simp only [yields_error, false_iff, not_and]
    intro hh
    have := hh.shallow
    omega
  · simp only [yields_error, false_iff, not_and]
    intro hh
    obtain ⟨c, hc, hl⟩ := List.any_eq_true.mp hlone
    rw [hh.encodable c hc] at hl
    cases hl
  · rw [yields_ok, documentHash_eq]
    refine (and_iff_right ⟨not_lt.mp hcalls, fun c hc => ?_⟩).symm
    simpa using List.any_eq_false.mp (Bool.eq_false_iff.mpr hlone) c hc

/-! ## JSONB -/

/-- What comes back of a float.  The column keeps the decimal of its text and the digits behind the point: without
any it is written as an integer. -/
def numeric (q : ℚ) : Json :=
  let (negative, d) := scanSigned (floatRepr q).toList
  if (d.fraction : ℤ) ≤ d.exponent then
    .int ((if negative then -1 else 1) * (d.digits * 10 ^ (d.exponent - d.fraction).toNat : ℕ))
  else .float (if negative then -roundDouble d.value else roundDouble d.value)

/-- What comes back of a leaf. -/
inductive StoredLeaf : Json → Json → Prop
  | null : StoredLeaf .null .null
  | bool (b : Bool) : StoredLeaf (.bool b) (.bool b)
  | int (n : ℤ) : StoredLeaf (.int n) (.int n)
  | float (q : ℚ) : StoredLeaf (.float q) (numeric q)
  | str (s : String) : StoredLeaf (.str s) (.str s)

/-- What comes back of a document. -/
def Stored : Json → Json → Prop := Alike StoredLeaf Eq

/-- A float for which an integer comes back is that integer. -/
def ExactFloat (q : ℚ) : Prop := ∀ n, numeric q = .int n → q = n

/-- The floats of the document are exact. -/
def Exact : Json → Prop :=
  Everywhere fun
    | .float q => ExactFloat q
    | _ => True

theorem numeric_cases (q : ℚ) : (∃ n, numeric q = .int n) ∨ numeric q = .float (readFloat (floatRepr q)) := by
  unfold numeric readFloat
  dsimp only
  split_ifs
  · exact .inl ⟨_, rfl⟩
  · exact .inl ⟨_, rfl⟩
  · exact .inr rfl
  · exact .inr rfl

variable {nfc : Nfc}

/-- A document comes back as a document. -/
theorem Stored.wellFormed (x : Json) : WellFormed nfc x → ∀ {y}, Stored x y → WellFormed nfc y := by
  induction x using induct with
  | float q =>
    rintro hq y ⟨⟨⟩⟩
    rcases numeric_cases q with ⟨n, hn⟩ | hback
    · rw [hn]
      trivial
    · rw [hback, readFloat_floatRepr hq]
      exact hq
  | arr xs ih =>
    intro hx y hy
    cases hy with
    | leaf h => cases h
    | arr h =>
      refine everywhere_arr.mpr ⟨trivial, fun y hy => ?_⟩
      obtain ⟨x, hmem, hxy⟩ := h.exists_left hy
      exact ih x hmem ((everywhere_arr.mp hx).2 x hmem) hxy
  | obj d ih =>
    intro hx y hy
    obtain ⟨hnodup, hentries⟩ := everywhere_obj.mp hx
    cases hy with
    | leaf h => cases h
    | @obj _ e h =>
      refine everywhere_obj.mpr ⟨?_, fun kv' hmem' => ?_⟩
      · have hkeys := h.keys_perm.map nfc.normalize
        rw [List.map_map, List.map_map] at hkeys
        exact hkeys.nodup_iff.mp hnodup
      · obtain ⟨kv, hmem, -, hvalue⟩ := h.exists_left hmem'
        exact ih kv hmem (hentries kv hmem) hvalue
  | _ =>
    rintro - y ⟨⟨⟩⟩
    trivial

/-- Exact documents come back as equivalent ones. -/
theorem Stored.equivalent (x : Json) : WellFormed nfc x → Exact x → ∀ y, Stored x y → Equivalent nfc x y := by
  induction x using induct with
  | null =>
    rintro - - y ⟨⟨⟩⟩
    exact .leaf .null
  | bool b =>
    rintro - - y ⟨⟨⟩⟩
    exact .leaf (.bool b)
  | int n =>
    rintro - - y ⟨⟨⟩⟩
    exact .leaf (.int n)
  | str s =>
    rintro - - y ⟨⟨⟩⟩
    exact .leaf (.str rfl)
  | float q =>
    rintro hq hexact y ⟨⟨⟩⟩
    rcases numeric_cases q with ⟨n, hn⟩ | hback
    · obtain rfl := hexact n hn
      rw [hn]
      exact .leaf (.integral n)
    · rw [hback, readFloat_floatRepr hq]
      exact .leaf (.float q)
  | arr xs ih =>
    intro hx hexact y hy
    cases hy with
    | leaf h => cases h
    | arr h =>
      exact .arr (h.imp fun x hmem => ih x hmem ((everywhere_arr.mp hx).2 x hmem)
        ((everywhere_arr.mp hexact).2 x hmem))
  | obj d ih =>
    intro hx hexact y hy
    cases hy with
    | leaf h => cases h
    | obj h =>
      exact .obj (h.imp (fun _ _ => congrArg nfc.normalize) fun kv hmem =>
        ih kv hmem ((everywhere_obj.mp hx).2 kv hmem) ((everywhere_obj.mp hexact).2 kv hmem))

theorem exists_stored_item {xs ys : List Json} (h : AlikeItems StoredLeaf Eq xs ys)
    (htree : xs.map (tree nfc) = ys.map (tree nfc)) {x : Json} (hx : x ∈ xs) :
    ∃ y ∈ ys, Stored x y ∧ tree nfc x = tree nfc y := by
  induction xs generalizing ys with
  | nil => cases hx
  | cons x' xs ih =>
    cases h with
    | cons hhead htail =>
      obtain ⟨heq, hrest⟩ := List.cons.inj htree
      rcases List.mem_cons.mp hx with rfl | hx
      · exact ⟨_, List.mem_cons_self, hhead, heq⟩
      · obtain ⟨y, hy, hstored⟩ := ih htail hrest hx
        exact ⟨y, List.mem_cons_of_mem _ hy, hstored⟩

/-- A document that comes back with its form is exact. -/
theorem Stored.exact_of_tree (x : Json) : WellFormed nfc x → ∀ y, Stored x y → tree nfc x = tree nfc y → Exact x := by
  induction x using induct with
  | float q =>
    rintro - y ⟨⟨⟩⟩ htree n hn
    rw [hn] at htree
    exact eq_of_tree_float htree
  | arr xs ih =>
    intro hx y hy htree
    cases hy with
    | leaf h => cases h
    | arr h =>
      rw [tree_arr, tree_arr] at htree
      refine everywhere_arr.mpr ⟨trivial, fun x hmem => ?_⟩
      obtain ⟨y, -, hstored, heq⟩ := exists_stored_item h (Json.arr.inj htree) hmem
      exact ih x hmem ((everywhere_arr.mp hx).2 x hmem) y hstored heq
  | obj d ih =>
    intro hx y hy htree
    have hy' := Stored.wellFormed _ hx hy
    obtain ⟨hnodup, hentries⟩ := everywhere_obj.mp hx
    cases hy with
    | leaf h => cases h
    | @obj _ e h =>
      obtain ⟨hnodup', -⟩ := everywhere_obj.mp hy'
      rw [tree_obj hnodup, tree_obj hnodup'] at htree
      have hperm := (sortEntries_eq_iff (nodup_treeEntry hnodup)).mp (Json.obj.inj htree)
      refine everywhere_obj.mpr ⟨trivial, fun kv hmem => ?_⟩
      obtain ⟨kv', hmem', hkey, hstored⟩ := h.exists_right hmem
      -- the form has one entry of each key, and so the entry that came back is the one of that form
      have hentry := hperm.mem_iff.mp (List.mem_map_of_mem hmem)
      have hentry' : treeEntry nfc kv' ∈ e.map (treeEntry nfc) := List.mem_map_of_mem hmem'
      have heq := List.inj_on_of_nodup_map (nodup_treeEntry hnodup') hentry hentry'
        (congrArg nfc.normalize hkey)
      exact ih kv hmem (hentries kv hmem) kv'.2 hstored (Prod.mk.inj heq).2
  | _ =>
    intros
    trivial

theorem Stored.stripped {d e : Dict} (h : Stored (.obj d) (.obj e)) :
    Stored (.obj (stripped d)) (.obj (Workflows.stripped e)) := by
  cases h with
  | leaf h => cases h
  | obj h => exact .obj (h.filter isHashed)

theorem wellFormed_stripped {d : Dict} (h : WellFormed nfc (.obj d)) : WellFormed nfc (.obj (stripped d)) := by
  obtain ⟨hnodup, hentries⟩ := everywhere_obj.mp h
  refine everywhere_obj.mpr ⟨?_, fun kv hmem => hentries kv (List.mem_of_mem_filter hmem)⟩
  exact hnodup.sublist (List.filter_sublist.map _)

/-- **The canonical form tells documents apart up to equivalence**, and a definition that is read back from its column
has the canonical form it had exactly if its floats are exact. -/
theorem canonical_forms (nfc : Nfc) (hexdigest : String → String) (a b : {x : Json // WellFormed nfc x}) {d e : Dict}
    (hd : WellFormed nfc (.obj d)) (hstored : Stored (.obj d) (.obj e)) :
    (canonicalJson nfc a.1 = canonicalJson nfc b.1 ↔ Equivalent nfc a.1 b.1) ∧
      (canonicalJson nfc (.obj (stripped e)) = canonicalJson nfc (.obj (stripped d)) ↔ Exact (.obj (stripped d))) ∧
      (Exact (.obj (stripped d)) → documentHash nfc hexdigest e = documentHash nfc hexdigest d) := by
  have hd' := wellFormed_stripped hd
  have hback := hstored.stripped
  have he' := Stored.wellFormed _ hd' hback
  have hform : canonicalJson nfc (.obj (stripped e)) = canonicalJson nfc (.obj (stripped d)) ↔
      Exact (.obj (stripped d)) := by
    rw [eq_comm, canonicalJson_eq_iff hd' he']
    constructor
    · intro hequiv
      exact Stored.exact_of_tree _ hd' _ hback ((tree_eq_iff _ hd' _ he').mpr hequiv)
    · intro hexact
      exact Stored.equivalent _ hd' hexact _ hback
  refine ⟨canonicalJson_eq_iff a.2 b.2, hform, fun hexact => ?_⟩
  rw [documentHash_eq, documentHash_eq, hform.mpr hexact]

/-- A normalisation that leaves every text as it is. -/
def asIs : Nfc := ⟨id, fun _ _ => rfl⟩

def retryDoc : Dict := [("version", .int 3), ("name", .str "retry"), ("limit", .float 2)]

/-- The definition as it comes back, with its keys by their length. -/
def retryBack : Dict := [("name", .str "retry"), ("limit", .float 2), ("version", .int 3)]

theorem isDouble_two : IsDouble 2 := ⟨2, 0, by norm_num, by norm_num, by norm_num, by norm_num⟩

theorem numeric_two : numeric 2 = .float 2 := by
  have htext : floatRepr 2 = "2.0" := by decide +kernel
  rcases numeric_cases 2 with ⟨n, hn⟩ | hback
  · unfold numeric at hn
    rw [htext] at hn
    cases hn
  · rw [hback, readFloat_floatRepr isDouble_two]

theorem wellFormed_retryDoc : WellFormed asIs (.obj retryDoc) := by
  refine everywhere_obj.mpr ⟨?_, ?_⟩
  · show ["version", "name", "limit"].Nodup
    decide
  · refine List.forall_mem_cons.mpr ⟨trivial, List.forall_mem_cons.mpr ⟨trivial, ?_⟩⟩
    exact List.forall_mem_singleton.mpr isDouble_two

theorem stored_retryDoc : Stored (.obj retryDoc) (.obj retryBack) := by
  have htwo : StoredLeaf (.float 2) (.float 2) := by
    have h := StoredLeaf.float 2
    rwa [numeric_two] at h
  refine .obj ?_
  show AlikeEntries _ _ _ ([("name", .str "retry"), ("limit", .float 2)] ++ ("version", .int 3) :: [])
  refine .cons rfl (.leaf (.int 3)) ?_
  show AlikeEntries _ _ _ ([] ++ ("name", .str "retry") :: ([] ++ [("limit", .float 2)]))
  exact .cons rfl (.leaf (.str "retry")) (.cons rfl (.leaf htwo) .nil)

theorem canonical_forms_retry :
    documentHash asIs id retryBack = documentHash asIs id retryDoc ∧ Exact (.obj (stripped retryDoc)) := by
  have hexact : Exact (.obj (stripped retryDoc)) := by
    have hlimit : ExactFloat 2 := by
      intro n hn
      rw [numeric_two] at hn
      cases hn
    refine everywhere_obj.mpr ⟨trivial, ?_⟩
    show ∀ kv ∈ [("name", Json.str "retry"), ("limit", .float 2)], Exact kv.2
    exact List.forall_mem_cons.mpr ⟨trivial, List.forall_mem_singleton.mpr hlimit⟩
  have h := canonical_forms asIs id ⟨.null, trivial⟩ ⟨.null, trivial⟩ wellFormed_retryDoc stored_retryDoc
  exact ⟨h.2.2 hexact, hexact⟩

/-! ## A float that does not come back -/

/-- A definition with the float `1e23`. -/
def hugeDoc : Dict := [("limit", .float 99999999999999991611392)]

def hugeBack : Dict := [("limit", .int (10 ^ 23))]

theorem numeric_huge : numeric 99999999999999991611392 = .int (10 ^ 23) := by
  have htext : floatRepr 99999999999999991611392 = "1e+23" := by decide +kernel
  unfold numeric
  rw [htext]
  rfl

/-- The text of `1e23` denotes another integer, and the column gives that one back. -/
theorem hugeDoc_rehashed : WellFormed asIs (.obj hugeDoc) ∧ Stored (.obj hugeDoc) (.obj hugeBack) ∧
    ∀ hexdigest : String → String, Function.Injective hexdigest →
      documentHash asIs hexdigest hugeBack ≠ documentHash asIs hexdigest hugeDoc := by
  refine ⟨?_, ?_, ?_⟩
  · refine everywhere_obj.mpr ⟨List.nodup_singleton _, ?_⟩
    exact List.forall_mem_singleton.mpr ⟨2980232238769531, 25, by norm_num, by norm_num, by norm_num, by norm_num⟩
  · have h := StoredLeaf.float 99999999999999991611392
    rw [numeric_huge] at h
    refine .obj ?_
    show AlikeEntries _ _ _ ([] ++ ("limit", .int (10 ^ 23)) :: [])
    exact .cons rfl (.leaf h) .nil
  · intro hexdigest hinj heq
    have hforms := hinj heq
    revert hforms
    decide +kernel

end RevenueOS.Workflows
