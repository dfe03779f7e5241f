import RevenueOS.Workflows.Validity
import RevenueOS.Lib.Trace
import Mathlib.Data.Set.Insert

/-!
# RevenueOS.Workflows.Tags — concurrent tag actions on one contact

The `tag.add` and `tag.remove` branch of `_apply_action` reads a contact's tags in the transaction of
`ContactService.get`, and writes the changed list in the transaction of `ContactService.update`, which loads the
row again and passes no expected version.  The advisory lock of `_execute_once` belongs to one action; actions of
different executions or nodes interleave freely.

Each action goes through `get`, `load` and `commit`; `fail` ends an attempt anywhere before the commit (a
missing contact, a worker that dies), after which the action may be attempted again.  Once an action has
committed, its receipt keeps later attempts from applying it.  The update leaves the column alone when the new
list equals the one it loaded.  Tags are compared as `_apply_action` reads them, by `str`.
-/

namespace RevenueOS.Workflows

open RevenueOS.Py RevenueOS.Lib

/-! ## Actions -/

inductive TagKind where
  | add | remove
deriving DecidableEq, Repr

structure TagAction where
  kind : TagKind
  payload : Dict

namespace TagAction

/-- `str(payload.get("tag") or "").strip()`. -/
def tag (a : TagAction) : String := strip ((a.payload.get "tag").or (.str "")).text

/-- `tags.add(tag) if action == "tag.add" else tags.discard(tag)`. -/
def apply (a : TagAction) (tags : List String) : List String :=
  match a.kind with
  | .add => insertId tags a.tag
  | .remove => tags.filter (· != a.tag)

/-- `sorted(tags)` after the change. -/
def newTags (a : TagAction) (tags : List String) : List String := (a.apply tags).insertionSort (· ≤ ·)

/-- What the action is for: its tag is in the set afterwards, or is not. -/
def effect (a : TagAction) (S : Set String) : Set String :=
  match a.kind with
  | .add => insert a.tag S
  | .remove => S \ {a.tag}

theorem mem_newTags {a : TagAction} {tags : List String} {t : String} :
    t ∈ a.newTags tags ↔ t ∈ a.effect {t | t ∈ tags} := by
  unfold newTags apply effect
  rw [List.mem_insertionSort]
  cases a.kind with
  | add =>
    rw [mem_insertId, Set.mem_insert_iff]
    exact or_comm
  | remove => simp

/-- The effect looks at no tag but the action's own. -/
theorem effect_congr {a : TagAction} {S T : Set String} (h : ∀ t, t ≠ a.tag → (t ∈ S ↔ t ∈ T)) :
    a.effect S = a.effect T := by
  ext t
  unfold effect
  by_cases ht : t = a.tag
  · cases a.kind <;> simp [ht]
  · cases a.kind <;> simp [ht, h t ht]

end TagAction

/-- `{str(tag) for tag in contact.get("tags", [])}`. -/
def readTags (stored : List Json) : List String := (stored.map Json.text).foldl insertId []

/-- The tags of a contact, as a set. -/
def tagSet (stored : List Json) : Set String := {t | t ∈ stored.map Json.text}

theorem mem_readTags {stored : List Json} {t : String} : t ∈ readTags stored ↔ t ∈ tagSet stored := by
  unfold readTags tagSet
  rw [mem_foldl_insertId]
  simp

/-! ## Interleavings -/

/-- Where an action stands: the tags it read, and the row its update loaded. -/
inductive TagPhase where
  | idle
  | got (tags : List String)
  | loaded (tags : List String) (row : List Json)
  | done

/-- The stored column, the actions, and the order of their commits (which the program does not keep). -/
structure TagState (ι : Type) where
  stored : List Json
  phase : ι → TagPhase
  committed : List ι

inductive TagStep (ι : Type) where
  | get (i : ι)
  | load (i : ι)
  | commit (i : ι)
  | fail (i : ι)
deriving DecidableEq

/-- The new list equals the loaded one: the update writes no tags. -/
def unchanged (a : TagAction) (tags : List String) (row : List Json) : Bool :=
  (Json.arr ((a.newTags tags).map .str)).pyEq (.arr row)

/-- The column after the update of `a`. -/
def writeTags (a : TagAction) (tags : List String) (row stored : List Json) : List Json :=
  if unchanged a tags row then stored else (a.newTags tags).map .str

section Run

variable {ι : Type} [DecidableEq ι] (actions : ι → TagAction)

namespace TagState

def start (stored : List Json) : TagState ι := ⟨stored, fun _ => .idle, []⟩

def setPhase (s : TagState ι) (i : ι) (p : TagPhase) : TagState ι := { s with phase := Function.update s.phase i p }

def step (s : TagState ι) : TagStep ι → TagState ι
  | .get i =>
    match s.phase i with
    | .idle => s.setPhase i (.got (readTags s.stored))
    | _ => s
  | .load i =>
    match s.phase i with
    | .got tags =>
      -- without a tag the action raises `ValidationError` before the update
      if (actions i).tag = "" then s.setPhase i .idle else s.setPhase i (.loaded tags s.stored)
    | _ => s
  | .commit i =>
    match s.phase i with
    | .loaded tags row =>
      { s.setPhase i .done with
        stored := writeTags (actions i) tags row s.stored
        committed := s.committed ++ [i] }
    | _ => s
  | .fail i =>
    match s.phase i with
    | .done => s
    | _ => s.setPhase i .idle

end TagState

/-- The set after the actions of `order`, one after another. -/
def inSequence (order : List ι) (S : Set String) : Set String := order.foldl (fun S i => (actions i).effect S) S

/-- The tags are those of some sequence of all the actions that succeeded. -/
def NoLostUpdate (initial : List Json) (s : TagState ι) : Prop :=
  ∃ order : List ι, order.Nodup ∧ (∀ i, i ∈ order ↔ s.phase i = .done) ∧
    tagSet s.stored = inSequence actions order (tagSet initial)

/-- The condition on a step: an action that commits has read the stored tags up to its own one; and if it
writes nothing, its own tag is already as it wants. -/
def ReadsCurrent (s : TagState ι) (l : TagStep ι) : Prop :=
  ∀ i tags row, l = .commit i → s.phase i = .loaded tags row →
    (∀ t, t ≠ (actions i).tag → (t ∈ tags ↔ t ∈ tagSet s.stored)) ∧
      (unchanged (actions i) tags row = true → (actions i).effect (tagSet s.stored) = tagSet s.stored)

variable {actions}

/-- A commit that reads current tags has exactly its effect. -/
theorem writeTags_effect {a : TagAction} {tags : List String} {row stored : List Json}
    (hread : ∀ t, t ≠ a.tag → (t ∈ tags ↔ t ∈ tagSet stored))
    (hsame : unchanged a tags row = true → a.effect (tagSet stored) = tagSet stored) :
    tagSet (writeTags a tags row stored) = a.effect (tagSet stored) := by
  unfold writeTags
  split_ifs with hu
  · exact (hsame hu).symm
  · have heffect : a.effect {t | t ∈ tags} = a.effect (tagSet stored) := TagAction.effect_congr hread
    rw [← heffect]
    ext t
    rw [← TagAction.mem_newTags]
    simp [tagSet]

theorem eq_of_pyEqList : ∀ {xs : List String} {ys : List Json},
    Json.pyEqList (xs.map .str) ys = true → ys = xs.map .str
  | [], [], _ => rfl
  | x :: xs, y :: ys, h => by
    rw [List.map_cons, Json.pyEqList, Bool.and_eq_true, str_pyEq] at h
    rw [List.map_cons, h.1, eq_of_pyEqList h.2]

omit [DecidableEq ι] in
/-- An action reads current tags if nobody else writes between its `get` and its commit. -/
theorem readsCurrent_of_undisturbed {s : TagState ι} {i : ι}
    (h : s.phase i = .loaded (readTags s.stored) s.stored) : ReadsCurrent actions s (.commit i) := by
  intro j tags row hj hphase
  obtain rfl := TagStep.commit.inj hj
  obtain ⟨rfl, rfl⟩ := TagPhase.loaded.inj (h.symm.trans hphase)
  have heffect : (actions i).effect {t | t ∈ readTags s.stored} = (actions i).effect (tagSet s.stored) :=
    TagAction.effect_congr fun _ _ => mem_readTags
  refine ⟨fun t _ => mem_readTags, fun hu => ?_⟩
  have hrow := eq_of_pyEqList hu
  rw [← heffect]
  ext t
  rw [← TagAction.mem_newTags]
  conv_rhs => rw [hrow]
  simp [tagSet]

/-- The invariant: the commits so far, in their order, account for the stored tags. -/
structure TagInv (actions : ι → TagAction) (initial : List Json) (s : TagState ι) : Prop where
  once : s.committed.Nodup
  done : ∀ i, i ∈ s.committed ↔ s.phase i = .done
  tags : tagSet s.stored = inSequence actions s.committed (tagSet initial)

theorem TagInv.setPhase {initial : List Json} {s : TagState ι} (h : TagInv actions initial s) {i : ι} {p : TagPhase}
    (hi : s.phase i ≠ .done) (hp : p ≠ .done) : TagInv actions initial (s.setPhase i p) := by
  refine ⟨h.once, fun j => ?_, h.tags⟩
  change j ∈ s.committed ↔ Function.update s.phase i p j = .done
  by_cases hj : j = i
  · subst hj
    simp [h.done, hi, hp]
  · rw [Function.update_of_ne hj]
    exact h.done j

theorem TagInv.commit {initial : List Json} {s : TagState ι} (h : TagInv actions initial s) {i : ι}
    {tags : List String} {row : List Json} (hi : s.phase i = .loaded tags row)
    (hok : ReadsCurrent actions s (.commit i)) : TagInv actions initial
      { s.setPhase i .done with
        stored := writeTags (actions i) tags row s.stored
        committed := s.committed ++ [i] } := by
  obtain ⟨hread, hsame⟩ := hok i tags row rfl hi
  have hnew : i ∉ s.committed := by
    rw [h.done, hi]
    exact TagPhase.noConfusion
  refine ⟨?_, fun j => ?_, ?_⟩
  · rw [List.nodup_append]
    refine ⟨h.once, List.nodup_singleton i, ?_⟩
    rintro a ha b hb rfl
    exact hnew (List.mem_singleton.mp hb ▸ ha)
  · change j ∈ s.committed ++ [i] ↔ Function.update s.phase i .done j = .done
    rw [List.mem_append, List.mem_singleton]
    by_cases hj : j = i
    · subst hj
      simp
    · rw [Function.update_of_ne hj, h.done]
      simp [hj]
  · change tagSet (writeTags (actions i) tags row s.stored) = inSequence actions (s.committed ++ [i]) (tagSet initial)
    rw [writeTags_effect hread hsame, h.tags]
    unfold inSequence
    rw [List.foldl_append]
    rfl

/-- **One step** that reads current tags keeps the invariant. -/
theorem TagInv.step {initial : List Json} {s : TagState ι} (h : TagInv actions initial s) (l : TagStep ι)
    (hok : ReadsCurrent actions s l) : TagInv actions initial (s.step actions l) := by
  cases l with
  | get i =>
    simp only [TagState.step]
    split
    · rename_i hi
      exact h.setPhase (by simp [hi]) TagPhase.noConfusion
    · exact h
  | load i =>
    simp only [TagState.step]
    split
    · rename_i tags hi
      split_ifs
      · exact h.setPhase (by simp [hi]) TagPhase.noConfusion
      · exact h.setPhase (by simp [hi]) TagPhase.noConfusion
    · exact h
  | commit i =>
    simp only [TagState.step]
    split
    · rename_i tags row hi
      exact h.commit hi hok
    · exact h
  | fail i =>
    simp only [TagState.step]
    split
    · exact h
    · rename_i hi
      exact h.setPhase hi TagPhase.noConfusion

omit [DecidableEq ι] in
theorem TagInv.start (initial : List Json) : TagInv actions initial (TagState.start initial) :=
  ⟨List.nodup_nil, fun i => by simp [TagState.start], rfl⟩

/-- **No lost update.**  In a run in which every action that commits has read the current tags, the tags are
always those of the successful actions in sequence. -/
theorem no_lost_update (actions : ι → TagAction) (initial : List Json) (steps : List (TagStep ι))
    (h : Meets (TagState.step actions) (ReadsCurrent actions) (.start initial) steps) :
    Always (TagState.step actions) (NoLostUpdate actions initial) (.start initial) steps := by
  refine always_of_inv (TagInv actions initial) (fun s hs => ?_) (fun s l hs hl => hs.step l hl) steps _
    (TagInv.start initial) h
  exact ⟨s.committed, hs.once, hs.done, hs.tags⟩

omit [DecidableEq ι] in
/-- A tag that was added is in the set, if nothing is ever removed. -/
theorem mem_inSequence {i : ι} (hadd : ∀ j, (actions j).kind = .add) : ∀ {order : List ι} {S : Set String},
    i ∈ order ∨ (actions i).tag ∈ S → (actions i).tag ∈ inSequence actions order S
  | [], S, h => h.elim (fun hi => absurd hi List.not_mem_nil) id
  | j :: order, S, h => by
    have heffect : (actions j).effect S = insert (actions j).tag S := by simp [TagAction.effect, hadd j]
    change (actions i).tag ∈ inSequence actions order ((actions j).effect S)
    rw [heffect]
    refine mem_inSequence hadd ?_
    rcases h with h | h
    · rcases List.mem_cons.mp h with rfl | h
      · exact Or.inr (Set.mem_insert _ _)
      · exact Or.inl h
    · exact Or.inr (Set.mem_insert_of_mem _ h)

end Run

/-- Two executions add a tag each to the same contact. -/
def addBoth : Bool → TagAction
  | false => ⟨.add, [("tag", .str "vip")]⟩
  | true => ⟨.add, [("tag", .str " lead ")]⟩

/-- One after the other. -/
def inTurn : List (TagStep Bool) :=
  [.get false, .load false, .commit false, .get true, .load true, .commit true]

/-- Both read before either writes. -/
def overlapping : List (TagStep Bool) :=
  [.get false, .get true, .load false, .commit false, .load true, .commit true]

/-- Actions in turn read current tags, and both tags are kept. -/
theorem inTurn_keeps :
    Meets (TagState.step addBoth) (ReadsCurrent addBoth) (.start []) inTurn ∧
      NoLostUpdate addBoth [] (after (TagState.step addBoth) (.start []) inTurn) := by
  have hidle : ∀ (s : TagState Bool) (l : TagStep Bool), (∀ i, l ≠ .commit i) → ReadsCurrent addBoth s l :=
    fun s l hl i _ _ h => absurd h (hl i)
  have hmeets : Meets (TagState.step addBoth) (ReadsCurrent addBoth) (.start []) inTurn := by
    refine ⟨hidle _ _ (by decide), hidle _ _ (by decide), readsCurrent_of_undisturbed ?_, hidle _ _ (by decide),
      hidle _ _ (by decide), readsCurrent_of_undisturbed ?_, trivial⟩
    · rfl
    · rfl
  exact ⟨hmeets, always_last (no_lost_update addBoth [] inTurn hmeets)⟩

/-- Where both read before either writes, the first tag is lost. -/
theorem overlapping_loses :
    ¬ NoLostUpdate addBoth [] (after (TagState.step addBoth) (.start []) overlapping) := by
  rintro ⟨order, -, hdone, htags⟩
  have hvip : "vip" ∈ inSequence addBoth order (tagSet []) := by
    have htag : (addBoth false).tag = "vip" := by decide +kernel
    rw [← htag]
    exact mem_inSequence (by decide) (Or.inl ((hdone false).mpr rfl))
  have hstored : (after (TagState.step addBoth) (.start []) overlapping).stored.map Json.text = ["lead"] := by
    decide +kernel
  rw [← htags, tagSet, hstored] at hvip
  simp at hvip

end RevenueOS.Workflows
