import Mathlib.Logic.Relation
import Mathlib.Data.Set.Insert
import Mathlib.Data.List.Nodup
import Mathlib.Algebra.Ring.Nat

/-!
# RevenueOS.Lib.Traversal — worklist traversals of an acyclic graph

A traversal takes a node from a queue, and either skips it (it was seen) or appends its successors.  Some
nodes run: they are seen once and logged.  A node that does not run may be expanded again.

* `Front.Sound`: the invariant of a traversal started from a list of roots.
* `Front.Sound.cover`: the frontier cut; what the roots reach is seen, or reached from the queue.
* `exists_weight`: on an acyclic graph every advance makes the queue lighter.
-/

namespace RevenueOS.Lib

open Relation

section Traversal

variable {α : Type} (next : α → List α) (runs : α → Prop)

/-- An edge of the graph. -/
def Succ (x y : α) : Prop := y ∈ next x

/-- Reachable from one of the roots. -/
def ReachedFrom (roots : List α) (x : α) : Prop := ∃ r ∈ roots, ReflTransGen (Succ next) r x

/-- The queue, the nodes seen, and the nodes run in order. -/
structure Front (α : Type) where
  queue : List α
  seen : Set α
  log : List α

/-- One turn of a traversal. -/
inductive Front.Advance : Front α → Front α → Prop
  | skip {x : α} {rest : List α} {seen : Set α} {log : List α} (old : x ∈ seen) :
      Advance ⟨x :: rest, seen, log⟩ ⟨rest, seen, log⟩
  | expand {x : α} {rest : List α} {seen : Set α} {log : List α} (quiet : ¬ runs x) :
      Advance ⟨x :: rest, seen, log⟩ ⟨rest ++ next x, insert x seen, log⟩
  | run {x : α} {rest : List α} {seen : Set α} {log : List α} (runs : runs x) (fresh : x ∉ seen) :
      Advance ⟨x :: rest, seen, log⟩ ⟨rest ++ next x, insert x seen, log ++ [x]⟩

/-- The invariant of a traversal from `roots`. -/
structure Front.Sound (roots : List α) (f : Front α) : Prop where
  rooted : ∀ r ∈ roots, r ∈ f.seen ∨ r ∈ f.queue
  reached : ∀ x, x ∈ f.seen ∨ x ∈ f.queue → ReachedFrom next roots x
  closed : ∀ x ∈ f.seen, ∀ y ∈ next x, y ∈ f.seen ∨ y ∈ f.queue
  once : f.log.Nodup
  logged : ∀ x, x ∈ f.log ↔ x ∈ f.seen ∧ runs x

variable {next runs} {roots : List α} {f f' : Front α}

theorem ReachedFrom.step {x y : α} (h : ReachedFrom next roots x) (hy : y ∈ next x) : ReachedFrom next roots y := by
  obtain ⟨r, hr, hx⟩ := h
  exact ⟨r, hr, hx.tail hy⟩

theorem ReachedFrom.trans {mid : List α} (h : ∀ m ∈ mid, ReachedFrom next roots m) {x : α}
    (hx : ReachedFrom next mid x) : ReachedFrom next roots x := by
  obtain ⟨m, hm, hx⟩ := hx
  obtain ⟨r, hr, hm⟩ := h m hm
  exact ⟨r, hr, hm.trans hx⟩

namespace Front

theorem sound_start (roots : List α) : Sound next runs roots ⟨roots, ∅, []⟩ where
  rooted _ hr := Or.inr hr
  reached x hx := by
    rcases hx with hx | hx
    · cases hx
    · exact ⟨x, hx, .refl⟩
  closed _ hx := by cases hx
  once := List.nodup_nil
  logged x := by simp

/-- What an expanded node leaves behind. -/
theorem Sound.expanded {x : α} {rest : List α} {seen : Set α} {log : List α}
    (h : Sound next runs roots ⟨x :: rest, seen, log⟩) :
    (∀ r ∈ roots, r ∈ insert x seen ∨ r ∈ rest ++ next x) ∧
      (∀ y, y ∈ insert x seen ∨ y ∈ rest ++ next x → ReachedFrom next roots y) ∧
      ∀ y ∈ insert x seen, ∀ z ∈ next y, z ∈ insert x seen ∨ z ∈ rest ++ next x := by
  have hx : ReachedFrom next roots x := h.reached x (Or.inr List.mem_cons_self)
  -- what was seen or queued still is
  have hkeep : ∀ {y}, y ∈ seen ∨ y ∈ x :: rest → y ∈ insert x seen ∨ y ∈ rest ++ next x := by
    rintro y (hy | hy)
    · exact Or.inl (Set.mem_insert_of_mem x hy)
    · rcases List.mem_cons.mp hy with rfl | hy
      · exact Or.inl (Set.mem_insert y seen)
      · exact Or.inr (List.mem_append_left _ hy)
  refine ⟨fun r hr => hkeep (h.rooted r hr), ?_, ?_⟩
  · rintro y (hy | hy)
    · rcases Set.mem_insert_iff.mp hy with rfl | hy
      · exact hx
      · exact h.reached y (Or.inl hy)
    · rcases List.mem_append.mp hy with hy | hy
      · exact h.reached y (Or.inr (List.mem_cons_of_mem x hy))
      · exact hx.step hy
  · intro y hy z hz
    rcases Set.mem_insert_iff.mp hy with rfl | hy
    · exact Or.inr (List.mem_append_right _ hz)
    · exact hkeep (h.closed y hy z hz)

/-- **A turn** keeps the invariant. -/
theorem Sound.advance (h : Sound next runs roots f) (hf : Advance next runs f f') : Sound next runs roots f' := by
  cases hf with
  | @skip x rest seen log old =>
    have hkeep : ∀ {y}, y ∈ seen ∨ y ∈ x :: rest → y ∈ seen ∨ y ∈ rest := by
      rintro y (hy | hy)
      · exact Or.inl hy
      · rcases List.mem_cons.mp hy with rfl | hy
        · exact Or.inl old
        · exact Or.inr hy
    exact ⟨fun r hr => hkeep (h.rooted r hr),
      fun y hy => h.reached y (hy.imp_right (List.mem_cons_of_mem x)),
      fun y hy z hz => hkeep (h.closed y hy z hz), h.once, h.logged⟩
  | @expand x rest seen log quiet =>
    obtain ⟨h1, h2, h3⟩ := h.expanded
    refine ⟨h1, h2, h3, h.once, ?_⟩
    intro y
    rw [h.logged, Set.mem_insert_iff]
    constructor
    · exact fun hy => ⟨Or.inr hy.1, hy.2⟩
    · rintro ⟨rfl | hy, hr⟩
      · exact absurd hr quiet
      · exact ⟨hy, hr⟩
  | @run x rest seen log runs fresh =>
    obtain ⟨h1, h2, h3⟩ := h.expanded
    have hnew : x ∉ log := fun hx => fresh ((h.logged x).mp hx).1
    refine ⟨h1, h2, h3, ?_, ?_⟩
    · rw [List.nodup_append]
      refine ⟨h.once, List.nodup_singleton x, ?_⟩
      rintro a ha b hb rfl
      exact hnew (List.mem_singleton.mp hb ▸ ha)
    · intro y
      rw [List.mem_append, List.mem_singleton, h.logged, Set.mem_insert_iff]
      constructor
      · rintro (hy | rfl)
        · exact ⟨Or.inr hy.1, hy.2⟩
        · exact ⟨Or.inl rfl, runs⟩
      · rintro ⟨rfl | hy, hr⟩
        · exact Or.inr rfl
        · exact Or.inl ⟨hy, hr⟩

/-- **The frontier cut.** -/
theorem Sound.cover (h : Sound next runs roots f) {x : α} (hx : ReachedFrom next roots x) :
    x ∈ f.seen ∨ ReachedFrom next f.queue x := by
  obtain ⟨r, hr, hx⟩ := hx
  induction hx with
  | refl =>
    rcases h.rooted r hr with hs | hq
    · exact Or.inl hs
    · exact Or.inr ⟨r, hq, .refl⟩
  | @tail y z _ hyz ih =>
    rcases ih with hy | hy
    · rcases h.closed y hy z hyz with hz | hz
      · exact Or.inl hz
      · exact Or.inr ⟨z, hz, .refl⟩
    · exact Or.inr (hy.step hyz)

/-- What a finished traversal has logged. -/
theorem Sound.finished (h : Sound next runs roots f) (hq : f.queue = []) (x : α) :
    x ∈ f.log ↔ runs x ∧ ReachedFrom next roots x := by
  rw [h.logged]
  constructor
  · exact fun hx => ⟨hx.2, h.reached x (Or.inl hx.1)⟩
  · rintro ⟨hr, hx⟩
    rcases h.cover hx with hs | ⟨q, hq', -⟩
    · exact ⟨hs, hr⟩
    · rw [hq] at hq'
      cases hq'

/-- The weight of the queue. -/
def weight (wt : α → ℕ) (f : Front α) : ℕ := (f.queue.map wt).sum

theorem Advance.weight_lt {wt : α → ℕ} (hwt : ∀ x, ((next x).map wt).sum < wt x) (hf : Advance next runs f f') :
    f'.weight wt < f.weight wt := by
  cases hf with
  | @skip x rest seen log old =>
    have := hwt x
    simp only [weight, List.map_cons, List.sum_cons]
    omega
  | @expand x rest seen log quiet =>
    have := hwt x
    simp only [weight, List.map_cons, List.map_append, List.sum_cons, List.sum_append]
    omega
  | @run x rest seen log runs fresh =>
    have := hwt x
    simp only [weight, List.map_cons, List.map_append, List.sum_cons, List.sum_append]
    omega

end Front

/-- On an acyclic graph, a node can weigh more than its successors together. -/
theorem exists_weight (h : WellFounded (fun y x => y ∈ next x)) :
    ∃ wt : α → ℕ, ∀ x, ((next x).map wt).sum < wt x := by
  let wt : α → ℕ := h.fix (fun x rec => 1 + ((next x).attach.map (fun y => rec y.1 y.2)).sum)
  refine ⟨wt, ?_⟩
  intro x
  have hx : wt x = 1 + ((next x).attach.map (fun y => wt y.1)).sum := h.fix_eq _ x
  rw [hx, List.attach_map_val]
  omega

end Traversal

end RevenueOS.Lib
