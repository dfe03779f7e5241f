import Mathlib.Data.Fintype.EquivFin
import Mathlib.Data.List.Basic
import Mathlib.Logic.Relation
import Mathlib.Tactic.Set

/-!
# RevenueOS.Lib.Digraph — searches over a finite directed graph given by adjacency lists

* `stackSearch next goal`: the usual stack search with a `seen` set; `stackReach` collects what it sees, which is
  what can be reached (`mem_stackReach_iff`).
* `visit`, `findsCycle`: three-colour depth-first cycle detection.  `fuel` bounds the recursion depth; a
  search that runs out of it answers `true`, so that `false` is always a certificate.
* `findsCycle_acc`: if no cycle is found, every listed node is accessible for the edge relation, i.e. the
  part of the graph below the listed nodes has no infinite path.
* `findsCycle_iff`: with fuel for all nodes, a cycle is found exactly if there is one.
* `searchDepth`: how deep the visits of a search nest.
* `exists_source`: without cycles, every node can be reached from one without predecessors.
-/

namespace RevenueOS.Lib

open Relation

variable {α : Type} [DecidableEq α]

/-! ## Stack searches -/

/-- Pop, skip what was seen, stop at a goal, else push the neighbours (the last one on top). -/
def stackSearch (next : α → List α) (goal : α → Bool) : ℕ → List α → List α → Bool
  | 0, _, _ => false
  | _ + 1, _, [] => false
  | fuel + 1, seen, x :: stack =>
    if x ∈ seen then stackSearch next goal fuel seen stack
    else if goal x then true
    else stackSearch next goal fuel (x :: seen) ((next x).reverse ++ stack)

/-- The nodes a stack search sees. -/
def stackReach (next : α → List α) : ℕ → List α → List α → List α
  | 0, seen, _ => seen
  | _ + 1, seen, [] => seen
  | fuel + 1, seen, x :: stack =>
    if x ∈ seen then stackReach next fuel seen stack
    else stackReach next fuel (x :: seen) ((next x).reverse ++ stack)

section Reach

variable {next : α → List α}

/-- What a stack search sees, it had seen or can be reached from its stack. -/
theorem reached_of_stackReach : ∀ (fuel : ℕ) (seen stack : List α) (x : α), x ∈ stackReach next fuel seen stack →
    x ∈ seen ∨ ∃ s ∈ stack, ReflTransGen (fun u v => v ∈ next u) s x := by
  intro fuel
  induction fuel with
  | zero => exact fun _ _ _ h => .inl h
  | succ fuel ih =>
    intro seen stack x h
    cases stack with
    | nil => exact .inl h
    | cons s stack =>
      rw [stackReach] at h
      split_ifs at h with hs
      · rcases ih _ _ x h with h | ⟨y, hy, hyx⟩
        · exact .inl h
        · exact .inr ⟨y, List.mem_cons_of_mem s hy, hyx⟩
      · rcases ih _ _ x h with h | ⟨y, hy, hyx⟩
        · rcases List.mem_cons.mp h with rfl | h
          · exact .inr ⟨x, List.mem_cons_self, .refl⟩
          · exact .inl h
        · rcases List.mem_append.mp hy with hy | hy
          · exact .inr ⟨s, List.mem_cons_self, .head (List.mem_reverse.mp hy) hyx⟩
          · exact .inr ⟨y, List.mem_cons_of_mem s hy, hyx⟩

/-- The edges that a search may still push. -/
def unseenEdges (edges : List (α × α)) (seen : List α) : ℕ := edges.countP fun e => e.1 ∉ seen

/-- A node that is seen gives up its edges. -/
theorem unseenEdges_cons (edges : List (α × α)) {seen : List α} {x : α} (hx : x ∉ seen) :
    unseenEdges edges (x :: seen) + edges.countP (fun e => e.1 = x) = unseenEdges edges seen := by
  unfold unseenEdges
  induction edges with
  | nil => rfl
  | cons e edges ih =>
    rw [List.countP_cons, List.countP_cons, List.countP_cons]
    by_cases he : e.1 = x
    · subst he
      rw [if_neg (by simp), if_pos (by simp), if_pos (by simpa using hx)]
      omega
    · have hcons : (e.1 ∉ x :: seen) = (e.1 ∉ seen) := by simp [he]
      simp only [he, hcons, decide_false, Bool.false_eq_true, if_false]
      omega

/-- **A stack search that has fuel for its stack and its edges sees all that it can reach.** -/
theorem stackReach_closed {edges : List (α × α)} (hnext : ∀ x, (next x).length ≤ edges.countP fun e => e.1 = x) :
    ∀ (fuel : ℕ) (seen stack : List α), stack.length + unseenEdges edges seen ≤ fuel →
      (∀ x ∈ seen, ∀ y ∈ next x, y ∈ seen ∨ y ∈ stack) →
      (∀ x, x ∈ seen ∨ x ∈ stack → x ∈ stackReach next fuel seen stack) ∧
        ∀ x ∈ stackReach next fuel seen stack, ∀ y ∈ next x, y ∈ stackReach next fuel seen stack := by
  intro fuel
  induction fuel with
  | zero =>
    intro seen stack hfuel hclosed
    obtain rfl : stack = [] := List.eq_nil_of_length_eq_zero (by omega)
    have hor : ∀ {x}, x ∈ seen ∨ x ∈ ([] : List α) → x ∈ seen := fun h => h.resolve_right List.not_mem_nil
    exact ⟨fun x hx => hor hx, fun x hx y hy => hor (hclosed x hx y hy)⟩
  | succ fuel ih =>
    intro seen stack hfuel hclosed
    cases stack with
    | nil =>
      have hor : ∀ {x}, x ∈ seen ∨ x ∈ ([] : List α) → x ∈ seen := fun h => h.resolve_right List.not_mem_nil
      exact ⟨fun x hx => hor hx, fun x hx y hy => hor (hclosed x hx y hy)⟩
    | cons s stack =>
      rw [stackReach]
      rw [List.length_cons] at hfuel
      split_ifs with hs
      · obtain ⟨hkeep, hout⟩ := ih seen stack (by omega) fun x hx y hy => by
          rcases hclosed x hx y hy with h | h
          · exact .inl h
          · rcases List.mem_cons.mp h with rfl | h
            · exact .inl hs
            · exact .inr h
        refine ⟨fun x hx => hkeep x ?_, hout⟩
        rcases hx with hx | hx
        · exact .inl hx
        · rcases List.mem_cons.mp hx with rfl | hx
          · exact .inl hs
          · exact .inr hx
      · have hless := unseenEdges_cons edges hs
        have hpushed := hnext s
        obtain ⟨hkeep, hout⟩ := ih (s :: seen) ((next s).reverse ++ stack)
          (by rw [List.length_append, List.length_reverse]; omega) fun x hx y hy => by
            rcases List.mem_cons.mp hx with rfl | hx
            · exact .inr (List.mem_append_left _ (List.mem_reverse.mpr hy))
            · rcases hclosed x hx y hy with h | h
              · exact .inl (List.mem_cons_of_mem s h)
              · rcases List.mem_cons.mp h with rfl | h
                · exact .inl List.mem_cons_self
                · exact .inr (List.mem_append_right _ h)
        refine ⟨fun x hx => hkeep x ?_, hout⟩
        rcases hx with hx | hx
        · exact .inl (List.mem_cons_of_mem s hx)
        · rcases List.mem_cons.mp hx with rfl | hx
          · exact .inl List.mem_cons_self
          · exact .inr (List.mem_append_right _ hx)

/-- **What a stack search sees** from one node. -/
theorem mem_stackReach_iff {edges : List (α × α)} (hnext : ∀ x, (next x).length ≤ edges.countP fun e => e.1 = x)
    {fuel : ℕ} (hfuel : edges.length + 1 ≤ fuel) {s x : α} :
    x ∈ stackReach next fuel [] [s] ↔ ReflTransGen (fun u v => v ∈ next u) s x := by
  constructor
  · intro h
    rcases reached_of_stackReach fuel [] [s] x h with h | ⟨y, hy, hyx⟩
    · cases h
    · rwa [List.mem_singleton.mp hy] at hyx
  · intro h
    have hcount : unseenEdges edges [] ≤ edges.length := List.countP_le_length
    obtain ⟨hkeep, hout⟩ := stackReach_closed hnext fuel [] [s] (by rw [List.length_singleton]; omega)
      fun x hx => (List.not_mem_nil hx).elim
    induction h with
    | refl => exact hkeep s (.inr List.mem_cons_self)
    | tail _ hyz ih => exact hout _ ih _ hyz

end Reach

/-! ## Cycle detection -/

inductive Colour where
  | white | grey | black
deriving DecidableEq, Repr

/-- One neighbour `m` of a visit: a grey one closes a cycle, a white one is visited in turn. -/
def visitStep (rec : (α → Colour) → α → Bool × (α → Colour)) (acc : Bool × (α → Colour)) (m : α) :
    Bool × (α → Colour) :=
  if acc.1 then acc
  else
    match acc.2 m with
    | .grey => (true, acc.2)
    | .white => rec acc.2 m
    | .black => acc

/-- Depth-first visit of `n`: `true` when a grey node is met again. -/
def visit (adj : α → List α) : ℕ → (α → Colour) → α → Bool × (α → Colour)
  | 0, c, _ => (true, c)
  | fuel + 1, c, n =>
    let r := (adj n).foldl (visitStep (visit adj fuel)) (false, Function.update c n .grey)
    if r.1 then r else (false, Function.update r.2 n .black)

/-- Visit every node that is still white. -/
def findsCycle (adj : α → List α) (fuel : ℕ) : List α → (α → Colour) → Bool
  | [], _ => false
  | n :: ns, c =>
    if c n = .white then
      let r := visit adj fuel c n
      if r.1 then true else findsCycle adj fuel ns r.2
    else findsCycle adj fuel ns c

/-! ## The depth of a search -/

/-- One neighbour of a visit, with how deep the visits have nested so far. -/
def depthStep (visits : (α → Colour) → α → Bool × (α → Colour)) (depths : (α → Colour) → α → ℕ)
    (acc : (Bool × (α → Colour)) × ℕ) (m : α) : (Bool × (α → Colour)) × ℕ :=
  (visitStep visits acc.1 m, if acc.1.1 = false ∧ acc.1.2 m = .white then max acc.2 (depths acc.1.2 m) else acc.2)

/-- How deep the visits nest in a visit of `n`, itself counted. -/
def visitDepth (adj : α → List α) : ℕ → (α → Colour) → α → ℕ
  | 0, _, _ => 0
  | fuel + 1, c, n =>
    ((adj n).foldl (depthStep (visit adj fuel) (visitDepth adj fuel)) ((false, Function.update c n .grey), 0)).2 + 1

/-- How deep they nest in the whole search. -/
def searchDepth (adj : α → List α) (fuel : ℕ) : List α → (α → Colour) → ℕ
  | [], _ => 0
  | n :: ns, c =>
    if c n = .white then
      let r := visit adj fuel c n
      max (visitDepth adj fuel c n) (if r.1 then 0 else searchDepth adj fuel ns r.2)
    else searchDepth adj fuel ns c

theorem visitDepth_le (adj : α → List α) : ∀ (fuel : ℕ) (c : α → Colour) (n : α), visitDepth adj fuel c n ≤ fuel
  | 0, _, _ => le_refl 0
  | fuel + 1, c, n => by
    have hfold : ∀ (l : List α) (acc : (Bool × (α → Colour)) × ℕ), acc.2 ≤ fuel →
        (l.foldl (depthStep (visit adj fuel) (visitDepth adj fuel)) acc).2 ≤ fuel := by
      intro l
      induction l with
      | nil => exact fun _ h => h
      | cons m l ih =>
        intro acc h
        refine ih _ ?_
        simp only [depthStep]
        split_ifs
        · exact max_le h (visitDepth_le adj fuel _ m)
        · exact h
    exact Nat.succ_le_succ (hfold (adj n) _ (Nat.zero_le fuel))

/-- A search nests no deeper than its fuel. -/
theorem searchDepth_le (adj : α → List α) (fuel : ℕ) : ∀ (ns : List α) (c : α → Colour),
    searchDepth adj fuel ns c ≤ fuel
  | [], _ => Nat.zero_le fuel
  | n :: ns, c => by
    rw [searchDepth]
    split_ifs
    · refine max_le (visitDepth_le adj fuel c n) ?_
      split_ifs
      · exact Nat.zero_le fuel
      · exact searchDepth_le adj fuel ns _
    · exact searchDepth_le adj fuel ns c

section Sound

variable {adj : α → List α}

/-- `v` is a child of `u`. -/
def Child (adj : α → List α) (v u : α) : Prop := v ∈ adj u

/-- What a visit that finds no cycle does to the colours. -/
structure Clean (adj : α → List α) (c c' : α → Colour) : Prop where
  black : ∀ x, c x = .black → c' x = .black
  grey : ∀ x, c' x = .grey → c x = .grey
  acc : (∀ x, c x = .black → Acc (Child adj) x) → ∀ x, c' x = .black → Acc (Child adj) x

omit [DecidableEq α] in
theorem Clean.refl (c : α → Colour) : Clean adj c c := ⟨fun _ h => h, fun _ h => h, fun h => h⟩

omit [DecidableEq α] in
theorem Clean.trans {c c' c'' : α → Colour} (h : Clean adj c c') (h' : Clean adj c' c'') :
    Clean adj c c'' :=
  ⟨fun x hx => h'.black x (h.black x hx), fun x hx => h.grey x (h'.grey x hx),
    fun ha => h'.acc (h.acc ha)⟩

omit [DecidableEq α] in
theorem foldl_visitStep_true (rec : (α → Colour) → α → Bool × (α → Colour)) (l : List α) (c : α → Colour) :
    l.foldl (visitStep rec) (true, c) = (true, c) := by
  induction l with
  | nil => rfl
  | cons m l ih => simpa [visitStep] using ih

/-- A recursive visit that behaves: without a cycle it blackens its node and keeps the colours clean. -/
def CleanVisit (adj : α → List α) (rec : (α → Colour) → α → Bool × (α → Colour)) : Prop :=
  ∀ c n, c n = .white → (rec c n).1 = false → Clean adj c (rec c n).2 ∧ (rec c n).2 n = .black

omit [DecidableEq α] in
theorem visitStep_clean {rec : (α → Colour) → α → Bool × (α → Colour)} (hrec : CleanVisit adj rec)
    {c : α → Colour} {m : α} (h : (visitStep rec (false, c) m).1 = false) :
    Clean adj c (visitStep rec (false, c) m).2 ∧ (visitStep rec (false, c) m).2 m = .black := by
  cases hcm : c m with
  | grey => simp [visitStep, hcm] at h
  | white =>
    have e : visitStep rec (false, c) m = rec c m := by simp [visitStep, hcm]
    rw [e] at h ⊢
    exact hrec c m hcm h
  | black =>
    have e : visitStep rec (false, c) m = (false, c) := by simp [visitStep, hcm]
    rw [e]
    exact ⟨Clean.refl c, hcm⟩

omit [DecidableEq α] in
/-- The loop over the neighbours is clean, and every neighbour ends black. -/
theorem foldl_visitStep_clean {rec : (α → Colour) → α → Bool × (α → Colour)} (hrec : CleanVisit adj rec) :
    ∀ (l : List α) (c : α → Colour), (l.foldl (visitStep rec) (false, c)).1 = false →
      Clean adj c (l.foldl (visitStep rec) (false, c)).2 ∧
        ∀ m ∈ l, (l.foldl (visitStep rec) (false, c)).2 m = .black
  | [], c, _ => ⟨Clean.refl c, fun m hm => absurd hm List.not_mem_nil⟩
  | m :: l, c, h => by
    rw [List.foldl_cons] at h ⊢
    cases hs : visitStep rec (false, c) m with
    | mk b c1 =>
      rw [hs] at h
      cases b with
      | true => rw [foldl_visitStep_true] at h; cases h
      | false =>
        obtain ⟨hc1, hm1⟩ := visitStep_clean (c := c) (m := m) hrec (by rw [hs])
        rw [hs] at hc1 hm1
        obtain ⟨hcl, hall⟩ := foldl_visitStep_clean hrec l c1 h
        refine ⟨hc1.trans hcl, ?_⟩
        intro x hx
        rcases List.mem_cons.mp hx with rfl | hx
        · exact hcl.black _ hm1
        · exact hall x hx

theorem visit_clean (adj : α → List α) : ∀ fuel, CleanVisit adj (visit adj fuel)
  | 0 => fun c n _ h => by simp [visit] at h
  | fuel + 1 => fun c n hn h => by
    have ih := visit_clean adj fuel
    rw [visit] at h ⊢
    have hr : ((adj n).foldl (visitStep (visit adj fuel)) (false, Function.update c n .grey)).1 = false := by
      split_ifs at h with h1
      · rw [h1] at h; cases h
      · simpa using h1
    obtain ⟨hcl, hall⟩ := foldl_visitStep_clean ih (adj n) _ hr
    rw [if_neg (by rw [hr]; decide)]
    set c2 := ((adj n).foldl (visitStep (visit adj fuel)) (false, Function.update c n .grey)).2
    refine ⟨⟨?_, ?_, ?_⟩, by simp⟩
    · intro x hx
      have hxn : x ≠ n := by rintro rfl; rw [hn] at hx; cases hx
      simp only [Function.update_of_ne hxn]
      exact hcl.black x (by rw [Function.update_of_ne hxn]; exact hx)
    · intro x hx
      have hxn : x ≠ n := by rintro rfl; simp at hx
      simp only [Function.update_of_ne hxn] at hx
      have := hcl.grey x hx
      rwa [Function.update_of_ne hxn] at this
    · intro ha x hx
      -- black nodes are accessible: the old ones by assumption, `n` because its children are black
      have ha1 : ∀ y, Function.update c n Colour.grey y = .black → Acc (Child adj) y := by
        intro y hy
        by_cases hyn : y = n
        · subst hyn; simp at hy
        · rw [Function.update_of_ne hyn] at hy; exact ha y hy
      by_cases hxn : x = n
      · subst hxn
        exact Acc.intro x (fun m hm => hcl.acc ha1 m (hall m hm))
      · simp only [Function.update_of_ne hxn] at hx
        exact hcl.acc ha1 x hx

/-- No cycle found: every listed node is accessible. -/
theorem findsCycle_acc {fuel : ℕ} : ∀ (ns : List α) (c : α → Colour), (∀ x, c x ≠ .grey) →
    (∀ x, c x = .black → Acc (Child adj) x) → findsCycle adj fuel ns c = false →
    ∀ x ∈ ns, Acc (Child adj) x
  | [], _, _, _, _ => fun x hx => absurd hx List.not_mem_nil
  | n :: ns, c, hg, ha, h => by
    intro x hx
    rw [findsCycle] at h
    by_cases hn : c n = .white
    · rw [if_pos hn] at h
      cases hr : (visit adj fuel c n).1 with
      | true => simp [hr] at h
      | false =>
        simp only [hr] at h
        obtain ⟨hcl, hb⟩ := visit_clean adj fuel c n hn hr
        rcases List.mem_cons.mp hx with rfl | hx
        · exact hcl.acc ha _ hb
        · exact findsCycle_acc ns _ (fun y hy => hg y (hcl.grey y hy)) (hcl.acc ha) h x hx
    · rw [if_neg hn] at h
      rcases List.mem_cons.mp hx with rfl | hx
      · cases hc : c x with
        | white => exact absurd hc hn
        | grey => exact absurd hc (hg x)
        | black => exact ha x hc
      · exact findsCycle_acc ns c hg ha h x hx

end Sound

/-! ## Exactness -/

section Complete

variable {adj : α → List α} {ns : List α}

/-- The graph has a directed cycle; a node with an edge to itself is one. -/
def Cyclic (adj : α → List α) : Prop := ∃ x, TransGen (fun u v => v ∈ adj u) x x

omit [DecidableEq α] in
/-- A node that is accessible is on no cycle. -/
theorem not_cycle_of_acc {x : α} (h : Acc (Child adj) x) : ¬TransGen (fun u v => v ∈ adj u) x x := by
  induction h with
  | intro x _ ih =>
    intro hcycle
    obtain ⟨y, hy, hyx⟩ := TransGen.head'_iff.mp hcycle
    exact ih y hy (TransGen.tail' hyx hy)

/-- A visit turns no node white. -/
theorem white_of_visit : ∀ (fuel : ℕ) (c : α → Colour) (n x : α), (visit adj fuel c n).2 x = .white → c x = .white := by
  intro fuel
  induction fuel with
  | zero => exact fun _ _ _ h => h
  | succ fuel ih =>
    have hfold : ∀ (l : List α) (acc : Bool × (α → Colour)) (x : α),
        (l.foldl (visitStep (visit adj fuel)) acc).2 x = .white → acc.2 x = .white := by
      intro l
      induction l with
      | nil => exact fun _ _ h => h
      | cons m l ihl =>
        intro acc x h
        have hstep := ihl _ x h
        unfold visitStep at hstep
        split at hstep
        · exact hstep
        · split at hstep
          · exact hstep
          · exact ih _ _ _ hstep
          · exact hstep
    intro c n x h
    have hne : x ≠ n := by
      rintro rfl
      rw [visit] at h
      split_ifs at h with hr
      · have := hfold _ _ _ h
        simp at this
      · simp at h
    rw [visit] at h
    have h' : ((adj n).foldl (visitStep (visit adj fuel)) (false, Function.update c n .grey)).2 x = .white := by
      split_ifs at h
      · exact h
      · simpa [Function.update_of_ne hne] using h
    simpa [Function.update_of_ne hne] using hfold _ _ _ h'

/-- How many of the nodes are white. -/
def whites (ns : List α) (c : α → Colour) : ℕ := ns.countP fun x => c x = .white

omit [DecidableEq α] in
theorem whites_le {c c' : α → Colour} (h : ∀ x, c' x = .white → c x = .white) : whites ns c' ≤ whites ns c := by
  refine List.countP_mono_left fun x _ hx => ?_
  simpa using h x (by simpa using hx)

omit [DecidableEq α] in
theorem whites_lt {c c' : α → Colour} {n : α} (hn : n ∈ ns) (hc : c n = .white) (hc' : c' n ≠ .white)
    (h : ∀ x, c' x = .white → c x = .white) : whites ns c' < whites ns c := by
  unfold whites
  induction ns with
  | nil => cases hn
  | cons m ns ih =>
    have hle : ns.countP (fun x => c' x = .white) ≤ ns.countP (fun x => c x = .white) := whites_le h
    rw [List.countP_cons, List.countP_cons]
    rcases List.mem_cons.mp hn with rfl | hn
    · simp only [hc, hc', decide_true, decide_false, if_true, Bool.false_eq_true, if_false]
      omega
    · have hlt := ih hn
      by_cases hm : c' m = .white
      · simp only [hm, h m hm, decide_true, if_true]
        omega
      · simp only [hm, decide_false, Bool.false_eq_true, if_false]
        omega

/-- **What is found is a cycle**: a visit that has fuel for the white nodes, in a search whose grey nodes lead to the node
it visits. -/
theorem cyclic_of_visit (hclosed : ∀ x, ∀ y ∈ adj x, y ∈ ns) : ∀ (fuel : ℕ) (c : α → Colour) (n : α), n ∈ ns →
    c n = .white → whites ns c ≤ fuel → (∀ x, c x = .grey → ReflTransGen (fun u v => v ∈ adj u) x n) →
    (visit adj fuel c n).1 = true → Cyclic adj := by
  intro fuel
  induction fuel with
  | zero =>
    intro c n hn hc hfuel
    have : 0 < whites ns c := List.countP_pos_iff.mpr ⟨n, hn, by simpa using hc⟩
    omega
  | succ fuel ih =>
    intro c n hn hc hfuel hgrey h
    rw [visit] at h
    have hfound : ((adj n).foldl (visitStep (visit adj fuel)) (false, Function.update c n .grey)).1 = true := by
      split_ifs at h with hr
      exact hr
    -- the neighbours, from colours with the grey nodes of the start and fewer white ones
    have hfold : ∀ (l : List α) (c' : α → Colour), (∀ m ∈ l, m ∈ adj n) → whites ns c' ≤ fuel →
        (∀ x, c' x = .grey → ReflTransGen (fun u v => v ∈ adj u) x n) →
        (l.foldl (visitStep (visit adj fuel)) (false, c')).1 = true → Cyclic adj := by
      intro l
      induction l with
      | nil => exact fun _ _ _ _ h => Bool.noConfusion h
      | cons m l ihl =>
        intro c' hl hfuel' hgrey' h
        obtain ⟨hm, hl⟩ := List.forall_mem_cons.mp hl
        rw [List.foldl_cons] at h
        cases hcm : c' m with
        | grey => exact ⟨n, TransGen.head' hm (hgrey' m hcm)⟩
        | black =>
          have hstep : visitStep (visit adj fuel) (false, c') m = (false, c') := by simp [visitStep, hcm]
          rw [hstep] at h
          exact ihl c' hl hfuel' hgrey' h
        | white =>
          have hstep : visitStep (visit adj fuel) (false, c') m = visit adj fuel c' m := by simp [visitStep, hcm]
          rw [hstep] at h
          cases hv : (visit adj fuel c' m).1 with
          | true => exact ih c' m (hclosed n m hm) hcm hfuel' (fun x hx => (hgrey' x hx).tail hm) hv
          | false =>
            have hclean := (visit_clean adj fuel c' m hcm hv).1
            have heq : visit adj fuel c' m = (false, (visit adj fuel c' m).2) := Prod.ext hv rfl
            rw [heq] at h
            refine ihl _ hl ((whites_le fun x => white_of_visit fuel c' m x).trans hfuel') ?_ h
            exact fun x hx => hgrey' x (hclean.grey x hx)
    refine hfold (adj n) _ (fun m hm => hm) ?_ ?_ hfound
    · have hlt : whites ns (Function.update c n .grey) < whites ns c := by
        refine whites_lt hn hc (by simp) fun x hx => ?_
        have hne : x ≠ n := by
          rintro rfl
          simp at hx
        rwa [Function.update_of_ne hne] at hx
      omega
    · intro x hx
      by_cases hne : x = n
      · rw [hne]
      · rw [Function.update_of_ne hne] at hx
        exact hgrey x hx

theorem cyclic_of_findsCycle (hclosed : ∀ x, ∀ y ∈ adj x, y ∈ ns) {fuel : ℕ} : ∀ (l : List α) (c : α → Colour),
    (∀ x ∈ l, x ∈ ns) → (∀ x, c x ≠ .grey) → whites ns c ≤ fuel → findsCycle adj fuel l c = true → Cyclic adj := by
  intro l
  induction l with
  | nil => exact fun _ _ _ _ h => Bool.noConfusion h
  | cons n l ih =>
    intro c hl hgrey hfuel h
    obtain ⟨hn, hl⟩ := List.forall_mem_cons.mp hl
    rw [findsCycle] at h
    by_cases hc : c n = .white
    · rw [if_pos hc] at h
      cases hv : (visit adj fuel c n).1 with
      | true => exact cyclic_of_visit hclosed fuel c n hn hc hfuel (fun x hx => absurd hx (hgrey x)) hv
      | false =>
        simp only [hv, Bool.false_eq_true, if_false] at h
        have hclean := (visit_clean adj fuel c n hc hv).1
        refine ih _ hl (fun x hx => hgrey x (hclean.grey x hx)) ?_ h
        exact (whites_le fun x => white_of_visit fuel c n x).trans hfuel
    · rw [if_neg hc] at h
      exact ih c hl hgrey hfuel h

/-- **Cycle detection is exact** with fuel for all nodes. -/
theorem findsCycle_iff (hclosed : ∀ x, ∀ y ∈ adj x, y ∈ ns) {fuel : ℕ} (hfuel : ns.length ≤ fuel) :
    findsCycle adj fuel ns (fun _ => .white) = true ↔ Cyclic adj := by
  constructor
  · refine cyclic_of_findsCycle hclosed ns _ (fun _ h => h) (fun _ => Colour.noConfusion) ?_
    exact (List.countP_le_length).trans hfuel
  · rintro ⟨x, hx⟩
    by_contra hno
    have hacc := findsCycle_acc ns (fun _ => .white) (fun _ => Colour.noConfusion) (fun _ h => Colour.noConfusion h)
      (Bool.eq_false_iff.mpr hno)
    obtain ⟨y, -, hyx⟩ := TransGen.tail'_iff.mp hx
    exact not_cycle_of_acc (hacc x (hclosed y x hyx)) hx

end Complete

/-! ## Sources -/

/-- **Sources.**  In a finite graph without cycles every node can be reached from one without predecessors. -/
theorem exists_source {R : α → α → Prop} {ns : List α} (hmem : ∀ x y, R x y → x ∈ ns)
    (hacyclic : ∀ x, ¬TransGen R x x) {x : α} (hx : x ∈ ns) :
    ∃ r ∈ ns, (∀ y, ¬R y r) ∧ ReflTransGen R r x := by
  have hfinite : Finite {x // x ∈ ns} := Finite.of_fintype _
  let below : {x // x ∈ ns} → {x // x ∈ ns} → Prop := fun a b => TransGen R a.1 b.1
  have htrans : IsTrans _ below := ⟨fun _ _ _ => TransGen.trans⟩
  have hirrefl : Std.Irrefl below := ⟨fun a => hacyclic a.1⟩
  have hwf : WellFounded below := Finite.wellFounded_of_trans_of_irrefl below
  suffices h : ∀ a : {x // x ∈ ns}, ∃ r ∈ ns, (∀ y, ¬R y r) ∧ ReflTransGen R r a.1 from h ⟨x, hx⟩
  intro a
  induction a using hwf.induction with
  | _ a ih =>
    by_cases hpred : ∃ y, R y a.1
    · obtain ⟨y, hy⟩ := hpred
      obtain ⟨r, hr, hsource, hpath⟩ := ih ⟨y, hmem y a.1 hy⟩ (TransGen.single hy)
      exact ⟨r, hr, hsource, hpath.tail hy⟩
    · exact ⟨a.1, a.2, not_exists.mp hpred, .refl⟩

end RevenueOS.Lib
