import RevenueOS.Workflows.Dsl
import RevenueOS.Lib.Except
import RevenueOS.Lib.Assoc

/-!
# RevenueOS.Workflows.DslFacts — what an accepted document guarantees

`validateWorkflow` reports no problem only if every node has a fresh non-empty string id, a known type and
nothing to complain about in its branch, every edge joins known nodes, and the edges have no cycle
(`accepted_of_valid`).  `compileWorkflow_ok` carries these facts over to the plan: its nodes are the
document's nodes under distinct ids, and its adjacency is the document's edge list (`planEdges_ok`,
`mem_groupEdges`).
-/

namespace RevenueOS.Workflows

open RevenueOS.Py RevenueOS.Lib

/-! ## Sets of ids -/

theorem mem_insertId {ids : List String} {x y : String} : y ∈ insertId ids x ↔ y ∈ ids ∨ y = x := by
  unfold insertId
  split_ifs with h
  · constructor
    · exact Or.inl
    · rintro (hy | rfl)
      · exact hy
      · exact h
  · simp

theorem mem_foldl_insertId {y : String} : ∀ {l ids : List String},
    y ∈ l.foldl insertId ids ↔ y ∈ ids ∨ y ∈ l
  | [], ids => by simp
  | x :: l, ids => by
    rw [List.foldl_cons, mem_foldl_insertId, mem_insertId, List.mem_cons, or_assoc]

theorem nodup_insertId {ids : List String} (h : ids.Nodup) (x : String) : (insertId ids x).Nodup := by
  unfold insertId
  split_ifs with hx
  · exact h
  · exact List.nodup_append.mpr ⟨h, List.nodup_singleton x, by
      intro a ha b hb
      rw [List.mem_singleton] at hb
      rintro rfl
      exact hx (hb ▸ ha)⟩

/-! ## Ranges -/

/-- An integer within bounds. -/
def InRange (value : Json) (low high : ℤ) : Prop := ∃ n, value.int? = some n ∧ low ≤ n ∧ n ≤ high

theorem validateRange_eq_nil {value : Json} {low high : ℤ} {msg : String} :
    validateRange value low high msg = [] ↔ InRange value low high := by
  unfold validateRange InRange
  cases value.int? <;> simp

/-! ## Nodes -/

/-- A node the validator has nothing against: its id, its type, and a clean branch. -/
structure NodeOk (nodes : List Json) (edges : Json) (n : Json) (id : String) (node : Dict) (t : NodeType) :
    Prop where
  eq : n = .obj node
  id_eq : node.get "id" = .str id
  id_ne : id ≠ ""
  type_eq : NodeType.ofJson? (node.get "type") = some t
  branch : ∃ path check, checkNodeType nodes edges path id node t = .ok check ∧ check.problems = []

/-- One turn of the node loop without a problem registers a fresh id. -/
theorem validateNode_ok {nodes : List Json} {edges : Json} {ids : List String} {index : ℕ} {n : Json}
    {reg : Option String} {check : Check} (h : validateNode nodes edges ids index n = .ok (reg, check))
    (hp : check.problems = []) :
    ∃ id node t, reg = some id ∧ id ∉ ids ∧ NodeOk nodes edges n id node t := by
  unfold validateNode at h
  obtain ⟨node, hnode, h⟩ := bind_eq_ok.mp h
  have hn : n = .obj node := by
    cases n with
    | obj d => simp only [Json.asDict, Except.ok.injEq] at hnode; rw [hnode]
    | _ => simp [Json.asDict] at hnode
  split at h
  · rename_i id hid
    split_ifs at h with he
    · simp only [pure, Except.pure, Except.ok.injEq, Prod.mk.injEq] at h
      obtain ⟨-, rfl⟩ := h
      simp at hp
    · simp only at h
      split at h
      · simp only [pure, Except.pure, Except.ok.injEq, Prod.mk.injEq] at h
        obtain ⟨-, rfl⟩ := h
        simp at hp
      · rename_i t ht
        obtain ⟨chk, hchk, h⟩ := bind_eq_ok.mp h
        obtain ⟨inputs, -, h⟩ := bind_eq_ok.mp h
        simp only [pure, Except.pure, Except.ok.injEq, Prod.mk.injEq] at h
        obtain ⟨rfl, rfl⟩ := h
        simp only [Check.problems_append, Check.problems_ofProblems, List.append_eq_nil_iff,
          problemIf_eq_nil] at hp
        refine ⟨id, node, t, rfl, by simpa using hp.1.1, hn, hid, he, ht, _, chk, hchk, hp.1.2⟩
  · simp only [pure, Except.pure, Except.ok.injEq, Prod.mk.injEq] at h
    obtain ⟨-, rfl⟩ := h
    simp at hp

/-- `node_ids` after the loop, for nodes without problems: the ids in order, all distinct. -/
theorem validateNodes_ok {nodes : List Json} {edges : Json} :
    ∀ {ns : List Json} {index : ℕ} {ids ids' : List String} {check : Check},
      validateNodes nodes edges index ids ns = .ok (ids', check) → check.problems = [] → ids.Nodup →
      ids'.Nodup ∧ ∃ news, ids' = ids ++ news ∧
        List.Forall₂ (fun n id => ∃ node t, NodeOk nodes edges n id node t) ns news
  | [], _, ids, ids', check, h, _, hnd => by
    simp only [validateNodes, Except.ok.injEq, Prod.mk.injEq] at h
    obtain ⟨rfl, -⟩ := h
    exact ⟨hnd, [], by simp, .nil⟩
  | n :: ns, index, ids, ids', check, h, hp, hnd => by
    rw [validateNodes, bind_eq_ok] at h
    obtain ⟨⟨reg, chk⟩, hn, h⟩ := h
    obtain ⟨⟨ids'', chk'⟩, hrest, h⟩ := bind_eq_ok.mp h
    simp only [pure, Except.pure, Except.ok.injEq, Prod.mk.injEq] at h
    obtain ⟨rfl, rfl⟩ := h
    simp only [Check.problems_append, List.append_eq_nil_iff] at hp
    obtain ⟨id, node, t, rfl, hfresh, hok⟩ := validateNode_ok hn hp.1
    have hins : insertId ids id = ids ++ [id] := if_neg hfresh
    simp only [Option.toList, List.foldl_cons, List.foldl_nil] at hrest
    obtain ⟨hnd', news, hnews, hall⟩ := validateNodes_ok hrest hp.2 (nodup_insertId hnd id)
    refine ⟨hnd', id :: news, ?_, .cons ⟨node, t, hok⟩ hall⟩
    rw [hnews, hins, List.append_assoc, List.singleton_append]

/-! ## Edges -/

/-- An edge between known nodes. -/
structure EdgeOk (ids : List String) (e : Json) (source target : String) : Prop where
  ends : edgeEnds e = .ok (source, target)
  source_mem : source ∈ ids
  target_mem : target ∈ ids

theorem mem_of_inNames {ids : List String} {x : Json} {b : Bool} (h : x.inNames ids = .ok b) (hb : (!b) = false) :
    x.text ∈ ids := by
  cases x with
  | str s =>
    simp only [Json.inNames, Except.ok.injEq] at h
    subst h
    simpa using hb
  | arr xs => simp [Json.inNames] at h
  | obj d => simp [Json.inNames] at h
  | _ =>
    simp only [Json.inNames, Except.ok.injEq] at h
    subst h
    simp at hb

theorem validateEdge_ok {ids : List String} {index : ℕ} {e : Json} (h : validateEdge ids index e = .ok []) :
    ∃ source target, EdgeOk ids e source target := by
  unfold validateEdge at h
  obtain ⟨edge, hedge, h⟩ := bind_eq_ok.mp h
  obtain ⟨b, hb, h⟩ := bind_eq_ok.mp h
  obtain ⟨b', hb', h⟩ := bind_eq_ok.mp h
  simp only [pure, Except.pure, Except.ok.injEq, List.append_eq_nil_iff, problemIf_eq_nil] at h
  refine ⟨_, _, ?_, mem_of_inNames hb h.1.1, mem_of_inNames hb' h.1.2⟩
  simp [edgeEnds, hedge, bind, Except.bind, pure, Except.pure]

theorem validateEdges_ok {ids : List String} : ∀ {es : List Json} {index : ℕ},
    validateEdges ids index es = .ok [] → ∀ e ∈ es, ∃ source target, EdgeOk ids e source target
  | [], _, _ => fun e he => absurd he List.not_mem_nil
  | e :: es, index, h => by
    rw [validateEdges, bind_eq_ok] at h
    obtain ⟨here, hhere, h⟩ := h
    obtain ⟨rest, hrest, h⟩ := bind_eq_ok.mp h
    simp only [pure, Except.pure, Except.ok.injEq, List.append_eq_nil_iff] at h
    obtain ⟨rfl, rfl⟩ := h
    intro x hx
    rcases List.mem_cons.mp hx with rfl | hx
    · exact validateEdge_ok hhere
    · exact validateEdges_ok hrest x hx

theorem ends_known {ids : List String} {es : List Json}
    (hall : ∀ e ∈ es, ∃ source target, EdgeOk ids e source target) {e : Json} {u v : String} (he : e ∈ es)
    (hends : edgeEnds e = .ok (u, v)) : u ∈ ids ∧ v ∈ ids := by
  obtain ⟨s, t, hok⟩ := hall e he
  obtain ⟨rfl, rfl⟩ := Prod.mk.inj (Except.ok.inj (hok.ends.symm.trans hends))
  exact ⟨hok.source_mem, hok.target_mem⟩

/-! ## The document -/

/-- The edges the compiler iterates over. -/
def documentEdges (doc : Dict) : List Json :=
  match (doc.getD "edges" (.arr [])).iter with
  | .ok es => es
  | .error _ => []

/-- The document has an edge from `u` to `v`. -/
def HasEdge (doc : Dict) (u v : String) : Prop := ∃ e ∈ documentEdges doc, edgeEnds e = .ok (u, v)

/-- The document has the node `node` under the id `id`. -/
def HasNode (doc : Dict) (id : String) (node : Dict) : Prop :=
  .obj node ∈ (documentNodes doc).1 ∧ node.get "id" = .str id

/-- `doc.get("edges") or []` and `doc.get("edges", [])` iterate alike wherever the latter can be iterated. -/
theorem iter_edges_or {doc : Dict} {es es' : List Json}
    (h : ((doc.get "edges").or (.arr [])).iter = .ok es) (h' : (doc.getD "edges" (.arr [])).iter = .ok es') :
    es = es' := by
  unfold Dict.get at h
  unfold Dict.getD at h'
  cases hl : doc.lookup "edges" with
  | none =>
    rw [hl] at h h'
    simp only [Option.getD_none, Json.or, Json.truthy, Json.iter, Bool.false_eq_true, if_false,
      Except.ok.injEq] at h h'
    rw [← h, ← h']
  | some v =>
    rw [hl] at h h'
    simp only [Option.getD_some, Json.or] at h h'
    split_ifs at h with ht
    · rw [h'] at h
      exact (Except.ok.inj h).symm
    · -- a falsy iterable is empty
      simp only [Json.iter, Except.ok.injEq] at h
      subst h
      cases v with
      | str s => simp_all [Json.truthy, Json.iter]
      | arr xs => simp_all [Json.truthy, Json.iter]
      | obj d => simp_all [Json.truthy, Json.iter]
      | _ => simp [Json.iter] at h'

theorem truthy_of_iter {v : Json} {es : List Json} (h : (v.or (.arr [])).iter = .ok es) (hne : es ≠ []) :
    (v.or (.arr [])).truthy = true := by
  unfold Json.or at h ⊢
  split_ifs with ht
  · exact ht
  · rw [if_neg ht] at h
    simp only [Json.iter, Except.ok.injEq] at h
    exact absurd h.symm hne

/-- `_has_cycle` answers `False` for some order of the ids. -/
def FindsNoCycle (ids : List String) (es : List Json) : Prop :=
  ∃ visits ids', ids'.Perm ids ∧ hasCycle visits ids' es = .ok false

/-- Everything a report without problems says about the document. -/
structure Accepted (doc : Dict) (ids : List String) : Prop where
  nodup : ids.Nodup
  nodes : List.Forall₂
    (fun n id => ∃ node t, NodeOk (documentNodes doc).1 ((doc.get "edges").or (.arr [])) n id node t)
    (documentNodes doc).1 ids
  edges : ∃ es, ((doc.get "edges").or (.arr [])).iter = .ok es ∧
    (∀ e ∈ es, ∃ source target, EdgeOk ids e source target) ∧
    (((doc.get "edges").or (.arr [])).truthy = true → ids ≠ [] → FindsNoCycle ids es)
  nodes_ne : (documentNodes doc).2 = []
  policy : validatePolicy ((doc.get "global_policy").or (.obj [])) = .ok []

theorem accepted_of_valid {py : Interpreter} {doc : Dict} {report : ValidationReport}
    (h : validateWorkflow py doc = .ok report) (hv : report.valid = true) :
    ∃ ids, Accepted doc ids := by
  unfold validateWorkflow at h
  obtain ⟨trigger, -, h⟩ := bind_eq_ok.mp h
  obtain ⟨⟨ids, check⟩, hnodes, h⟩ := bind_eq_ok.mp h
  obtain ⟨es, hes, h⟩ := bind_eq_ok.mp h
  obtain ⟨eps, heps, h⟩ := bind_eq_ok.mp h
  obtain ⟨cyclic, hcyc, h⟩ := bind_eq_ok.mp h
  obtain ⟨unreachable, -, h⟩ := bind_eq_ok.mp h
  obtain ⟨policy, hpolicy, h⟩ := bind_eq_ok.mp h
  obtain ⟨digest, -, h⟩ := bind_eq_ok.mp h
  rw [pure_eq_ok] at h
  subst h
  simp only [List.isEmpty_iff, List.append_eq_nil_iff, problemIf_eq_nil] at hv
  obtain ⟨⟨⟨⟨⟨-, hlist⟩, hcheck⟩, rfl⟩, rfl⟩, rfl⟩ := hv
  obtain ⟨hnd, news, hnews, hall⟩ := validateNodes_ok hnodes hcheck List.nodup_nil
  rw [List.nil_append] at hnews
  subst hnews
  refine ⟨ids, hnd, hall, ⟨es, hes, validateEdges_ok heps, ?_⟩, hlist, hpolicy⟩
  intro ht hne
  rw [detectCycle, if_pos ⟨by simp [hne], ht⟩] at hcyc
  exact ⟨py.visits, py.order ids, py.order_perm ids, hcyc⟩

/-! ## The plan -/

/-- The adjacency of the plan is the edge list, grouped. -/
theorem mem_groupEdges {edges : List (String × PlanEdge)} {u : String} {e : PlanEdge} :
    e ∈ ((groupEdges edges).lookup u).getD [] ↔ (u, e) ∈ edges := by
  unfold groupEdges
  rw [lookup_map_pair]
  split_ifs with h
  · simp only [Option.getD_some, List.mem_insertionSort, List.mem_map, List.mem_filter, beq_iff_eq]
    constructor
    · rintro ⟨⟨u', e'⟩, ⟨hm, rfl⟩, rfl⟩
      exact hm
    · intro hm
      exact ⟨(u, e), ⟨hm, rfl⟩, rfl⟩
  · simp only [Option.getD_none, List.not_mem_nil, false_iff]
    intro hm
    apply h
    rw [mem_foldl_insertId]
    exact Or.inr (List.mem_map.mpr ⟨(u, e), hm, rfl⟩)

theorem planEdge_ok {e : Json} {source : String} {pe : PlanEdge} (h : planEdge e = .ok (source, pe)) :
    edgeEnds e = .ok (source, pe.target) := by
  unfold planEdge at h
  obtain ⟨s, hs, h⟩ := bind_eq_ok.mp h
  obtain ⟨t, ht, h⟩ := bind_eq_ok.mp h
  obtain ⟨d, hd, h⟩ := bind_eq_ok.mp h
  obtain ⟨p, -, h⟩ := bind_eq_ok.mp h
  simp only [pure, Except.pure, Except.ok.injEq, Prod.mk.injEq] at h
  obtain ⟨rfl, rfl⟩ := h
  cases e with
  | obj kvs =>
    simp only [Json.asDict, Except.ok.injEq] at hd
    subst hd
    simp only [getItem] at hs ht
    split at hs
    · rename_i s' hs'
      split at ht
      · rename_i t' ht'
        simp only [Except.ok.injEq] at hs ht
        subst hs ht
        simp [edgeEnds, Json.asDict, Dict.get, hs', ht', bind, Except.bind, pure, Except.pure]
      · cases ht
    · cases hs
  | _ => simp [Json.asDict] at hd

/-- The plan's edges have the ends of the document's. -/
theorem planEdges_ok {es : List Json} {edges : List (String × PlanEdge)} (h : es.mapM planEdge = .ok edges)
    {u v : String} : (∃ e, (u, e) ∈ edges ∧ e.target = v) ↔ ∃ j ∈ es, edgeEnds j = .ok (u, v) := by
  constructor
  · rintro ⟨e, he, rfl⟩
    obtain ⟨j, hj, hje⟩ := mem_of_forall₂_right (mapM_eq_ok h) he
    exact ⟨j, hj, planEdge_ok hje⟩
  · rintro ⟨j, hj, hends⟩
    obtain ⟨⟨u', e⟩, he, hje⟩ := mem_of_forall₂_left (mapM_eq_ok h) hj
    have hends' := planEdge_ok hje
    rw [hends] at hends'
    obtain ⟨rfl, rfl⟩ := Prod.mk.inj (Except.ok.inj hends')
    exact ⟨e, he, rfl⟩

theorem planNode_ok {n : Json} {id id' : String} {node node' : Dict} (h : planNode n = .ok (id, node))
    (hn : n = .obj node') (hid : node'.get "id" = .str id') : id = id' ∧ node = node' := by
  subst hn
  unfold planNode at h
  obtain ⟨s, hs, h⟩ := bind_eq_ok.mp h
  obtain ⟨d, hd, h⟩ := bind_eq_ok.mp h
  simp only [pure, Except.pure, Except.ok.injEq, Prod.mk.injEq] at h
  simp only [Json.asDict, Except.ok.injEq] at hd
  obtain ⟨rfl, rfl⟩ := h
  refine ⟨?_, hd.symm⟩
  simp only [getItem] at hs
  split at hs
  · rename_i s' hs'
    simp only [Except.ok.injEq] at hs
    simp only [Dict.get, hs', Option.getD_some] at hid
    rw [← hs, hid]
    rfl
  · cases hs

/-- What compilation guarantees about the plan of a document. -/
structure Compiled (doc : Dict) (plan : Plan) : Prop where
  ids_nodup : (plan.nodes.map (·.1)).Nodup
  document : (documentNodes doc).1 = plan.nodes.map (fun p => .obj p.2)
  node : ∀ {id : String} {node : Dict}, plan.nodes.lookup id = some node →
    HasNode doc id node ∧ ∃ t,
      NodeOk (documentNodes doc).1 ((doc.get "edges").or (.arr [])) (.obj node) id node t
  edge : ∀ {u v : String}, (∃ e ∈ plan.edgesFrom u, e.target = v) ↔ HasEdge doc u v
  edge_known : ∀ {u v : String}, HasEdge doc u v → u ∈ plan.nodes.map (·.1) ∧ v ∈ plan.nodes.map (·.1)
  entry : ∀ {id : String}, id ∈ plan.entryNodes ↔ id ∈ plan.nodes.map (·.1) ∧ ∀ u, ¬ HasEdge doc u id
  acyclic : WellFounded (fun v u => HasEdge doc u v)
  policy : ∃ p, validatePolicy (.obj p) = .ok [] ∧ plan.globalPolicy = defaultPolicy.merge p

/-- The plan's nodes, against the ids the validator registered. -/
theorem planNodes_ok {nodes : List Json} {edges : Json} {ids : List String} {ns : List Json}
    (hok : List.Forall₂ (fun n id => ∃ node t, NodeOk nodes edges n id node t) ns ids) :
    ∀ {pns : List (String × Dict)}, List.Forall₂ (fun n p => planNode n = .ok p) ns pns →
      pns.map (·.1) = ids ∧ ns = pns.map (fun p => .obj p.2) ∧
        ∀ p ∈ pns, .obj p.2 ∈ ns ∧ ∃ t, NodeOk nodes edges (.obj p.2) p.1 p.2 t := by
  induction hok with
  | nil =>
    intro pns h
    cases h
    exact ⟨rfl, rfl, fun p hp => absurd hp List.not_mem_nil⟩
  | @cons n id ns ids hn _ ih =>
    intro pns h
    obtain ⟨node, t, hn⟩ := hn
    cases h with
    | @cons _ p _ pns hp hps =>
      obtain ⟨hid, hnode⟩ := planNode_ok hp hn.eq hn.id_eq
      obtain ⟨hids, hns, hall⟩ := ih hps
      refine ⟨by rw [List.map_cons, hids, hid], by rw [List.map_cons, ← hns, hnode, hn.eq], ?_⟩
      intro q hq
      rcases List.mem_cons.mp hq with rfl | hq
      · have heq := hn.eq
        subst heq
        rw [hid, hnode]
        exact ⟨List.mem_cons_self, t, hn⟩
      · obtain ⟨hm, ht⟩ := hall q hq
        exact ⟨List.mem_cons_of_mem _ hm, ht⟩

/-- The documented nodes are read alike by the validator and by the compiler. -/
theorem getItem_nodes {doc : Dict} {ns : List Json} (hne : (documentNodes doc).2 = [])
    (h : (getItem (.obj doc) "nodes" >>= Json.iter) = .ok ns) : ns = (documentNodes doc).1 := by
  obtain ⟨v, hv, h⟩ := bind_eq_ok.mp h
  have hget : doc.get "nodes" = v := by
    simp only [getItem] at hv
    split at hv
    · rename_i v' hv'
      simp only [Except.ok.injEq] at hv
      simp [Dict.get, hv', hv]
    · cases hv
  unfold documentNodes at hne ⊢
  rw [hget] at hne ⊢
  cases v with
  | arr xs =>
    cases xs with
    | nil => simp [Json.or, Json.truthy, Json.list?] at hne
    | cons x xs =>
      simp only [Json.iter, Except.ok.injEq] at h
      exact h.symm
  | _ =>
    exfalso
    unfold Json.or at hne
    split_ifs at hne <;> simp [Json.list?] at hne

/-- The adjacency lists of the search: the edges between the ids. -/
theorem mem_cycleAdjacency {ids : List String} {pairs : List (String × String)} {u v : String} :
    v ∈ cycleAdjacency ids pairs u ↔ u ∈ ids ∧ v ∈ ids ∧ (u, v) ∈ pairs := by
  unfold cycleAdjacency
  by_cases hu : u ∈ ids
  · rw [if_pos (List.contains_iff_mem.mpr hu)]
    simp only [adjacencyOf, List.mem_map, List.mem_filter, Bool.and_eq_true, beq_iff_eq, List.contains_iff_mem,
      Prod.exists, exists_eq_right]
    constructor
    · rintro ⟨u', hp, rfl, hv⟩
      exact ⟨hu, hv, hp⟩
    · rintro ⟨-, hv, hp⟩
      exact ⟨u, hp, rfl, hv⟩
  · rw [if_neg fun h => hu (List.contains_iff_mem.mp h)]
    exact ⟨fun h => absurd h List.not_mem_nil, fun h => absurd h.1 hu⟩

/-- The colouring search that finds no cycle among the edges of known nodes: there is none. -/
theorem hasCycle_false {ids : List String} {es : List Json} (h : FindsNoCycle ids es)
    (hall : ∀ e ∈ es, ∃ source target, EdgeOk ids e source target) :
    WellFounded (fun v u => ∃ e ∈ es, edgeEnds e = .ok (u, v)) := by
  obtain ⟨visits, ids', hperm, h⟩ := h
  unfold hasCycle at h
  obtain ⟨pairs, hpairs, h⟩ := bind_eq_ok.mp h
  split_ifs at h
  have hacc := findsCycle_acc ids' (fun _ => Colour.white) (by simp) (by simp) (pure_eq_ok.mp h)
  have hchild : ∀ {u v : String}, (∃ e ∈ es, edgeEnds e = .ok (u, v)) → u ∈ ids' ∧
      Child (cycleAdjacency ids' pairs) v u := by
    rintro u v ⟨e, he, hends⟩
    obtain ⟨hu, hv⟩ := ends_known hall he hends
    rw [← hperm.mem_iff] at hu hv
    obtain ⟨p, hp, hpe⟩ := mem_of_forall₂_left (mapM_eq_ok hpairs) he
    rw [hends] at hpe
    obtain rfl := Except.ok.inj hpe
    exact ⟨hu, mem_cycleAdjacency.mpr ⟨hu, hv, hp⟩⟩
  have hsub : Subrelation (fun v u => ∃ e ∈ es, edgeEnds e = .ok (u, v)) (Child (cycleAdjacency ids' pairs)) :=
    fun h => (hchild h).2
  refine ⟨?_⟩
  intro x
  by_cases hx : x ∈ ids'
  · exact Subrelation.accessible hsub (hacc x hx)
  · exact Acc.intro x (fun y hy => absurd (hchild hy).1 hx)

/-- Without edges the search is skipped, and there is nothing to find. -/
theorem acyclic_of_accepted {v : Json} {ids : List String} {es : List Json}
    (hes : (v.or (.arr [])).iter = .ok es) (hall : ∀ e ∈ es, ∃ source target, EdgeOk ids e source target)
    (hcyc : (v.or (.arr [])).truthy = true → ids ≠ [] → FindsNoCycle ids es) :
    WellFounded (fun v u => ∃ e ∈ es, edgeEnds e = .ok (u, v)) := by
  by_cases hne : es = []
  · subst hne
    exact ⟨fun x => Acc.intro x (fun y hy => by simp at hy)⟩
  · refine hasCycle_false (hcyc (truthy_of_iter hes hne) ?_) hall
    rintro rfl
    obtain ⟨j, hj⟩ := List.exists_mem_of_ne_nil es hne
    obtain ⟨s, t, hok⟩ := hall j hj
    exact absurd hok.source_mem List.not_mem_nil

theorem mergedPolicy_ok {doc policy : Dict}
    (hv : validatePolicy ((doc.get "global_policy").or (.obj [])) = .ok []) (h : mergedPolicy doc = .ok policy) :
    ∃ p, validatePolicy (.obj p) = .ok [] ∧ policy = defaultPolicy.merge p := by
  unfold mergedPolicy at h
  split at h
  · rename_i p hp
    rw [hp] at hv
    exact ⟨p, hv, (Except.ok.inj h).symm⟩
  · cases h

/-- A document compiles when it is valid and its plan is built. -/
theorem compileWorkflow_eq_ok {py : Interpreter} {doc : Dict} {plan : Plan} :
    compileWorkflow py doc = .ok plan ↔
      ∃ report, validateWorkflow py doc = .ok report ∧ report.valid = true ∧
        buildPlan doc report = .ok plan := by
  unfold compileWorkflow
  cases validateWorkflow py doc with
  | error e => simp
  | ok report =>
    cases hv : report.valid with
    | false => simp [hv]
    | true => cases hbuild : buildPlan doc report <;> simp [hv, hbuild]

/-- The parts of a plan that was built: its edges, its nodes and its policy, read from the document. -/
theorem buildPlan_parts {doc : Dict} {report : ValidationReport} {plan : Plan}
    (h : buildPlan doc report = .ok plan) :
    ∃ edges ns, (documentEdges doc).mapM planEdge = .ok edges ∧
      (doc.getD "edges" (.arr [])).iter = .ok (documentEdges doc) ∧
      (getItem (.obj doc) "nodes" >>= Json.iter) = .ok ns ∧ ns.mapM planNode = .ok plan.nodes ∧
      mergedPolicy doc = .ok plan.globalPolicy ∧ plan.adjacency = groupEdges edges ∧
      plan.entryNodes = (plan.nodes.map (·.1)).filter (fun id => !(edges.map (fun e => e.2.target)).contains id) := by
  unfold buildPlan at h
  obtain ⟨es, hes, h⟩ := bind_eq_ok.mp h
  obtain ⟨edges, hedges, h⟩ := bind_eq_ok.mp h
  obtain ⟨nv, hnv, h⟩ := bind_eq_ok.mp h
  obtain ⟨ns, hns, h⟩ := bind_eq_ok.mp h
  obtain ⟨nodes, hnodes, h⟩ := bind_eq_ok.mp h
  obtain ⟨policy, hpolicy, h⟩ := bind_eq_ok.mp h
  obtain rfl := pure_eq_ok.mp h
  have hdoc : documentEdges doc = es := by
    unfold documentEdges
    rw [hes]
  rw [hdoc]
  exact ⟨edges, ns, hedges, hes, bind_eq_ok.mpr ⟨nv, hnv, hns⟩, hnodes, hpolicy, rfl, rfl⟩

/-- **Compilation.**  An accepted document's plan has its nodes, its edges, and no cycle. -/
theorem compileWorkflow_ok {py : Interpreter} {doc : Dict} {plan : Plan}
    (h : compileWorkflow py doc = .ok plan) : Compiled doc plan := by
  obtain ⟨report, hreport, hv, hbuild⟩ := compileWorkflow_eq_ok.mp h
  obtain ⟨ids, hacc⟩ := accepted_of_valid hreport hv
  obtain ⟨edges, ns, hedges, hes, hns, hnodes, hpolicy, hadjacency, hentry⟩ := buildPlan_parts hbuild
  obtain ⟨es, hes', hall, hcyc⟩ := hacc.edges
  obtain rfl : es = documentEdges doc := iter_edges_or hes' hes
  obtain rfl := getItem_nodes hacc.nodes_ne hns
  obtain ⟨hids, hdocument, hnode⟩ := planNodes_ok hacc.nodes (mapM_eq_ok hnodes)
  have hedge : ∀ {u v : String}, (∃ e, (u, e) ∈ edges ∧ e.target = v) ↔ HasEdge doc u v := by
    intro u v
    unfold HasEdge
    exact planEdges_ok hedges
  refine ⟨?_, hdocument, ?_, ?_, ?_, ?_, ?_, ?_⟩
  · rw [hids]
    exact hacc.nodup
  · intro id node hl
    obtain ⟨hm, t, ht⟩ := hnode (id, node) (mem_of_lookup hl)
    exact ⟨⟨hm, ht.id_eq⟩, t, ht⟩
  · intro u v
    rw [← hedge]
    unfold Plan.edgesFrom
    simp only [hadjacency, mem_groupEdges]
  · rintro u v ⟨j, hj, hends⟩
    rw [hids]
    exact ends_known hall hj hends
  · intro id
    rw [hentry, List.mem_filter]
    refine and_congr_right fun _ => ?_
    simp only [Bool.not_eq_true', List.contains_eq_mem, decide_eq_false_iff_not, List.mem_map, not_exists,
      not_and]
    constructor
    · rintro hno u he
      obtain ⟨e, hm, rfl⟩ := hedge.mpr he
      exact hno (u, e) hm rfl
    · rintro hno ⟨u, e⟩ hm rfl
      exact hno u (hedge.mp ⟨e, hm, rfl⟩)
  · exact acyclic_of_accepted hes' hall hcyc
  · exact mergedPolicy_ok hacc.policy hpolicy

end RevenueOS.Workflows
