import Mathlib
import QuadStore.Proofs.Fragment.Checking
/-!
# Where a removal fails

A removal can only fail where it deletes the literal vertices of a middle vertex: one that is joined
to the middle vertex by two edges is listed twice, and is gone when it is looked at again. Each other
step succeeds in every graph.
-/

namespace QuadStore

variable {α β : Type} {g g' : Graph}

/-! ## Steps that may fail -/

/-- The steps succeed on the graph and `Q` holds as for those that yield it, or they fail and `E`
holds of the cause and of the graph they leave. -/
def YieldsOr (steps : GraphM Transaction α) (g : Graph) (Q : α → Graph → Prop)
    (E : GraphError → Graph → Prop) : Prop :=
  ∀ t : Transaction, t.graph = g → (∃ a t', steps t = .ok a t' ∧ Q a t'.graph) ∨
    ∃ cause t', steps t = .error cause t' ∧ E cause t'.graph

namespace YieldsOr

variable {steps : GraphM Transaction α} {next : α → GraphM Transaction β} {Q : α → Graph → Prop}
  {R : β → Graph → Prop} {E : GraphError → Graph → Prop}

theorem bind (h : YieldsOr steps g Q E) (hnext : ∀ a g', Q a g' → YieldsOr (next a) g' R E) :
    YieldsOr (steps >>= next) g R E := by
  intro t ht
  obtain ⟨a, t', hrun, hq⟩ | ⟨cause, t', hrun, hcause⟩ := h t ht
  · rw [run_bind_ok hrun]
    exact hnext a t'.graph hq t' rfl
  · exact .inr ⟨cause, t', run_bind_error hrun, hcause⟩

theorem graph_bind {next : Graph → GraphM Transaction β} (h : YieldsOr (next g) g R E) :
    YieldsOr (GraphM.graph >>= next) g R E := by
  rintro t rfl
  exact h t rfl

theorem mono {E' : GraphError → Graph → Prop} (h : YieldsOr steps g Q E)
    (himp : ∀ c g', E c g' → E' c g') : YieldsOr steps g Q E' := fun t ht =>
  (h t ht).imp_right fun ⟨cause, t', hrun, hcause⟩ => ⟨cause, t', hrun, himp cause _ hcause⟩

/-- A read that fails. -/
theorem fail {f : Graph → Except GraphError α} {cause : GraphError} (hf : f g = .error cause)
    (h : E cause g) : YieldsOr (GraphM.read f >>= next) g R E := by
  rintro t rfl
  exact .inr ⟨cause, t, run_bind_error (GraphM.read_error hf), h⟩

end YieldsOr

theorem Yields.or {steps : GraphM Transaction α} {Q : α → Graph → Prop}
    {E : GraphError → Graph → Prop} (h : Yields steps g Q) : YieldsOr steps g Q E :=
  fun t ht => .inl (h t ht)

/-- Steps after which only steps come that may fail. -/
theorem Yields.bind_or {steps : GraphM Transaction α} {next : α → GraphM Transaction β}
    {Q : α → Graph → Prop} {R : β → Graph → Prop} {E : GraphError → Graph → Prop}
    (h : Yields steps g Q) (hnext : ∀ a g', Q a g' → YieldsOr (next a) g' R E) :
    YieldsOr (steps >>= next) g R E :=
  h.or.bind hnext

/-! ## Vertices joined twice -/

/-- The edge goes from one of the vertices to the other. -/
def Edge.Between (x : Edge) (m y : VertexId) : Prop :=
  (x.source = m ∧ x.target = y) ∨ (x.source = y ∧ x.target = m)

theorem Edge.between_other {x : Edge} {m : VertexId} (hx : x.meets m .both) :
    x.Between m (x.other m) := by
  simp only [Edge.meets, Bool.or_eq_true, beq_iff_eq] at hx
  unfold Edge.other
  split
  · rename_i hsource
    exact .inl ⟨hsource, rfl⟩
  · rename_i hsource
    exact .inr ⟨rfl, hx.resolve_left hsource⟩

/-- Two edges join the vertex in the middle with another vertex, which claims to be a literal. -/
structure TwiceJoined (v : Vocabulary) (g : Graph) (m y : VertexId) : Prop where
  ne : y ≠ m
  literal : ⟨v.kindKey, literalKind⟩ ∈ g.propertiesOf y
  edges : ∃ (d e : EdgeId) (x z : Edge), d ≠ e ∧ g.edges[d]? = some x ∧ g.edges[e]? = some z ∧
    x.Between m y ∧ z.Between m y

namespace TwiceJoined

variable {v : Vocabulary} {m y : VertexId}

/-- What is joined twice was so in every graph that says more. -/
theorem of_facts (h : TwiceJoined v g' m y) (hfacts : g'.facts ⊆ g.facts) : TwiceJoined v g m y where
  ne := h.ne
  literal := Graph.property_mem_facts.1 (hfacts (Graph.property_mem_facts.2 h.literal))
  edges := by
    have hedge : ∀ {d : EdgeId} {x : Edge}, g'.edges[d]? = some x → x.Between m y →
        ∃ z, g.edges[d]? = some z ∧ z.Between m y := by
      intro d x hx hbetween
      have hfact : .edge d x.source x.label x.target ∈ g'.facts :=
        Graph.edge_mem_facts.2 ⟨x, hx, rfl, rfl, rfl⟩
      obtain ⟨z, hz, hsource, -, htarget⟩ := Graph.edge_mem_facts.1 (hfacts hfact)
      refine ⟨z, hz, ?_⟩
      rwa [Edge.Between, hsource, htarget]
    obtain ⟨d, e, x, z, hne, hx, hz, hxm, hzm⟩ := h.edges
    obtain ⟨x', hx', hxm'⟩ := hedge hx hxm
    obtain ⟨z', hz', hzm'⟩ := hedge hz hzm
    exact ⟨d, e, x', z', hne, hx', hz', hxm', hzm'⟩

/-- A vertex that is listed twice at the ends of the edges of another is joined to it twice. -/
theorem of_duplicate (h : ((g.edgesAt m none .both).map fun e => e.2.other m).Duplicate y)
    (hne : y ≠ m) (hliteral : Fragment.holdsLiteral v g y) : TwiceJoined v g m y where
  ne := hne
  literal := Std.ExtTreeSet.contains_iff_mem.1 hliteral
  edges := by
    obtain ⟨es, hsublist, hends⟩ := List.sublist_map_iff.1 (List.duplicate_iff_sublist.1 h)
    obtain ⟨⟨d, x⟩, rest, rfl, hx, hrest⟩ := List.map_eq_cons_iff.1 hends.symm
    obtain ⟨⟨e, z⟩, rest, rfl, hz, hrest⟩ := List.map_eq_cons_iff.1 hrest
    have hnodup := (hsublist.map (·.1)).nodup Graph.nodup_edgesAt
    obtain ⟨hdx, hxm, -⟩ := Graph.mem_edgesAt.1 (hsublist.subset (List.mem_cons_self ..))
    obtain ⟨hez, hzm, -⟩ := Graph.mem_edgesAt.1
      (hsublist.subset (List.mem_cons_of_mem _ (List.mem_cons_self ..)))
    refine ⟨d, e, x, z, fun heq => ?_, hdx, hez, hx ▸ Edge.between_other hxm,
      hz ▸ Edge.between_other hzm⟩
    simp [heq] at hnodup

end TwiceJoined

/-- What was done to the graph deleted a middle vertex and one joined to it twice, and then failed to
find the second. -/
structure Missed (v : Vocabulary) (g : Graph) (m y : VertexId) (cause : GraphError) (g' : Graph) :
    Prop where
  twice : TwiceJoined v g m y
  middle : m ∉ g'.vertices
  gone : y ∉ g'.vertices
  cause_eq : cause = .vertexNotFound y.number

namespace Graph

/-- A vertex that is there is deleted, and the others stay. -/
theorem deleteVertex_yields {x : VertexId} (hg : g.WellFormed) (hx : x ∈ g.vertices) :
    Yields (GraphM.perform (.deleteVertex x)) g fun (deleted : Bool) g' =>
      deleted = true ∧ g'.WellFormed ∧ ∀ y, y ∈ g'.vertices ↔ y ∈ g.vertices ∧ y ≠ x := by
  have hdata := Std.ExtTreeMap.getElem?_eq_some_getElem hx
  have hperforms : g.Performs (.deleteVertex x) .. := .deleteVertex hdata
  refine .perform hperforms ⟨rfl, hperforms.wellFormed hg, fun y => ?_⟩
  obtain ⟨-, hvertices, -⟩ := appliesAll_deletionChanges hg hdata
  rw [hvertices, Std.ExtTreeMap.mem_erase, Ne, Std.compare_eq_iff_eq, and_comm, ← Ne, ne_comm]

/-- Whether the vertex is there or not, deleting it succeeds. -/
theorem deleteVertex_always (g : Graph) (x : VertexId) :
    Yields (GraphM.perform (.deleteVertex x)) g fun _ _ => True := by
  by_cases hx : x ∈ g.vertices
  · exact .perform (.deleteVertex (Std.ExtTreeMap.getElem?_eq_some_getElem hx)) trivial
  · exact .perform (.deleteVertex_gone hx) trivial

end Graph

namespace Fragment

variable {f : Fragment} {v : Vocabulary} {a : Assignment} {r : Removal} {n : Node} {i : Nat}
  {x m : VertexId} {owned : List VertexId}

/-! ## Middle vertices -/

theorem removeLiteralVertex_deletes (hg : g.WellFormed) (hx : x ∈ g.vertices) :
    Yields (removeLiteralVertex r x) g fun _ g' =>
      g'.WellFormed ∧ ∀ y, y ∈ g'.vertices ↔ y ∈ g.vertices ∧ y ≠ x := by
  refine (Yields.read (Q := fun _ g' => g' = g) (Graph.findEdges_ok hx) rfl).bind ?_
  rintro es _ rfl
  refine (Graph.deleteVertex_yields hg hx).bind ?_
  rintro _ g' ⟨rfl, hg', hvertices⟩
  exact .pure ⟨hg', hvertices⟩

/-- Literal vertices of the graph are all deleted, unless one is listed twice. A vertex that is gone
stays so. -/
theorem removeLiteralVertices_yieldsOr (hg : g.WellFormed) (h : ∀ y ∈ owned, y ∈ g.vertices)
    (hm : m ∉ g.vertices) :
    YieldsOr (owned.foldlM removeLiteralVertex r) g (fun _ _ => True) fun cause g' =>
      ∃ y, owned.Duplicate y ∧ m ∉ g'.vertices ∧ y ∉ g'.vertices ∧
        cause = .vertexNotFound y.number := by
  -- those that are gone are among those that are done
  suffices hrest : ∀ (rest done : List VertexId) (g : Graph) (r : Removal), g.WellFormed →
      owned = done ++ rest → (∀ y ∈ rest, y ∈ done ∨ y ∈ g.vertices) → m ∉ g.vertices →
      YieldsOr (rest.foldlM removeLiteralVertex r) g (fun _ _ => True) fun cause g' =>
        ∃ y, owned.Duplicate y ∧ m ∉ g'.vertices ∧ y ∉ g'.vertices ∧
          cause = .vertexNotFound y.number from
    hrest owned [] g r hg rfl (fun y hy => .inr (h y hy)) hm
  intro rest
  induction rest with
  | nil => exact fun _ _ _ _ _ _ _ => (Yields.pure trivial).or
  | cons x rest ih =>
    intro done g r hg happend hleft hm
    rw [List.foldlM_cons]
    by_cases hx : x ∈ g.vertices
    · refine (removeLiteralVertex_deletes hg hx).bind_or fun r' g' ⟨hg', hvertices⟩ => ?_
      refine ih (done ++ [x]) g' r' hg' (by simp [happend]) (fun y hy => ?_) fun hmem =>
        hm ((hvertices m).1 hmem).1
      rw [List.mem_append, List.mem_singleton, hvertices]
      have := hleft y (List.mem_cons_of_mem _ hy)
      tauto
    · have hdone := (hleft x (List.mem_cons_self ..)).resolve_right hx
      rw [removeLiteralVertex, bind_assoc]
      refine .fail (Graph.findEdges_missing hx) ⟨x, ?_, hm, hx, rfl⟩
      rw [happend, List.duplicate_iff_two_le_count, List.count_append, List.count_cons_self]
      have := List.one_le_count_iff.2 hdone
      omega

theorem removeMiddleVertex_yieldsOr (hg : g.WellFormed) (hm : m ∈ g.vertices) :
    YieldsOr (removeMiddleVertex v m r) g (fun _ _ => True) fun cause g' =>
      ∃ y, Missed v g m y cause g' := by
  refine .graph_bind ((Graph.deleteVertex_yields hg hm).bind_or ?_)
  rintro _ g' ⟨rfl, hg', hvertices⟩
  simp only [if_true, pure_bind]
  refine (removeLiteralVertices_yieldsOr hg' (fun y hy => ?_) fun hmem =>
    ((hvertices m).1 hmem).2 rfl).mono ?_
  · rw [List.mem_filter, List.mem_filter, List.mem_map, bne_iff_ne] at hy
    obtain ⟨⟨⟨⟨id, z⟩, hz, rfl⟩, hne⟩, -⟩ := hy
    exact (hvertices _).2 ⟨vertex_of_edge hg hz, hne⟩
  · rintro cause g'' ⟨y, hy, hmgone, hygone, hcause⟩
    have hmem := hy.mem
    rw [List.mem_filter, List.mem_filter, bne_iff_ne] at hmem
    have htwice : TwiceJoined v g m y := .of_duplicate ((hy.mono_sublist
      List.filter_sublist).mono_sublist List.filter_sublist) hmem.1.2 hmem.2
    exact ⟨y, htwice, hmgone, hygone, hcause⟩

theorem removeMiddle_yieldsOr (hg : g.WellFormed) (ha : g.Hosts a) :
    YieldsOr (f.removeMiddle v a r i n) g (fun _ _ => True) fun cause g' =>
      ∃ m y, a[i]? = some m ∧ Missed v g m y cause g' := by
  unfold removeMiddle
  cases hmiddle : if n.hasTag .middle then a[i]? else none with
  | none => exact (Yields.pure trivial).or
  | some m =>
    have hi : a[i]? = some m := by
      split at hmiddle
      · exact hmiddle
      · cases hmiddle
    have hm : m ∈ g.vertices := ha i m hi
    obtain ⟨data, hdata, -⟩ := Graph.vertex_ok hm
    refine (Yields.read (Q := fun _ g' => g' = g) hdata rfl).bind_or ?_
    rintro _ _ rfl
    refine .graph_bind ?_
    dsimp only
    split
    · refine (removeMiddleVertex_yieldsOr hg hm).mono ?_
      rintro cause g' ⟨y, hmissed⟩
      exact ⟨m, y, hi, hmissed⟩
    · exact (Yields.pure trivial).or

/-! ## The whole removal -/

/-- At most one node of the fragment stands for a middle vertex. -/
def OneMiddle (f : Fragment) : Prop :=
  ∀ (i j : Nat) (n m : Node), f.nodes[i]? = some n → f.nodes[j]? = some m → n.hasTag .middle →
    m.hasTag .middle → i = j

/-- The vertex of a middle node is deleted, and one joined to it twice is then not found. -/
def FailsAt (f : Fragment) (v : Vocabulary) (a : Assignment) (g : Graph) (cause : GraphError)
    (g' : Graph) : Prop :=
  ∃ (i : Nat) (n : Node) (m y : VertexId), f.nodes[i]? = some n ∧ n.hasTag .middle ∧
    a[i]? = some m ∧ Missed v g m y cause g'

theorem removeMiddles_yieldsOr (hf : f.OneMiddle) (hg : g.WellFormed) (ha : g.Hosts a) :
    YieldsOr (f.nodes.zipIdx.foldlM (fun r (n, i) => f.removeMiddle v a r i n) r) g
      (fun _ _ => True) (f.FailsAt v a g) := by
  by_cases hmiddle : ∃ z ∈ f.nodes.zipIdx, z.1.hasTag .middle
  · obtain ⟨⟨n, i⟩, hz, htag⟩ := hmiddle
    have hn := List.mem_zipIdx_iff_getElem?.1 hz
    have hother : ∀ z ∈ f.nodes.zipIdx, z ≠ (n, i) → z.1.hasTag .middle = false := by
      rintro ⟨m, j⟩ hm hne
      rw [← Bool.not_eq_true]
      intro hmtag
      have hm := List.mem_zipIdx_iff_getElem?.1 hm
      obtain rfl : i = j := hf i j n m hn hm htag hmtag
      cases hn.symm.trans hm
      exact hne rfl
    rw [foldlM_single nodup_zipIdx hz fun z hz hne r => removeMiddle_skip (hother z hz hne)]
    refine (removeMiddle_yieldsOr hg ha).mono ?_
    rintro cause g' ⟨m, y, hi, hmissed⟩
    exact ⟨i, n, m, y, hn, htag, hi, hmissed⟩
  · have hnone : ∀ z ∈ f.nodes.zipIdx, z.1.hasTag .middle = false := fun z hz => by
      rw [← Bool.not_eq_true]
      exact fun htag => hmiddle ⟨z, hz, htag⟩
    rw [foldlM_skip fun z hz r => removeMiddle_skip (hnone z hz)]
    exact (Yields.pure trivial).or

theorem releaseIndexes_always (f : Fragment) (a : Assignment) (r : Removal) (g : Graph) :
    Yields (f.nodes.zipIdx.forM fun (n, i) => releaseIndex a r i n) g fun _ _ => True :=
  Yields.forM (I := fun _ _ => True)
    (fun _ _ _ _ _ => releaseIndex_spares.mono fun _ _ _ => trivial) trivial

theorem collect_always (v : Vocabulary) (r : Removal) (x : VertexId) (g : Graph) :
    Yields (collect v r x) g fun _ _ => True := by
  refine Yields.graph_bind ?_
  split
  · refine (Graph.deleteVertex_always g x).bind fun deleted g' _ => ?_
    cases deleted with
    | true => exact .pure trivial
    | false => exact .pure trivial
  · exact .pure trivial

theorem removeAssigned_yieldsOr (hf : f.OneMiddle) (hg : g.WellFormed) (ha : g.Hosts a) :
    YieldsOr (f.removeAssigned v a) g (fun _ _ => True) (f.FailsAt v a g) := by
  refine Yields.bind_or (Q := fun r g' => g.Spares g' ∧ Tallies g r.report g')
    ((removeContents_spares ha).and_ensures (removeContents_tallies (.start hg))) fun r₁ g₁ h₁ => ?_
  refine (removeEdges_spares.and_ensures (Ensures.foldlM
    (I := fun (r : Removal) => Tallies g r.report) (fun _ _ _ _ h => removeEdge_tallies h)
    h₁.2)).bind_or fun r₂ g₂ h₂ => ?_
  have hhosts : g₂.Hosts a := (ha.spares h₁.1).spares h₂.1
  refine YieldsOr.bind ((removeMiddles_yieldsOr hf h₂.2.loses.wellFormed hhosts).mono ?_)
    fun r₃ g₃ _ => ?_
  · rintro cause g' ⟨i, n, m, y, hn, htag, hi, hmissed⟩
    exact ⟨i, n, m, y, hn, htag, hi,
      { hmissed with twice := hmissed.twice.of_facts h₂.2.loses.facts }⟩
  · refine (releaseIndexes_always f a r₃ g₃).bind_or fun _ g₄ _ => ?_
    have hcollect : Yields (r₃.touched.toList.foldlM (collect v) r₃) g₄ fun _ _ => True :=
      Yields.foldlM (I := fun _ _ _ => True) (fun x _ _ r g _ => collect_always v r x g) trivial
    exact hcollect.bind_or fun _ _ _ => (Yields.pure trivial).or

/-- Removing a fragment with one middle vertex succeeds in every graph, unless that vertex is joined
to a literal vertex twice. -/
theorem removeFrom_yieldsOr (hf : f.OneMiddle) (hg : g.WellFormed) :
    YieldsOr (f.removeFrom v) g (fun _ _ => True) fun cause g' =>
      ∃ a, f.locate? g = some a ∧ f.FailsAt v a g cause g' := by
  refine .graph_bind ?_
  cases ha : f.locate? g with
  | none => exact (Yields.pure trivial).or
  | some a =>
    exact (removeAssigned_yieldsOr hf hg (locate?_hosts hg ha)).mono fun _ _ hfails =>
      ⟨a, rfl, hfails⟩

end Fragment

end QuadStore
