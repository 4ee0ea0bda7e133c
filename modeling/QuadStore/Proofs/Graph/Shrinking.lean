import Mathlib
import QuadStore.Proofs.Containers
import QuadStore.Proofs.Graph.Facts
/-!
# Graphs that only lose

A mutation that takes something out leaves a graph that says less, and the sizes tell how many
vertices and edges went. A vertex takes the edges that meet it along.
-/

namespace QuadStore

namespace Graph

variable {g g' g'' : Graph} {v : VertexId} {e : EdgeId} {entry : Entry}
  {vertices edges vertices' edges' : Nat}

/-- The second graph says nothing that the first does not, and has so many vertices and edges less.
-/
structure Loses (g : Graph) (vertices edges : Nat) (g' : Graph) : Prop where
  wellFormed : g'.WellFormed
  facts : g'.facts ⊆ g.facts
  vertexCount : g'.vertexCount + vertices = g.vertexCount
  edgeCount : g'.edgeCount + edges = g.edgeCount
  lastVertex : g'.lastVertex = g.lastVertex
  lastEdge : g'.lastEdge = g.lastEdge

namespace Loses

theorem refl (hg : g.WellFormed) : g.Loses 0 0 g := ⟨hg, subset_rfl, rfl, rfl, rfl, rfl⟩

theorem trans (h : g.Loses vertices edges g') (h' : g'.Loses vertices' edges' g'') :
    g.Loses (vertices + vertices') (edges + edges') g'' where
  wellFormed := h'.wellFormed
  facts := h'.facts.trans h.facts
  vertexCount := by
    have := h.vertexCount
    have := h'.vertexCount
    omega
  edgeCount := by
    have := h.edgeCount
    have := h'.edgeCount
    omega
  lastVertex := h'.lastVertex.trans h.lastVertex
  lastEdge := h'.lastEdge.trans h.lastEdge

/-- A graph that lost nothing is the same. -/
theorem eq_of_facts (h : g.Loses vertices edges g') (hg : g.WellFormed)
    (hfacts : g'.facts = g.facts) : g' = g := by
  have hcontent := content_eq_of_facts hg h.wellFormed hfacts
  simp only [content, Graph.mk.injEq, and_true] at hcontent
  obtain ⟨hvertices, hedges, hkeys, hvalues⟩ := hcontent
  cases g
  cases g'
  simp only [Graph.mk.injEq]
  exact ⟨hvertices, hedges, hkeys, hvalues, h.lastVertex, h.lastEdge⟩

end Loses

/-- The graphs say the same but for their index entries. -/
def Alike (g g' : Graph) : Prop :=
  ∀ f : Fact VertexId EdgeId, (∀ v entry, f ≠ .indexed v entry) → (f ∈ g'.facts ↔ f ∈ g.facts)

theorem Alike.refl (g : Graph) : g.Alike g := fun _ _ => Iff.rfl

theorem Alike.trans (h : g.Alike g') (h' : g'.Alike g'') : g.Alike g'' := fun f hf =>
  (h' f hf).trans (h f hf)

/-! ## Counters -/

theorem last_apply_keyMoved {before after : Option VertexId} :
    ((Change.keyMoved entry before after).apply g).lastVertex = g.lastVertex ∧
      ((Change.keyMoved entry before after).apply g).lastEdge = g.lastEdge := by
  cases before <;> cases after <;> exact ⟨rfl, rfl⟩

/-- A deletion gives no number out. -/
theorem last_applyAll_deletionChanges (g : Graph) (v : VertexId) (data : Vertex) :
    (g.applyAll (g.deletionChanges v data)).lastVertex = g.lastVertex ∧
      (g.applyAll (g.deletionChanges v data)).lastEdge = g.lastEdge := by
  have hstep : ∀ c ∈ g.deletionChanges v data, ∀ g₁ : Graph,
      (c.apply g₁).lastVertex = g₁.lastVertex ∧ (c.apply g₁).lastEdge = g₁.lastEdge := by
    intro c hc g₁
    simp only [deletionChanges, List.mem_append, List.mem_map, List.mem_singleton] at hc
    rcases hc with ((⟨-, -, rfl⟩ | ⟨-, -, rfl⟩) | ⟨-, -, rfl⟩) | rfl
    · exact ⟨rfl, rfl⟩
    · exact last_apply_keyMoved
    · exact ⟨rfl, rfl⟩
    · exact ⟨rfl, rfl⟩
  generalize g.deletionChanges v data = cs at hstep
  induction cs generalizing g with
  | nil => exact ⟨rfl, rfl⟩
  | cons c cs ih =>
    obtain ⟨hvertex, hedge⟩ := hstep c (List.mem_cons_self ..) g
    obtain ⟨hvertex', hedge'⟩ := ih (g := c.apply g) fun d hd => hstep d (List.mem_cons_of_mem _ hd)
    exact ⟨hvertex'.trans hvertex, hedge'.trans hedge⟩

/-! ## Sizes -/

theorem nodup_toList_edges : g.edges.toList.Nodup :=
  g.edges.distinct_keys_toList.imp fun h heq =>
    h (Std.compare_eq_iff_eq.2 (congrArg Prod.fst heq))

/-- The edges that meet a vertex are those that go with it. -/
theorem edgeCount_deletion (hg : g.WellFormed) {data : Vertex} (h : g.vertices[v]? = some data) :
    (g.applyAll (g.deletionChanges v data)).edgeCount + (g.edgesAt v none .both).length =
      g.edgeCount := by
  obtain ⟨-, -, hedges⟩ := appliesAll_deletionChanges hg h
  have hdisjoint : List.Disjoint (g.applyAll (g.deletionChanges v data)).edges.toList
      (g.edgesAt v none .both) := by
    rintro ⟨e, x⟩ hkept hgone
    rw [Std.ExtTreeMap.mem_toList_iff_getElem?_eq_some, hedges, Option.filter_eq_some_iff] at hkept
    simp [(mem_edgesAt.1 hgone).2.1] at hkept
  have hperm : ((g.applyAll (g.deletionChanges v data)).edges.toList ++
      g.edgesAt v none .both).Perm g.edges.toList := by
    refine (List.perm_ext_iff_of_nodup ?_ nodup_toList_edges).2 ?_
    · exact nodup_toList_edges.append (nodup_toList_edges.filter _) hdisjoint
    · rintro ⟨e, x⟩
      rw [List.mem_append, Std.ExtTreeMap.mem_toList_iff_getElem?_eq_some,
        Std.ExtTreeMap.mem_toList_iff_getElem?_eq_some, hedges, Option.filter_eq_some_iff,
        mem_edgesAt]
      simp only [Option.mem_def, reduceCtorEq, false_implies, implies_true, and_true]
      cases x.meets v .both <;> simp
  have hlength := hperm.length_eq
  rwa [List.length_append, Std.ExtTreeMap.length_toList, Std.ExtTreeMap.length_toList] at hlength

/-! ## Mutations -/

/-- What a mutation that takes something out leaves: the graph as it was if it declined, and else
one that lost something. -/
def Lessens (g : Graph) (vertices edges : Nat) (changed : Bool) (g' : Graph) : Prop :=
  if changed then g.Loses vertices edges g' ∧ ∃ x ∈ g.facts, x ∉ g'.facts else g' = g

section Mutations

variable {m : Mutation} {changed : Bool} {cs : List Change}

theorem Performs.removeProperty_lessens (hg : g.WellFormed)
    (h : g.Performs (.removeProperty v entry) changed cs) :
    g.Lessens 0 0 changed (g.applyAll cs) := by
  have hwf := h.wellFormed hg
  cases h with
  | removeProperty hv hold =>
    have hfacts : (g.applyAll [.propertyRemoved v entry]).facts = g.facts \ {.property v entry} :=
      facts_propertyRemoved
    refine ⟨⟨hwf, hfacts ▸ Set.sdiff_subset, ?_, rfl, rfl, rfl⟩, .property v entry, ?_, ?_⟩
    · exact Std.ExtTreeMap.size_modify
    · exact property_mem_facts.2 hold
    · rw [hfacts]
      simp
  | removeProperty_gone => rfl

theorem Performs.removeEdgeProperty_lessens (hg : g.WellFormed)
    (h : g.Performs (.removeEdgeProperty e entry) changed cs) :
    g.Lessens 0 0 changed (g.applyAll cs) := by
  have hwf := h.wellFormed hg
  cases h with
  | removeEdgeProperty he hold =>
    have hfacts : (g.applyAll [.edgePropertyRemoved e entry]).facts =
        g.facts \ {.edgeProperty e entry} :=
      facts_edgePropertyRemoved
    refine ⟨⟨hwf, hfacts ▸ Set.sdiff_subset, rfl, ?_, rfl, rfl⟩, .edgeProperty e entry, ?_, ?_⟩
    · exact Std.ExtTreeMap.size_modify
    · exact edgeProperty_mem_facts.2 hold
    · rw [hfacts]
      simp
  | removeEdgeProperty_gone => rfl

theorem Performs.deleteEdge_lessens (hg : g.WellFormed)
    (h : g.Performs (.deleteEdge e) changed cs) :
    g.Lessens 0 1 changed (g.applyAll cs) := by
  have hwf := h.wellFormed hg
  cases h with
  | @deleteEdge e x hx =>
    have hfacts : (g.applyAll [.edgeRemoved e x]).facts = {f ∈ g.facts | ¬f.OnEdge e} :=
      facts_edgeRemoved (x := x)
    refine ⟨⟨hwf, hfacts ▸ Set.sep_subset .., rfl, ?_, rfl, rfl⟩,
      .edge e x.source x.label x.target, ⟨x, hx, rfl, rfl, rfl⟩, ?_⟩
    · exact size_erase_of_mem (mem_of_getElem?_eq hx)
    · rw [hfacts]
      simp [Fact.OnEdge]
  | deleteEdge_gone => rfl

theorem Performs.deleteVertex_lessens (hg : g.WellFormed)
    (h : g.Performs (.deleteVertex v) changed cs) :
    g.Lessens 1 (g.edgesAt v none .both).length changed (g.applyAll cs) := by
  have hwf := h.wellFormed hg
  cases h with
  | @deleteVertex v x hx =>
    have hfacts := facts_deletion hg hx
    obtain ⟨-, hvertices, -⟩ := appliesAll_deletionChanges hg hx
    obtain ⟨hvertex, hedge⟩ := last_applyAll_deletionChanges g v x
    refine ⟨⟨hwf, hfacts ▸ Set.sep_subset .., ?_, edgeCount_deletion hg hx, hvertex, hedge⟩,
      .vertex v, mem_of_getElem?_eq hx, ?_⟩
    · rw [vertexCount, hvertices]
      exact size_erase_of_mem (mem_of_getElem?_eq hx)
    · rw [hfacts]
      simp [Fact.DependsOn]
  | deleteVertex_gone => rfl

theorem Performs.deleteVertex_of_mem (hv : v ∈ g.vertices)
    (h : g.Performs (.deleteVertex v) changed cs) : changed = true := by
  cases h with
  | deleteVertex => rfl
  | deleteVertex_gone hgone => exact absurd hv hgone

theorem Performs.unindexVertex_loses (hg : g.WellFormed)
    (h : g.Performs (.unindexVertex v entry) changed cs) :
    g.Loses 0 0 (g.applyAll cs) ∧ g.Alike (g.applyAll cs) := by
  have hwf := h.wellFormed hg
  cases h with
  | unindexVertex =>
    have hfacts : (g.applyAll [.valueUnindexed entry v]).facts = g.facts \ {.indexed v entry} :=
      facts_valueUnindexed
    refine ⟨⟨hwf, hfacts ▸ Set.sdiff_subset, Std.ExtTreeMap.size_modify, rfl, rfl, rfl⟩, ?_⟩
    intro f hf
    rw [hfacts, Set.mem_sdiff, Set.mem_singleton_iff, and_iff_left (hf v entry)]
  | unindexVertex_gone => exact ⟨.refl hg, .refl g⟩

end Mutations

end Graph

end QuadStore
