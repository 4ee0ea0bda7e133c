import Mathlib
import QuadStore.Proofs.Containers
import QuadStore.Proofs.Graph.Steps
/-!
# Graphs that only gain

A mutation that puts something in leaves a graph that says what it said before and more, whatever
the graph was. New edges are younger than all others, so the oldest edge between two vertices stays
the oldest.
-/

namespace QuadStore

namespace Graph

variable {g g' g'' : Graph} {v w : VertexId} {e d : EdgeId} {entry : Entry} {label : String}
  {X Y : Set (Fact VertexId EdgeId)} {vertices edges vertices' edges' : Nat}

/-! ## Gains -/

/-- The second graph says what the first says and these facts, and has so many vertices and edges
more. -/
structure Gains (g : Graph) (X : Set (Fact VertexId EdgeId)) (vertices edges : Nat) (g' : Graph) :
    Prop where
  wellFormed : g'.WellFormed
  facts : g'.facts = g.facts ∪ X
  vertexCount : g'.vertexCount = g.vertexCount + vertices
  edgeCount : g'.edgeCount = g.edgeCount + edges
  lastEdge : g.lastEdge ≤ g'.lastEdge
  younger : ∀ e v label w, .edge e v label w ∈ X →
    .edge e v label w ∈ g.facts ∨ g.lastEdge < e.number
  /-- A graph that was told nothing new is as it was, down to its counters. -/
  same : X ⊆ g.facts → g' = g

namespace Gains

theorem refl (hg : g.WellFormed) : g.Gains ∅ 0 0 g where
  wellFormed := hg
  facts := (Set.union_empty _).symm
  vertexCount := rfl
  edgeCount := rfl
  lastEdge := le_rfl
  younger _ _ _ _ h := h.elim
  same _ := rfl

theorem mono (h : g.Gains X vertices edges g') : g.facts ⊆ g'.facts := by
  rw [h.facts]
  exact Set.subset_union_left

theorem trans (h : g.Gains X vertices edges g') (h' : g'.Gains Y vertices' edges' g'') :
    g.Gains (X ∪ Y) (vertices + vertices') (edges + edges') g'' where
  wellFormed := h'.wellFormed
  facts := by rw [h'.facts, h.facts, Set.union_assoc]
  vertexCount := by rw [h'.vertexCount, h.vertexCount, Nat.add_assoc]
  edgeCount := by rw [h'.edgeCount, h.edgeCount, Nat.add_assoc]
  lastEdge := h.lastEdge.trans h'.lastEdge
  younger e v label w := by
    rintro (hX | hY)
    · exact h.younger e v label w hX
    · obtain hold | hnew := h'.younger e v label w hY
      · rw [h.facts] at hold
        exact hold.elim .inl (h.younger e v label w)
      · exact .inr (h.lastEdge.trans_lt hnew)
  same hsub := by
    obtain ⟨hX, hY⟩ := Set.union_subset_iff.1 hsub
    rw [h'.same (hY.trans h.mono), h.same hX]

theorem congr (h : g.Gains X vertices edges g') (hX : X = Y) : g.Gains Y vertices edges g' := hX ▸ h

/-- One fact more. -/
theorem insert {x : Fact VertexId EdgeId} (hwf : g'.WellFormed)
    (hfacts : g'.facts = Insert.insert x g.facts) (hnew : x ∉ g.facts)
    (hvertices : g'.vertexCount = g.vertexCount + vertices)
    (hedges : g'.edgeCount = g.edgeCount + edges) (hlast : g.lastEdge ≤ g'.lastEdge)
    (hedge : ∀ e v label w, x = .edge e v label w → g.lastEdge < e.number) :
    g.Gains {x} vertices edges g' where
  wellFormed := hwf
  facts := by rw [hfacts, Set.union_singleton]
  vertexCount := hvertices
  edgeCount := hedges
  lastEdge := hlast
  younger e v label w h := .inr (hedge e v label w (Set.mem_singleton_iff.1 h).symm)
  same h := absurd (Set.singleton_subset_iff.1 h) hnew

/-- A fact that was there. -/
theorem old {x : Fact VertexId EdgeId} (hg : g.WellFormed) (hx : x ∈ g.facts) :
    g.Gains {x} 0 0 g where
  wellFormed := hg
  facts := (Set.union_eq_left.2 (Set.singleton_subset_iff.2 hx)).symm
  vertexCount := rfl
  edgeCount := rfl
  lastEdge := le_rfl
  younger _ _ _ _ h := .inl (Set.mem_singleton_iff.1 h ▸ hx)
  same _ := rfl

theorem vertex (h : g.Gains X vertices edges g') (hv : v ∈ g.vertices) : v ∈ g'.vertices :=
  h.mono (vertex_mem_facts.2 hv)

theorem edge (h : g.Gains X vertices edges g') (he : e ∈ g.edges) : e ∈ g'.edges := by
  have hx := Std.ExtTreeMap.getElem?_eq_some_getElem he
  obtain ⟨x', hx', -⟩ := h.mono (edge_mem_facts.2 ⟨_, hx, rfl, rfl, rfl⟩)
  exact mem_of_getElem?_eq hx'

theorem lookup (h : g.Gains X vertices edges g') (hg : g.WellFormed)
    (hv : g.lookup? entry = some v) : g'.lookup? entry = some v :=
  (h.wellFormed.lookup entry v).2 (h.mono (key_mem_facts.2 ((hg.lookup entry v).1 hv)))

theorem lookupValue (h : g.Gains X vertices edges g') (hg : g.WellFormed)
    (hv : v ∈ g.lookupValue entry) : v ∈ g'.lookupValue entry :=
  (h.wellFormed.lookupValue entry v).2
    (h.mono (indexed_mem_facts.2 ((hg.lookupValue entry v).1 hv)))

/-- The oldest edge between two vertices stays the oldest. -/
theorem findEdge (h : g.Gains X vertices edges g') (hg : g.WellFormed)
    (he : g.findEdge? v label w = some e) : g'.findEdge? v label w = some e := by
  obtain ⟨hthere, hleast⟩ := findEdge?_eq_some.1 he
  refine findEdge?_eq_some.2 ⟨h.mono hthere, fun d hd => ?_⟩
  rw [h.facts] at hd
  have hold : .edge d v label w ∈ g.facts ∨ g.lastEdge < d.number :=
    hd.elim .inl (h.younger d v label w)
  obtain hold | hyoung := hold
  · exact hleast d hold
  · obtain ⟨x, hx, -⟩ := edge_mem_facts.1 hthere
    have hnumber := hg.edgeNumber e (mem_of_getElem?_eq hx)
    omega

end Gains

/-! ## Mutations -/

theorem createVertex_gains (hg : g.WellFormed) :
    Yields (GraphM.perform .createVertex) g
      fun v g' => v ∉ g.vertices ∧ g.Gains {.vertex v} 1 0 g' := by
  have hperforms : g.Performs .createVertex .. := .createVertex
  have hnew := hg.nextVertex
  exact Yields.perform hperforms ⟨hnew, .insert (hperforms.wellFormed hg)
    (facts_vertexAdded hnew) hnew (size_insert_of_notMem hnew) rfl le_rfl (by simp)⟩

theorem addProperty_gains (hg : g.WellFormed) (hv : v ∈ g.vertices) :
    Yields (GraphM.perform (.addProperty v entry)) g
      fun _ g' => g.Gains {.property v entry} 0 0 g' := by
  by_cases hold : entry ∈ g.propertiesOf v
  · exact Yields.perform (.addProperty_again hv hold) (.old hg (property_mem_facts.2 hold))
  · have hperforms : g.Performs (.addProperty v entry) .. := .addProperty hv hold
    exact Yields.perform hperforms (.insert (hperforms.wellFormed hg) (facts_propertyAdded hv)
      (mt property_mem_facts.1 hold) Std.ExtTreeMap.size_modify rfl le_rfl (by simp))

theorem indexVertex_gains (hg : g.WellFormed) (hv : v ∈ g.vertices) :
    Yields (GraphM.perform (.indexVertex v entry)) g
      fun _ g' => g.Gains {.indexed v entry} 0 0 g' := by
  by_cases hold : entry ∈ g.indexedOf v
  · exact Yields.perform (.indexVertex_again hv hold) (.old hg (indexed_mem_facts.2 hold))
  · have hperforms : g.Performs (.indexVertex v entry) .. := .indexVertex hv hold
    exact Yields.perform hperforms (.insert (hperforms.wellFormed hg) (facts_valueIndexed hv)
      (mt indexed_mem_facts.1 hold) Std.ExtTreeMap.size_modify rfl le_rfl (by simp))

theorem registerKey_gains (hg : g.WellFormed) (hv : v ∈ g.vertices)
    (hfree : g.lookup? entry = none) :
    Yields (GraphM.perform (.registerKey v entry)) g fun _ g' => g.Gains {.key v entry} 0 0 g' := by
  have hperforms : g.Performs (.registerKey v entry) .. := .registerKey hv (by simp [hfree])
  have hnew : .key v entry ∉ g.facts := by
    rw [key_mem_facts, ← hg.lookup, hfree]
    simp
  rw [hfree] at hperforms
  exact Yields.perform hperforms (.insert (hperforms.wellFormed hg) (facts_keyClaimed hv) hnew
    Std.ExtTreeMap.size_modify rfl le_rfl (by simp))

theorem createEdge_gains (hg : g.WellFormed) (hv : v ∈ g.vertices) (hw : w ∈ g.vertices) :
    Yields (GraphM.perform (.createEdge v label w)) g
      fun e g' => g.Gains {.edge e v label w} 0 1 g' := by
  have hperforms : g.Performs (.createEdge v label w) .. := .createEdge hv hw
  have hnew := hg.nextEdge
  have hnone : .edge ⟨g.lastEdge + 1⟩ v label w ∉ g.facts := by
    rw [edge_mem_facts, Std.ExtTreeMap.getElem?_eq_none hnew]
    simp
  refine Yields.perform hperforms (.insert (hperforms.wellFormed hg) (facts_edgeAdded hnew) hnone
    rfl (size_insert_of_notMem hnew) ?_ ?_)
  · exact le_max_left ..
  · rintro e _ _ _ heq
    cases heq
    exact Nat.lt_succ_self _

theorem addEdgeProperty_gains (hg : g.WellFormed) (he : e ∈ g.edges) :
    Yields (GraphM.perform (.addEdgeProperty e entry)) g
      fun _ g' => g.Gains {.edgeProperty e entry} 0 0 g' := by
  by_cases hold : entry ∈ g.edgePropertiesOf e
  · exact Yields.perform (.addEdgeProperty_again he hold) (.old hg (edgeProperty_mem_facts.2 hold))
  · have hperforms : g.Performs (.addEdgeProperty e entry) .. := .addEdgeProperty he hold
    exact Yields.perform hperforms (.insert (hperforms.wellFormed hg) (facts_edgePropertyAdded he)
      (mt edgeProperty_mem_facts.1 hold) rfl Std.ExtTreeMap.size_modify le_rfl (by simp))

/-- A loop gains what its steps gain. -/
theorem Gains.forM {α : Type} {items : List α} {step : α → GraphM Transaction Unit}
    (added : α → Set (Fact VertexId EdgeId)) (hg : g.WellFormed)
    (hstep : ∀ a ∈ items, ∀ g' X, g.Gains X 0 0 g' →
      Yields (step a) g' fun _ g'' => g'.Gains (added a) 0 0 g'') :
    Yields (items.forM step) g fun _ g' => g.Gains {x | ∃ a ∈ items, x ∈ added a} 0 0 g' := by
  induction items generalizing g with
  | nil => exact Yields.pure ((Gains.refl hg).congr (by simp))
  | cons a rest ih =>
    refine (hstep a (List.mem_cons_self ..) g ∅ (.refl hg)).bind fun _ g₁ h₁ => ?_
    refine (ih h₁.wellFormed fun b hb g' X h' =>
      hstep b (List.mem_cons_of_mem _ hb) g' _ (h₁.trans h')).mono fun _ g₂ h₂ => ?_
    refine (h₁.trans h₂).congr ?_
    ext x
    simp

end Graph

end QuadStore
