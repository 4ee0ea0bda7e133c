import Mathlib
import QuadStore.Proofs.Graph.Views
/-!
# Ways a mutation can go

A mutation finds the graph in one of a few situations, and the situation decides what it answers and
which changes it amounts to. The proofs about mutations go by these ways, so that the effect of a
mutation is taken apart here only.
-/

namespace QuadStore

namespace Graph

/-- What a mutation that succeeds answers and the changes it amounts to, one rule for each way it
can go. Where a mutation has two ways, the second is to find that there is nothing to do. -/
inductive Performs (g : Graph) : (m : Mutation) → m.Answer → List Change → Prop where
  | registerKey {v entry} (hv : v ∈ g.vertices) (hother : g.lookup? entry ≠ some v) :
    g.Performs (.registerKey v entry) () [.keyMoved entry (g.lookup? entry) (some v)]
  | registerKey_again {v entry} (hv : v ∈ g.vertices) (hown : g.lookup? entry = some v) :
    g.Performs (.registerKey v entry) () []
  | unregisterKey {v entry} (hv : g.lookup? entry = some v) :
    g.Performs (.unregisterKey entry) true [.keyMoved entry (some v) none]
  | unregisterKey_gone {entry} (hgone : g.lookup? entry = none) :
    g.Performs (.unregisterKey entry) false []
  | createVertex :
    g.Performs .createVertex ⟨g.lastVertex + 1⟩ [.vertexAdded ⟨g.lastVertex + 1⟩ ∅]
  | deleteVertex {v data} (hv : g.vertices[v]? = some data) :
    g.Performs (.deleteVertex v) true (g.deletionChanges v data)
  | deleteVertex_gone {v} (hgone : v ∉ g.vertices) : g.Performs (.deleteVertex v) false []
  | addProperty {v entry} (hv : v ∈ g.vertices) (hnew : entry ∉ g.propertiesOf v) :
    g.Performs (.addProperty v entry) true [.propertyAdded v entry]
  | addProperty_again {v entry} (hv : v ∈ g.vertices) (hold : entry ∈ g.propertiesOf v) :
    g.Performs (.addProperty v entry) false []
  | removeProperty {v entry} (hv : v ∈ g.vertices) (hold : entry ∈ g.propertiesOf v) :
    g.Performs (.removeProperty v entry) true [.propertyRemoved v entry]
  | removeProperty_gone {v entry} (hv : v ∈ g.vertices) (hgone : entry ∉ g.propertiesOf v) :
    g.Performs (.removeProperty v entry) false []
  | removeKey {v key} (hv : v ∈ g.vertices) :
    g.Performs (.removeKey v key) (!((g.propertiesOf v).values key).isEmpty)
      (((g.propertiesOf v).values key).map fun value => .propertyRemoved v ⟨key, value⟩)
  | createEdge {v label w} (hv : v ∈ g.vertices) (hw : w ∈ g.vertices) :
    g.Performs (.createEdge v label w) ⟨g.lastEdge + 1⟩
      [.edgeAdded ⟨g.lastEdge + 1⟩ ⟨v, label, w, ∅⟩]
  | deleteEdge {e x} (he : g.edges[e]? = some x) :
    g.Performs (.deleteEdge e) true [.edgeRemoved e x]
  | deleteEdge_gone {e} (hgone : e ∉ g.edges) : g.Performs (.deleteEdge e) false []
  | addEdgeProperty {e entry} (he : e ∈ g.edges) (hnew : entry ∉ g.edgePropertiesOf e) :
    g.Performs (.addEdgeProperty e entry) true [.edgePropertyAdded e entry]
  | addEdgeProperty_again {e entry} (he : e ∈ g.edges) (hold : entry ∈ g.edgePropertiesOf e) :
    g.Performs (.addEdgeProperty e entry) false []
  | removeEdgeProperty {e entry} (he : e ∈ g.edges) (hold : entry ∈ g.edgePropertiesOf e) :
    g.Performs (.removeEdgeProperty e entry) true [.edgePropertyRemoved e entry]
  | removeEdgeProperty_gone {e entry} (he : e ∈ g.edges) (hgone : entry ∉ g.edgePropertiesOf e) :
    g.Performs (.removeEdgeProperty e entry) false []
  | indexVertex {v entry} (hv : v ∈ g.vertices) (hnew : entry ∉ g.indexedOf v) :
    g.Performs (.indexVertex v entry) () [.valueIndexed entry v]
  | indexVertex_again {v entry} (hv : v ∈ g.vertices) (hold : entry ∈ g.indexedOf v) :
    g.Performs (.indexVertex v entry) () []
  | unindexVertex {v entry} (hold : v ∈ g.lookupValue entry) :
    g.Performs (.unindexVertex v entry) true [.valueUnindexed entry v]
  | unindexVertex_gone {v entry} (hgone : v ∉ g.lookupValue entry) :
    g.Performs (.unindexVertex v entry) false []

variable {g : Graph} {m : Mutation} {a : m.Answer} {cs : List Change}

theorem Performs.effect_eq (h : g.Performs m a cs) : g.effect m = .ok (a, cs) := by
  cases h <;> simp_all [effect, vertex, edge, bind, Except.bind, pure, Except.pure, propertiesOf,
    indexedOf, edgePropertiesOf]

theorem performs_of_effect (h : g.effect m = .ok (a, cs)) : g.Performs m a cs := by
  cases m with
  | registerKey v entry =>
    obtain ⟨data, hv, h⟩ := vertex_bind_eq_ok.1 h
    cases h
    split
    · exact .registerKey_again (mem_of_getElem?_eq hv) ‹_›
    · exact .registerKey (mem_of_getElem?_eq hv) ‹_›
  | unregisterKey entry =>
    simp only [effect] at h
    split at h <;> cases h
    · exact .unregisterKey ‹_›
    · exact .unregisterKey_gone ‹_›
  | createVertex =>
    cases h
    exact .createVertex
  | deleteVertex v =>
    simp only [effect] at h
    split at h <;> cases h
    · exact .deleteVertex ‹_›
    · exact .deleteVertex_gone (by grind)
  | addProperty v entry =>
    obtain ⟨data, hv, h⟩ := vertex_bind_eq_ok.1 h
    simp only [← propertiesOf_eq hv, Std.ExtTreeSet.contains_iff_mem] at h
    split at h <;> cases h
    · exact .addProperty_again (mem_of_getElem?_eq hv) ‹_›
    · exact .addProperty (mem_of_getElem?_eq hv) ‹_›
  | removeProperty v entry =>
    obtain ⟨data, hv, h⟩ := vertex_bind_eq_ok.1 h
    simp only [← propertiesOf_eq hv, Std.ExtTreeSet.contains_iff_mem] at h
    split at h <;> cases h
    · exact .removeProperty (mem_of_getElem?_eq hv) ‹_›
    · exact .removeProperty_gone (mem_of_getElem?_eq hv) ‹_›
  | removeKey v key =>
    obtain ⟨data, hv, h⟩ := vertex_bind_eq_ok.1 h
    cases h
    rw [← propertiesOf_eq hv]
    exact .removeKey (mem_of_getElem?_eq hv)
  | createEdge source label target =>
    obtain ⟨x, hx, h⟩ := vertex_bind_eq_ok.1 h
    obtain ⟨y, hy, h⟩ := vertex_bind_eq_ok.1 h
    cases h
    exact .createEdge (mem_of_getElem?_eq hx) (mem_of_getElem?_eq hy)
  | deleteEdge e =>
    simp only [effect] at h
    split at h <;> cases h
    · exact .deleteEdge ‹_›
    · exact .deleteEdge_gone (by grind)
  | addEdgeProperty e entry =>
    obtain ⟨x, he, h⟩ := edge_bind_eq_ok.1 h
    simp only [← edgePropertiesOf_eq he, Std.ExtTreeSet.contains_iff_mem] at h
    split at h <;> cases h
    · exact .addEdgeProperty_again (mem_of_getElem?_eq he) ‹_›
    · exact .addEdgeProperty (mem_of_getElem?_eq he) ‹_›
  | removeEdgeProperty e entry =>
    obtain ⟨x, he, h⟩ := edge_bind_eq_ok.1 h
    simp only [← edgePropertiesOf_eq he, Std.ExtTreeSet.contains_iff_mem] at h
    split at h <;> cases h
    · exact .removeEdgeProperty (mem_of_getElem?_eq he) ‹_›
    · exact .removeEdgeProperty_gone (mem_of_getElem?_eq he) ‹_›
  | indexVertex v entry =>
    obtain ⟨data, hv, h⟩ := vertex_bind_eq_ok.1 h
    simp only [← indexedOf_eq hv, Std.ExtTreeSet.contains_iff_mem] at h
    cases h
    split
    · exact .indexVertex_again (mem_of_getElem?_eq hv) ‹_›
    · exact .indexVertex (mem_of_getElem?_eq hv) ‹_›
  | unindexVertex v entry =>
    simp only [effect, List.contains_iff_mem] at h
    split at h <;> cases h
    · exact .unindexVertex ‹_›
    · exact .unindexVertex_gone ‹_›

theorem effect_eq_ok : g.effect m = .ok (a, cs) ↔ g.Performs m a cs :=
  ⟨performs_of_effect, Performs.effect_eq⟩

end Graph

end QuadStore
