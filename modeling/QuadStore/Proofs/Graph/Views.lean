import Mathlib
import QuadStore.Graph.Transaction
import QuadStore.Proofs.Containers
/-!
# Views of a graph

What the vertices of a graph list, what its indexes lead to and which edges meet a vertex, what the
small steps of writing do to each of these views, and which reads succeed.
-/

namespace QuadStore

namespace EntrySet

variable {s : EntrySet} {key value : String}

theorem mem_values : value ∈ s.values key ↔ ⟨key, value⟩ ∈ s := by
  unfold values
  simp only [List.mem_map, List.mem_filter, beq_iff_eq, Std.ExtTreeSet.mem_toList]
  constructor
  · rintro ⟨e, ⟨he, rfl⟩, rfl⟩
    exact he
  · intro h
    exact ⟨_, ⟨h, rfl⟩, rfl⟩

theorem nodup_toList (s : EntrySet) : s.toList.Nodup := by
  refine s.distinct_toList.imp fun {a b} h heq => ?_
  rw [heq] at h
  exact h (compare_self b)

theorem nodup_values (s : EntrySet) (key : String) : (s.values key).Nodup := by
  refine List.Nodup.map_on ?_ (s.nodup_toList.filter _)
  intro a ha b hb hvalue
  simp only [List.mem_filter, beq_iff_eq] at ha hb
  exact Entry.ext (ha.2.trans hb.2.symm) hvalue

theorem mem_keys : key ∈ s.keys ↔ ∃ value, ⟨key, value⟩ ∈ s := by
  unfold keys
  simp only [List.mem_eraseDups, List.mem_map, Std.ExtTreeSet.mem_toList]
  constructor
  · rintro ⟨e, he, rfl⟩
    exact ⟨e.value, he⟩
  · rintro ⟨value, h⟩
    exact ⟨_, h, rfl⟩

end EntrySet

namespace Graph

variable {g : Graph} {v w : VertexId} {entry other : Entry}

/-! ## Vertices and indexes -/

/-- The entries of the key index that a vertex lists; a vertex that does not exist lists none. -/
def keysOf (g : Graph) (v : VertexId) : EntrySet := (g.vertices[v]?).elim ∅ (·.keys)

/-- The entries of the value index that a vertex lists. -/
def indexedOf (g : Graph) (v : VertexId) : EntrySet := (g.vertices[v]?).elim ∅ (·.indexed)

theorem mem_lookupValue_iff :
    v ∈ g.lookupValue entry ↔ ∃ vs, g.valueIndex[entry]? = some vs ∧ v ∈ vs := by
  unfold lookupValue
  cases g.valueIndex[entry]? <;> simp

theorem keysOf_modifyVertex {f : Vertex → Vertex} (h : ∀ x, (f x).keys = x.keys) :
    (g.modifyVertex v f).keysOf w = g.keysOf w := by
  simp only [keysOf, modifyVertex]
  grind

theorem indexedOf_modifyVertex {f : Vertex → Vertex} (h : ∀ x, (f x).indexed = x.indexed) :
    (g.modifyVertex v f).indexedOf w = g.indexedOf w := by
  simp only [indexedOf, modifyVertex]
  grind

@[simp] theorem mem_vertices_modifyVertex {f : Vertex → Vertex} :
    w ∈ (g.modifyVertex v f).vertices ↔ w ∈ g.vertices := by
  simp [modifyVertex, Std.ExtTreeMap.mem_modify]

theorem mem_keysOf_releaseKey :
    other ∈ (g.releaseKey entry (some v)).keysOf w ↔
      other ∈ g.keysOf w ∧ ¬(w = v ∧ other = entry) := by
  simp only [keysOf, releaseKey]
  grind [Vertex.mapKeys]

theorem mem_keysOf_claimKey :
    other ∈ (g.claimKey entry (some v)).keysOf w ↔
      other ∈ g.keysOf w ∨ (w = v ∧ v ∈ g.vertices ∧ other = entry) := by
  simp only [keysOf, claimKey]
  grind [Vertex.mapKeys]

theorem lookup?_releaseKey :
    (g.releaseKey entry (some v)).lookup? other =
      if other = entry then none else g.lookup? other := by
  simp only [lookup?, releaseKey]
  grind

theorem lookup?_claimKey :
    (g.claimKey entry (some v)).lookup? other =
      if other = entry then some v else g.lookup? other := by
  simp only [lookup?, claimKey]
  grind

theorem mem_lookupValue_indexValue :
    w ∈ (g.indexValue entry v).lookupValue other ↔
      w ∈ g.lookupValue other ∨ (w = v ∧ other = entry) := by
  simp only [mem_lookupValue_iff, indexValue, Std.ExtTreeMap.getElem?_alter,
    Std.compare_eq_iff_eq]
  split
  · cases h : g.valueIndex[entry]? <;> grind
  · grind

theorem mem_lookupValue_unindexValue :
    w ∈ (g.unindexValue entry v).lookupValue other ↔
      w ∈ g.lookupValue other ∧ ¬(w = v ∧ other = entry) := by
  simp only [mem_lookupValue_iff, unindexValue, Std.ExtTreeMap.getElem?_alter,
    Std.compare_eq_iff_eq]
  split
  · cases hfound : g.valueIndex[entry]? with
    | none => grind
    | some vs =>
      by_cases hlast : (vs.erase v).isEmpty
      · have honly : ∀ w ∈ vs, w = v := by
          intro w hw
          by_contra hne
          have hmem : w ∈ vs.erase v := by grind
          rw [Std.ExtTreeSet.isEmpty_iff] at hlast
          grind
        grind
      · grind
  · grind

theorem mem_indexedOf_indexValue :
    other ∈ (g.indexValue entry v).indexedOf w ↔
      other ∈ g.indexedOf w ∨ (w = v ∧ v ∈ g.vertices ∧ other = entry) := by
  simp only [indexedOf, indexValue]
  grind [Vertex.mapIndexed]

theorem mem_indexedOf_unindexValue :
    other ∈ (g.unindexValue entry v).indexedOf w ↔
      other ∈ g.indexedOf w ∧ ¬(w = v ∧ other = entry) := by
  simp only [indexedOf, unindexValue]
  grind [Vertex.mapIndexed]

/-! ## Edges of a vertex -/

theorem mem_edgesAt {e : EdgeId} {x : Edge} {label : Option String} {direction : Direction} :
    (e, x) ∈ g.edgesAt v label direction ↔
      g.edges[e]? = some x ∧ x.meets v direction ∧ ∀ l ∈ label, l = x.label := by
  rw [edgesAt, List.mem_filter, Std.ExtTreeMap.mem_toList_iff_getElem?_eq_some]
  cases label <;> simp

theorem pairwise_edgesAt {label : Option String} {direction : Direction} :
    (g.edgesAt v label direction).Pairwise fun a b => a.1.number < b.1.number := by
  refine List.Pairwise.filter _ ?_
  refine Std.ExtTreeMap.ordered_keys_toList.imp fun {a b} h => ?_
  exact Std.compare_eq_lt.1 h

theorem nodup_edgesAt {label : Option String} {direction : Direction} :
    ((g.edgesAt v label direction).map (·.1)).Nodup := by
  rw [List.Nodup, List.pairwise_map]
  refine pairwise_edgesAt.imp fun {a b} h heq => ?_
  rw [heq] at h
  exact lt_irrefl _ h

/-! ## Reads that succeed -/

section Reads

variable {e : EdgeId} {x : Edge} {data : Vertex} {key : String}

theorem vertex_eq_ok : g.vertex v = .ok data ↔ g.vertices[v]? = some data := by
  unfold vertex
  cases g.vertices[v]? <;> simp

theorem edge_eq_ok : g.edge e = .ok x ↔ g.edges[e]? = some x := by
  unfold edge
  cases g.edges[e]? <;> simp

theorem bind_eq_ok {ε α β : Type} {x : Except ε α} {f : α → Except ε β} {b : β} :
    x >>= f = .ok b ↔ ∃ a, x = .ok a ∧ f a = .ok b := by
  cases x <;> simp [bind, Except.bind]

theorem vertex_bind_eq_ok {β : Type} {f : Vertex → Except GraphError β} {b : β} :
    g.vertex v >>= f = .ok b ↔ ∃ data, g.vertices[v]? = some data ∧ f data = .ok b := by
  simp only [bind_eq_ok, vertex_eq_ok]

theorem edge_bind_eq_ok {β : Type} {f : Edge → Except GraphError β} {b : β} :
    g.edge e >>= f = .ok b ↔ ∃ x, g.edges[e]? = some x ∧ f x = .ok b := by
  simp only [bind_eq_ok, edge_eq_ok]

theorem propertiesOf_eq (h : g.vertices[v]? = some data) : g.propertiesOf v = data.properties := by
  rw [propertiesOf, h, Option.elim_some]

theorem indexedOf_eq (h : g.vertices[v]? = some data) : g.indexedOf v = data.indexed := by
  rw [indexedOf, h, Option.elim_some]

theorem edgePropertiesOf_eq (h : g.edges[e]? = some x) : g.edgePropertiesOf e = x.properties := by
  rw [edgePropertiesOf, h, Option.elim_some]

theorem vertex_ok (h : v ∈ g.vertices) :
    ∃ data, g.vertex v = .ok data ∧ data.properties = g.propertiesOf v := by
  have hv := Std.ExtTreeMap.getElem?_eq_some_getElem h
  exact ⟨_, vertex_eq_ok.2 hv, (propertiesOf_eq hv).symm⟩

theorem edge_ok (h : e ∈ g.edges) :
    ∃ x, g.edge e = .ok x ∧ x.properties = g.edgePropertiesOf e := by
  have he := Std.ExtTreeMap.getElem?_eq_some_getElem h
  exact ⟨_, edge_eq_ok.2 he, (edgePropertiesOf_eq he).symm⟩

theorem property_ok (h : v ∈ g.vertices) :
    g.property v key = .ok ((g.propertiesOf v).values key) := by
  obtain ⟨data, hv, hproperties⟩ := vertex_ok h
  rw [property, hv, ← hproperties]
  rfl

theorem propertyKeys_ok (h : v ∈ g.vertices) :
    g.propertyKeys v = .ok (g.propertiesOf v).keys := by
  obtain ⟨data, hv, hproperties⟩ := vertex_ok h
  rw [propertyKeys, hv, ← hproperties]
  rfl

theorem edgeProperty_ok (h : e ∈ g.edges) :
    g.edgeProperty e key = .ok ((g.edgePropertiesOf e).values key) := by
  obtain ⟨x, he, hproperties⟩ := edge_ok h
  rw [edgeProperty, he, ← hproperties]
  rfl

theorem edgePropertyKeys_ok (h : e ∈ g.edges) :
    g.edgePropertyKeys e = .ok (g.edgePropertiesOf e).keys := by
  obtain ⟨x, he, hproperties⟩ := edge_ok h
  rw [edgePropertyKeys, he, ← hproperties]
  rfl

theorem findEdges_ok (h : v ∈ g.vertices) {label : Option String} {direction : Direction} :
    g.findEdges v label direction = .ok (g.edgesAt v label direction) := by
  obtain ⟨data, hv, -⟩ := vertex_ok h
  rw [findEdges, hv]
  rfl

theorem hasEdges_ok (h : v ∈ g.vertices) :
    g.hasEdges v = .ok !(g.edgesAt v none .both).isEmpty := by
  rw [hasEdges, findEdges_ok h]
  rfl

theorem vertex_missing (h : v ∉ g.vertices) : g.vertex v = .error (.vertexNotFound v.number) := by
  simp only [vertex, Std.ExtTreeMap.getElem?_eq_none h]

theorem findEdges_missing (h : v ∉ g.vertices) {label : Option String} {direction : Direction} :
    g.findEdges v label direction = .error (.vertexNotFound v.number) := by
  rw [findEdges, vertex_missing h]
  rfl

end Reads

end Graph

end QuadStore
