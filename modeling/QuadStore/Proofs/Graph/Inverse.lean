import Mathlib
import QuadStore.Proofs.Graph.WellFormed
/-!
# Inverse changes

A change applies to a graph that holds what the change takes out and lacks what it puts in. Such a
change keeps the graph well-formed, and its inverse takes it back, up to the counters.
-/

namespace QuadStore

namespace Change

variable {g : Graph} {v w : VertexId} {entry other : Entry}

/-- What a graph has to hold for a change to be a change of it. -/
def Applies (g : Graph) : Change → Prop
  | vertexAdded v _ => v ∉ g.vertices
  | vertexRemoved v properties =>
    g.vertices[v]? = some { properties } ∧
      ∀ (e : EdgeId) (x : Edge), g.edges[e]? = some x → x.source ≠ v ∧ x.target ≠ v
  | edgeAdded e x => e ∉ g.edges ∧ x.source ∈ g.vertices ∧ x.target ∈ g.vertices
  | edgeRemoved e x => g.edges[e]? = some x
  | propertyAdded v entry => v ∈ g.vertices ∧ entry ∉ g.propertiesOf v
  | propertyRemoved v entry => entry ∈ g.propertiesOf v
  | edgePropertyAdded e entry => e ∈ g.edges ∧ entry ∉ g.edgePropertiesOf e
  | edgePropertyRemoved e entry => entry ∈ g.edgePropertiesOf e
  | keyMoved entry before after => g.lookup? entry = before ∧ ∀ v ∈ after, v ∈ g.vertices
  | valueIndexed entry v => v ∈ g.vertices ∧ entry ∉ g.indexedOf v
  | valueUnindexed entry v => entry ∈ g.indexedOf v

theorem Applies.wellFormed {c : Change} (h : c.Applies g) (hg : g.WellFormed) :
    (c.apply g).WellFormed := by
  cases c with
  | vertexAdded v properties => exact hg.insertVertex h
  | vertexRemoved v properties =>
    exact hg.eraseVertex (by simp [Graph.keysOf, h.1]) (by simp [Graph.indexedOf, h.1]) h.2
  | edgeAdded e x => exact hg.insertEdge h.2.1 h.2.2
  | edgeRemoved e x => exact hg.eraseEdge
  | propertyAdded v entry => exact hg.modifyVertex (fun _ => rfl) fun _ => rfl
  | propertyRemoved v entry => exact hg.modifyVertex (fun _ => rfl) fun _ => rfl
  | edgePropertyAdded e entry => exact hg.modifyEdge (fun _ => rfl) fun _ => rfl
  | edgePropertyRemoved e entry => exact hg.modifyEdge (fun _ => rfl) fun _ => rfl
  | keyMoved entry before after =>
    obtain ⟨hbefore, hafter⟩ := h
    cases before with
    | none =>
      cases after with
      | none => exact hg
      | some w => exact hg.claimKey (hafter w rfl) hbefore
    | some v =>
      have hreleased := hg.releaseKey hbefore
      cases after with
      | none => exact hreleased
      | some w =>
        refine hreleased.claimKey ?_ ?_
        · simpa [Graph.releaseKey, Std.ExtTreeMap.mem_modify] using hafter w rfl
        · rw [Graph.lookup?_releaseKey, if_pos rfl]
  | valueIndexed entry v => exact hg.indexValue h.1
  | valueUnindexed entry v => exact hg.unindexValue

end Change

namespace Graph

/-- A graph without its counters. -/
def content (g : Graph) : Graph := { g with lastVertex := 0, lastEdge := 0 }

theorem content_apply (g : Graph) (c : Change) : (c.apply g.content).content = (c.apply g).content := by
  cases c with
  | keyMoved entry before after => cases before <;> cases after <;> rfl
  | _ => rfl

/-! ## Steps that cancel -/

section Cancel

variable {g : Graph} {v : VertexId} {e : EdgeId} {entry : Entry}

theorem modify_modify_eq_self {α β : Type} [Ord α] [Std.TransOrd α] [Std.LawfulEqOrd α]
    {m : Std.ExtTreeMap α β} {k : α} {f f' : β → β}
    (h : ∀ x, m[k]? = some x → f' (f x) = x) : (m.modify k f).modify k f' = m := by
  apply Std.ExtTreeMap.ext_getElem?
  intro a
  by_cases hka : k = a
  · subst hka
    rw [Std.ExtTreeMap.getElem?_modify_self, Std.ExtTreeMap.getElem?_modify_self]
    cases hk : m[k]? with
    | none => rfl
    | some x => simp [h x hk]
  · simp [Std.ExtTreeMap.getElem?_modify, hka]

theorem erase_insert_of_not_mem {s : EntrySet} (h : entry ∉ s) :
    (s.insert entry).erase entry = s := by
  ext
  grind

theorem insert_erase_of_mem {s : EntrySet} (h : entry ∈ s) : (s.erase entry).insert entry = s := by
  ext
  grind

theorem eraseVertex_insertVertex {properties : EntrySet} (h : v ∉ g.vertices) :
    ((g.insertVertex v properties).eraseVertex v).content = g.content := by
  have hvertices : (g.vertices.insert v { properties }).erase v = g.vertices := by
    apply Std.ExtTreeMap.ext_getElem?
    grind
  simp [content, insertVertex, eraseVertex, hvertices]

theorem insertVertex_eraseVertex {properties : EntrySet}
    (h : g.vertices[v]? = some { properties }) :
    ((g.eraseVertex v).insertVertex v properties).content = g.content := by
  have hvertices : (g.vertices.erase v).insert v { properties } = g.vertices := by
    apply Std.ExtTreeMap.ext_getElem?
    grind
  simp [content, insertVertex, eraseVertex, hvertices]

theorem eraseEdge_insertEdge {x : Edge} (h : e ∉ g.edges) :
    ((g.insertEdge e x).eraseEdge e).content = g.content := by
  have hedges : (g.edges.insert e x).erase e = g.edges := by
    apply Std.ExtTreeMap.ext_getElem?
    grind
  simp [content, insertEdge, eraseEdge, hedges]

theorem insertEdge_eraseEdge {x : Edge} (h : g.edges[e]? = some x) :
    ((g.eraseEdge e).insertEdge e x).content = g.content := by
  have hedges : (g.edges.erase e).insert e x = g.edges := by
    apply Std.ExtTreeMap.ext_getElem?
    grind
  simp [content, insertEdge, eraseEdge, hedges]

theorem modifyVertex_modifyVertex {f f' : Vertex → Vertex}
    (h : ∀ x, g.vertices[v]? = some x → f' (f x) = x) :
    (g.modifyVertex v f).modifyVertex v f' = g := by
  simp [modifyVertex, modify_modify_eq_self h]

theorem modifyEdge_modifyEdge {f f' : Edge → Edge}
    (h : ∀ x, g.edges[e]? = some x → f' (f x) = x) : (g.modifyEdge e f).modifyEdge e f' = g := by
  simp [modifyEdge, modify_modify_eq_self h]

theorem claimKey_releaseKey (h : g.lookup? entry = some v) (hkeys : entry ∈ g.keysOf v) :
    (g.releaseKey entry (some v)).claimKey entry (some v) = g := by
  have hvertices : (g.vertices.modify v (Vertex.mapKeys (·.erase entry))).modify v
      (Vertex.mapKeys (·.insert entry)) = g.vertices := by
    apply modify_modify_eq_self
    intro x hx
    have hmem : entry ∈ x.keys := by simpa [keysOf, hx] using hkeys
    simp [Vertex.mapKeys, insert_erase_of_mem hmem]
  have hindex : (g.keyIndex.erase entry).insert entry v = g.keyIndex := by
    unfold lookup? at h
    apply Std.ExtTreeMap.ext_getElem?
    grind
  simp [releaseKey, claimKey, hvertices, hindex]

theorem releaseKey_claimKey (h : g.lookup? entry = none) (hkeys : entry ∉ g.keysOf v) :
    (g.claimKey entry (some v)).releaseKey entry (some v) = g := by
  have hvertices : (g.vertices.modify v (Vertex.mapKeys (·.insert entry))).modify v
      (Vertex.mapKeys (·.erase entry)) = g.vertices := by
    apply modify_modify_eq_self
    intro x hx
    have hmem : entry ∉ x.keys := by simpa [keysOf, hx] using hkeys
    simp [Vertex.mapKeys, erase_insert_of_not_mem hmem]
  have hindex : (g.keyIndex.insert entry v).erase entry = g.keyIndex := by
    unfold lookup? at h
    apply Std.ExtTreeMap.ext_getElem?
    grind
  simp [releaseKey, claimKey, hvertices, hindex]

theorem moveKey_moveKey (hg : g.WellFormed) {before after : Option VertexId}
    (h : g.lookup? entry = before) : (g.moveKey entry before after).moveKey entry after before = g := by
  have hclaim : (g.releaseKey entry before).claimKey entry before = g := by
    cases before with
    | none => rfl
    | some v => exact claimKey_releaseKey h ((hg.lookup entry v).1 h)
  have hfree : (g.releaseKey entry before).lookup? entry = none := by
    cases before with
    | none => exact h
    | some v => rw [lookup?_releaseKey, if_pos rfl]
  have hrelease : ((g.releaseKey entry before).claimKey entry after).releaseKey entry after =
      g.releaseKey entry before := by
    cases after with
    | none => rfl
    | some w =>
      apply releaseKey_claimKey hfree
      cases before with
      | none => 
        have := hg.lookup entry w
        simp_all [releaseKey]
      | some v =>
        have := hg.lookup entry w
        rw [mem_keysOf_releaseKey]
        grind
  rw [moveKey, moveKey, hrelease, hclaim]

theorem unindexValue_indexValue (hg : g.WellFormed) (h : entry ∉ g.indexedOf v) :
    (g.indexValue entry v).unindexValue entry v = g := by
  have hvertices : (g.vertices.modify v (Vertex.mapIndexed (·.insert entry))).modify v
      (Vertex.mapIndexed (·.erase entry)) = g.vertices := by
    apply modify_modify_eq_self
    intro x hx
    have hmem : entry ∉ x.indexed := by simpa [indexedOf, hx] using h
    simp [Vertex.mapIndexed, erase_insert_of_not_mem hmem]
  have hindex : (g.indexValue entry v |>.unindexValue entry v).valueIndex = g.valueIndex := by
    apply Std.ExtTreeMap.ext_getElem?
    intro other
    simp only [indexValue, unindexValue, Std.ExtTreeMap.getElem?_alter, Std.compare_eq_iff_eq]
    split
    · rename_i heq
      subst heq
      simp only [if_true]
      cases hfound : g.valueIndex[entry]? with
      | none =>
        have hempty : ((∅ : VertexSet).insert v).erase v = ∅ := by ext; grind
        simp only [Option.getD_none, Option.bind_some, hempty, Std.ExtTreeSet.isEmpty_empty, if_true]
      | some vs =>
        have hnew : v ∉ vs := by
          rw [← hg.lookupValue, mem_lookupValue_iff] at h
          grind
        have hvs : (vs.insert v).erase v = vs := by ext; grind
        have hne : ¬vs.isEmpty = true := by
          rw [Std.ExtTreeSet.isEmpty_iff]
          exact hg.nonempty entry vs hfound
        simp only [Option.getD_some, Option.bind_some, hvs, if_neg hne]
    · rfl
  simp only [indexValue, unindexValue] at hindex ⊢
  simp only [hvertices, hindex]

theorem indexValue_unindexValue (hg : g.WellFormed) (h : entry ∈ g.indexedOf v) :
    (g.unindexValue entry v).indexValue entry v = g := by
  have hvertices : (g.vertices.modify v (Vertex.mapIndexed (·.erase entry))).modify v
      (Vertex.mapIndexed (·.insert entry)) = g.vertices := by
    apply modify_modify_eq_self
    intro x hx
    have hmem : entry ∈ x.indexed := by simpa [indexedOf, hx] using h
    simp [Vertex.mapIndexed, insert_erase_of_mem hmem]
  have hindex : (g.unindexValue entry v |>.indexValue entry v).valueIndex = g.valueIndex := by
    apply Std.ExtTreeMap.ext_getElem?
    intro other
    simp only [indexValue, unindexValue, Std.ExtTreeMap.getElem?_alter, Std.compare_eq_iff_eq]
    split
    · rename_i heq
      subst heq
      rw [← hg.lookupValue, mem_lookupValue_iff] at h
      obtain ⟨vs, hfound, hv⟩ := h
      have hvs : (vs.erase v).insert v = vs := by ext; grind
      simp only [hfound, if_true, Option.bind_some]
      split
      · rename_i hlast
        rw [Std.ExtTreeSet.isEmpty_iff] at hlast
        rw [hlast] at hvs
        simp [hvs]
      · simp [hvs]
    · rfl
  simp only [indexValue, unindexValue] at hindex ⊢
  simp only [hvertices, hindex]

end Cancel

end Graph

namespace Change

variable {g : Graph} {v w : VertexId} {entry other : Entry}

theorem inverse_apply {c : Change} (h : c.Applies g) (hg : g.WellFormed) :
    (c.inverse.apply (c.apply g)).content = g.content := by
  cases c with
  | vertexAdded v properties => exact Graph.eraseVertex_insertVertex h
  | vertexRemoved v properties => exact Graph.insertVertex_eraseVertex h.1
  | edgeAdded e x => exact Graph.eraseEdge_insertEdge h.1
  | edgeRemoved e x => exact Graph.insertEdge_eraseEdge h
  | propertyAdded v entry =>
    refine congrArg Graph.content (Graph.modifyVertex_modifyVertex fun x hx => ?_)
    have hmem : entry ∉ x.properties := by simpa [Graph.propertiesOf, hx] using h.2
    simp [Vertex.mapProperties, Graph.erase_insert_of_not_mem hmem]
  | propertyRemoved v entry =>
    refine congrArg Graph.content (Graph.modifyVertex_modifyVertex fun x hx => ?_)
    have hmem : entry ∈ x.properties := by simpa [Applies, Graph.propertiesOf, hx] using h
    simp [Vertex.mapProperties, Graph.insert_erase_of_mem hmem]
  | edgePropertyAdded e entry =>
    refine congrArg Graph.content (Graph.modifyEdge_modifyEdge fun x hx => ?_)
    have hmem : entry ∉ x.properties := by simpa [Graph.edgePropertiesOf, hx] using h.2
    simp [Edge.mapProperties, Graph.erase_insert_of_not_mem hmem]
  | edgePropertyRemoved e entry =>
    refine congrArg Graph.content (Graph.modifyEdge_modifyEdge fun x hx => ?_)
    have hmem : entry ∈ x.properties := by simpa [Applies, Graph.edgePropertiesOf, hx] using h
    simp [Edge.mapProperties, Graph.insert_erase_of_mem hmem]
  | keyMoved entry before after => exact congrArg Graph.content (Graph.moveKey_moveKey hg h.1)
  | valueIndexed entry v => exact congrArg Graph.content (Graph.unindexValue_indexValue hg h.2)
  | valueUnindexed entry v => exact congrArg Graph.content (Graph.indexValue_unindexValue hg h)

end Change
end QuadStore
