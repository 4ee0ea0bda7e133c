import Mathlib
import QuadStore.Proofs.Graph.Views
/-!
# Well-formed graphs

The key index and the value index say again what the vertices list, and an edge needs its ends. This
module states what the parts of a graph have to agree on, and shows that each small step of writing
keeps the agreement.
-/

namespace QuadStore

namespace Graph

variable {g : Graph} {v w : VertexId} {entry other : Entry}

structure WellFormed (g : Graph) : Prop where
  /-- An entry leads to the vertex that lists it, so no two vertices list the same. -/
  lookup : ∀ entry v, g.lookup? entry = some v ↔ entry ∈ g.keysOf v
  lookupValue : ∀ entry v, v ∈ g.lookupValue entry ↔ entry ∈ g.indexedOf v
  nonempty : ∀ (entry : Entry) (vs : VertexSet), g.valueIndex[entry]? = some vs → vs ≠ ∅
  ends : ∀ (e : EdgeId) (x : Edge), g.edges[e]? = some x →
    x.source ∈ g.vertices ∧ x.target ∈ g.vertices
  vertexNumber : ∀ v ∈ g.vertices, v.number ≤ g.lastVertex
  edgeNumber : ∀ e ∈ g.edges, e.number ≤ g.lastEdge

namespace WellFormed

theorem empty : WellFormed {} where
  lookup := by simp [lookup?, keysOf]
  lookupValue := by simp [Graph.lookupValue, indexedOf]
  nonempty := by simp
  ends := by simp
  vertexNumber := by simp
  edgeNumber := by simp

/-- The number that is given out next is the number of no vertex. -/
theorem nextVertex (hg : g.WellFormed) : ⟨g.lastVertex + 1⟩ ∉ g.vertices := fun hmem =>
  Nat.not_succ_le_self _ (hg.vertexNumber _ hmem)

theorem nextEdge (hg : g.WellFormed) : ⟨g.lastEdge + 1⟩ ∉ g.edges := fun hmem =>
  Nat.not_succ_le_self _ (hg.edgeNumber _ hmem)

theorem modifyVertex (hg : g.WellFormed) {f : Vertex → Vertex} (keys : ∀ x, (f x).keys = x.keys)
    (indexed : ∀ x, (f x).indexed = x.indexed) : (g.modifyVertex v f).WellFormed where
  lookup entry w := by
    rw [keysOf_modifyVertex keys]
    exact hg.lookup entry w
  lookupValue entry w := by
    rw [indexedOf_modifyVertex indexed]
    exact hg.lookupValue entry w
  nonempty := hg.nonempty
  ends e x h := by simpa using hg.ends e x h
  vertexNumber w hw := hg.vertexNumber w (by simpa using hw)
  edgeNumber := hg.edgeNumber

theorem modifyEdge (hg : g.WellFormed) {e : EdgeId} {f : Edge → Edge}
    (source : ∀ x, (f x).source = x.source) (target : ∀ x, (f x).target = x.target) :
    (g.modifyEdge e f).WellFormed where
  lookup := hg.lookup
  lookupValue := hg.lookupValue
  nonempty := hg.nonempty
  ends d x h := by
    have hends := hg.ends
    simp only [Graph.modifyEdge] at h ⊢
    grind
  vertexNumber := hg.vertexNumber
  edgeNumber d hd := hg.edgeNumber d (by simpa [Graph.modifyEdge, Std.ExtTreeMap.mem_modify] using hd)

theorem insertVertex (hg : g.WellFormed) {properties : EntrySet} (hv : v ∉ g.vertices) :
    (g.insertVertex v properties).WellFormed where
  lookup entry w := by
    have h := hg.lookup entry w
    simp only [lookup?, keysOf, Graph.insertVertex] at h ⊢
    grind
  lookupValue entry w := by
    have h := hg.lookupValue entry w
    simp only [Graph.lookupValue, indexedOf, Graph.insertVertex] at h ⊢
    grind
  nonempty := hg.nonempty
  ends e x h := by
    have hends := hg.ends e x h
    simp only [Graph.insertVertex]
    grind
  vertexNumber w hw := by
    have hnumber := hg.vertexNumber w
    simp only [Graph.insertVertex] at hw ⊢
    grind
  edgeNumber := hg.edgeNumber

theorem eraseVertex (hg : g.WellFormed) (keys : g.keysOf v = ∅) (indexed : g.indexedOf v = ∅)
    (hedges : ∀ (e : EdgeId) (x : Edge), g.edges[e]? = some x → x.source ≠ v ∧ x.target ≠ v) :
    (g.eraseVertex v).WellFormed where
  lookup entry w := by
    have h := hg.lookup entry w
    simp only [lookup?, keysOf, Graph.eraseVertex] at h keys ⊢
    grind
  lookupValue entry w := by
    have h := hg.lookupValue entry w
    simp only [Graph.lookupValue, indexedOf, Graph.eraseVertex] at h indexed ⊢
    grind
  nonempty := hg.nonempty
  ends e x h := by
    have hends := hg.ends e x h
    have hne := hedges e x h
    simp only [Graph.eraseVertex]
    grind
  vertexNumber w hw := hg.vertexNumber w (by simp only [Graph.eraseVertex] at hw; grind)
  edgeNumber := hg.edgeNumber

theorem insertEdge (hg : g.WellFormed) {e : EdgeId} {x : Edge} (source : x.source ∈ g.vertices)
    (target : x.target ∈ g.vertices) : (g.insertEdge e x).WellFormed where
  lookup := hg.lookup
  lookupValue := hg.lookupValue
  nonempty := hg.nonempty
  ends d y h := by
    have hends := hg.ends d y
    simp only [Graph.insertEdge] at h ⊢
    grind
  vertexNumber := hg.vertexNumber
  edgeNumber d hd := by
    have hnumber := hg.edgeNumber d
    simp only [Graph.insertEdge] at hd ⊢
    grind

theorem eraseEdge (hg : g.WellFormed) {e : EdgeId} : (g.eraseEdge e).WellFormed where
  lookup := hg.lookup
  lookupValue := hg.lookupValue
  nonempty := hg.nonempty
  ends d y h := hg.ends d y (by simp only [Graph.eraseEdge] at h; grind)
  vertexNumber := hg.vertexNumber
  edgeNumber d hd := hg.edgeNumber d (by simp only [Graph.eraseEdge] at hd; grind)

theorem releaseKey (hg : g.WellFormed) (h : g.lookup? entry = some v) :
    (g.releaseKey entry (some v)).WellFormed where
  lookup other w := by
    have hkey := hg.lookup other w
    have howner := hg.lookup entry w
    rw [lookup?_releaseKey, mem_keysOf_releaseKey]
    grind
  lookupValue other w := by
    rw [show (g.releaseKey entry (some v)).indexedOf w = g.indexedOf w from
      indexedOf_modifyVertex fun _ => rfl]
    exact hg.lookupValue other w
  nonempty := hg.nonempty
  ends e x h := by simpa [Graph.releaseKey, Std.ExtTreeMap.mem_modify] using hg.ends e x h
  vertexNumber w hw :=
    hg.vertexNumber w (by simpa [Graph.releaseKey, Std.ExtTreeMap.mem_modify] using hw)
  edgeNumber := hg.edgeNumber

theorem claimKey (hg : g.WellFormed) (hv : v ∈ g.vertices) (h : g.lookup? entry = none) :
    (g.claimKey entry (some v)).WellFormed where
  lookup other w := by
    have hkey := hg.lookup other w
    have howner := hg.lookup entry w
    rw [lookup?_claimKey, mem_keysOf_claimKey]
    grind
  lookupValue other w := by
    rw [show (g.claimKey entry (some v)).indexedOf w = g.indexedOf w from
      indexedOf_modifyVertex fun _ => rfl]
    exact hg.lookupValue other w
  nonempty := hg.nonempty
  ends e x h := by simpa [Graph.claimKey, Std.ExtTreeMap.mem_modify] using hg.ends e x h
  vertexNumber w hw :=
    hg.vertexNumber w (by simpa [Graph.claimKey, Std.ExtTreeMap.mem_modify] using hw)
  edgeNumber := hg.edgeNumber

theorem indexValue (hg : g.WellFormed) (hv : v ∈ g.vertices) :
    (g.indexValue entry v).WellFormed where
  lookup other w := by
    rw [show (g.indexValue entry v).keysOf w = g.keysOf w from keysOf_modifyVertex fun _ => rfl]
    exact hg.lookup other w
  lookupValue other w := by
    rw [mem_lookupValue_indexValue, mem_indexedOf_indexValue, hg.lookupValue]
    simp [hv]
  nonempty other vs h := by
    have hne := hg.nonempty other vs
    simp only [Graph.indexValue, Std.ExtTreeMap.getElem?_alter, Std.compare_eq_iff_eq] at h
    split at h
    · rintro rfl
      have hmem : v ∈ (g.valueIndex[entry]?.getD ∅).insert v := by simp
      grind
    · exact hne h
  ends e x h := by simpa [Graph.indexValue, Std.ExtTreeMap.mem_modify] using hg.ends e x h
  vertexNumber w hw :=
    hg.vertexNumber w (by simpa [Graph.indexValue, Std.ExtTreeMap.mem_modify] using hw)
  edgeNumber := hg.edgeNumber

theorem unindexValue (hg : g.WellFormed) : (g.unindexValue entry v).WellFormed where
  lookup other w := by
    rw [show (g.unindexValue entry v).keysOf w = g.keysOf w from keysOf_modifyVertex fun _ => rfl]
    exact hg.lookup other w
  lookupValue other w := by
    rw [mem_lookupValue_unindexValue, mem_indexedOf_unindexValue, hg.lookupValue]
  nonempty other vs h := by
    have hne := hg.nonempty other vs
    simp only [Graph.unindexValue, Std.ExtTreeMap.getElem?_alter, Std.compare_eq_iff_eq] at h
    split at h
    · simp only [Option.bind_eq_some_iff] at h
      obtain ⟨old, -, h⟩ := h
      split at h
      · simp at h
      · rename_i hrest
        rintro rfl
        simp_all
    · exact hne h
  ends e x h := by simpa [Graph.unindexValue, Std.ExtTreeMap.mem_modify] using hg.ends e x h
  vertexNumber w hw :=
    hg.vertexNumber w (by simpa [Graph.unindexValue, Std.ExtTreeMap.mem_modify] using hw)
  edgeNumber := hg.edgeNumber

end WellFormed

end Graph

end QuadStore
