import Mathlib
import QuadStore.Proofs.Graph.Inverse
import QuadStore.Proofs.Graph.Mutation
/-!
# Effects of mutations

Every mutation that succeeds amounts to changes that apply one after the other, so that they can be
taken back in the opposite order. Deletion of a vertex is the long one: edges, keys and index
entries go before the vertex does.
-/

namespace QuadStore

namespace Graph

variable {g : Graph} {v w : VertexId} {entry : Entry}

/-- Changes that apply one after the other. -/
def AppliesAll : Graph → List Change → Prop
  | _, [] => True
  | g, c :: cs => c.Applies g ∧ AppliesAll (c.apply g) cs

@[simp] theorem applyAll_nil : g.applyAll [] = g := rfl

@[simp] theorem applyAll_cons {c : Change} {cs : List Change} :
    g.applyAll (c :: cs) = (c.apply g).applyAll cs := rfl

theorem applyAll_append {cs ds : List Change} :
    g.applyAll (cs ++ ds) = (g.applyAll cs).applyAll ds := by
  simp [applyAll]

theorem appliesAll_append {cs ds : List Change} :
    g.AppliesAll (cs ++ ds) ↔ g.AppliesAll cs ∧ (g.applyAll cs).AppliesAll ds := by
  induction cs generalizing g with
  | nil => simp [AppliesAll]
  | cons c cs ih => simp [AppliesAll, ih, and_assoc]

theorem AppliesAll.wellFormed {cs : List Change} (h : g.AppliesAll cs) (hg : g.WellFormed) :
    (g.applyAll cs).WellFormed := by
  induction cs generalizing g with
  | nil => exact hg
  | cons c cs ih => exact ih h.2 (h.1.wellFormed hg)

/-- Taking changes back, newest first, leaves everything but the counters as it was. -/
theorem content_applyAll_inverse {cs : List Change} (h : g.AppliesAll cs) (hg : g.WellFormed) :
    ((g.applyAll cs).applyAll (cs.reverse.map Change.inverse)).content = g.content := by
  induction cs generalizing g with
  | nil => rfl
  | cons c cs ih =>
    have hrest := ih h.2 (h.1.wellFormed hg)
    rw [List.reverse_cons, List.map_append, applyAll_append]
    simp only [List.map_cons, List.map_nil, applyAll_cons, applyAll_nil]
    rw [← content_apply, hrest, content_apply]
    exact Change.inverse_apply h.1 hg

/-! ## Deletion -/

theorem appliesAll_edgeRemoved {es : List (EdgeId × Edge)} (hnodup : (es.map (·.1)).Nodup)
    (h : ∀ e ∈ es, g.edges[e.1]? = some e.2) :
    g.AppliesAll (es.map fun e => .edgeRemoved e.1 e.2) ∧
      ∃ edges, g.applyAll (es.map fun e => .edgeRemoved e.1 e.2) = { g with edges } ∧
        ∀ e : EdgeId, edges[e]? = if e ∈ es.map (·.1) then none else g.edges[e]? := by
  induction es generalizing g with
  | nil => exact ⟨trivial, g.edges, rfl, by simp⟩
  | cons e es ih =>
    simp only [List.map_cons, List.nodup_cons, List.mem_map, not_exists, not_and] at hnodup
    obtain ⟨hnew, hnodup⟩ := hnodup
    have hrest : ∀ d ∈ es, (g.eraseEdge e.1).edges[d.1]? = some d.2 := by
      intro d hd
      have := h d (List.mem_cons_of_mem _ hd)
      have := hnew d hd
      simp only [eraseEdge]
      grind
    obtain ⟨happlies, edges, heq, hedges⟩ := ih hnodup hrest
    refine ⟨⟨h e (List.mem_cons_self ..), happlies⟩, edges, ?_, ?_⟩
    · simp only [List.map_cons, applyAll_cons]
      exact heq
    · intro d
      rw [hedges]
      simp only [eraseEdge, List.map_cons, List.mem_cons]
      grind

theorem mem_foldl_erase {es : List Entry} {s : EntrySet} :
    entry ∈ es.foldl (·.erase ·) s ↔ entry ∈ s ∧ entry ∉ es := by
  induction es generalizing s with
  | nil => simp
  | cons e es ih =>
    rw [List.foldl_cons, ih]
    grind

theorem foldl_erase_toList (s : EntrySet) : s.toList.foldl (·.erase ·) s = ∅ := by
  ext entry
  simp [mem_foldl_erase]

theorem appliesAll_keyMoved {es : List Entry} (hg : g.WellFormed) (hnodup : es.Nodup)
    (h : ∀ entry ∈ es, entry ∈ g.keysOf v) :
    g.AppliesAll (es.map fun entry => .keyMoved entry (some v) none) ∧
      (g.applyAll (es.map fun entry => .keyMoved entry (some v) none)).edges = g.edges ∧
      ∀ w, (g.applyAll (es.map fun entry => .keyMoved entry (some v) none)).vertices[w]? =
        if w = v then (g.vertices[v]?).map (Vertex.mapKeys fun s => es.foldl (·.erase ·) s)
        else g.vertices[w]? := by
  induction es generalizing g with
  | nil =>
    refine ⟨trivial, rfl, fun w => ?_⟩
    split
    · subst_vars
      cases hw : g.vertices[w]? <;> simp [hw, Vertex.mapKeys]
    · rfl
  | cons entry es ih =>
    obtain ⟨hnew, hnodup⟩ := List.nodup_cons.1 hnodup
    have hlookup := (hg.lookup entry v).2 (h entry (List.mem_cons_self ..))
    have hrest : ∀ other ∈ es, other ∈ (g.releaseKey entry (some v)).keysOf v := by
      intro other hother
      rw [mem_keysOf_releaseKey]
      have := h other (List.mem_cons_of_mem _ hother)
      grind
    obtain ⟨happlies, hedges, hvertices⟩ := ih (hg.releaseKey hlookup) hnodup hrest
    refine ⟨⟨⟨hlookup, by simp⟩, happlies⟩, hedges, fun w => ?_⟩
    rw [List.map_cons, applyAll_cons]
    refine (hvertices w).trans ?_
    split
    · simp only [releaseKey, Std.ExtTreeMap.getElem?_modify_self, Option.map_map]
      rfl
    · simp only [releaseKey, Std.ExtTreeMap.getElem?_modify]
      grind

theorem appliesAll_valueUnindexed {es : List Entry} (hnodup : es.Nodup)
    (h : ∀ entry ∈ es, entry ∈ g.indexedOf v) :
    g.AppliesAll (es.map fun entry => .valueUnindexed entry v) ∧
      (g.applyAll (es.map fun entry => .valueUnindexed entry v)).edges = g.edges ∧
      ∀ w, (g.applyAll (es.map fun entry => .valueUnindexed entry v)).vertices[w]? =
        if w = v then (g.vertices[v]?).map (Vertex.mapIndexed fun s => es.foldl (·.erase ·) s)
        else g.vertices[w]? := by
  induction es generalizing g with
  | nil =>
    refine ⟨trivial, rfl, fun w => ?_⟩
    split
    · subst_vars
      cases hw : g.vertices[w]? <;> simp [hw, Vertex.mapIndexed]
    · rfl
  | cons entry es ih =>
    obtain ⟨hnew, hnodup⟩ := List.nodup_cons.1 hnodup
    have hrest : ∀ other ∈ es, other ∈ (g.unindexValue entry v).indexedOf v := by
      intro other hother
      rw [mem_indexedOf_unindexValue]
      have := h other (List.mem_cons_of_mem _ hother)
      grind
    obtain ⟨happlies, hedges, hvertices⟩ := ih hnodup hrest
    refine ⟨⟨h entry (List.mem_cons_self ..), happlies⟩, hedges, fun w => ?_⟩
    rw [List.map_cons, applyAll_cons]
    refine (hvertices w).trans ?_
    split
    · simp only [unindexValue, Std.ExtTreeMap.getElem?_modify_self, Option.map_map]
      rfl
    · simp only [unindexValue, Std.ExtTreeMap.getElem?_modify]
      grind

/-- Without the edges listed at a vertex, the edges are those that do not meet it. -/
theorem getElem?_without_edgesAt (e : EdgeId) :
    (if e ∈ (g.edgesAt v none .both).map (·.1) then none else g.edges[e]?) =
      (g.edges[e]?).filter fun x => !x.meets v .both := by
  split
  · rename_i hmem
    obtain ⟨⟨d, x⟩, hx, rfl⟩ := List.mem_map.1 hmem
    obtain ⟨hedge, hmeets, -⟩ := mem_edgesAt.1 hx
    simp [hedge, Option.filter, hmeets]
  · rename_i hmem
    cases hedge : g.edges[e]? with
    | none => rfl
    | some x =>
      have hmeets : ¬x.meets v .both := fun hmeets =>
        hmem (List.mem_map.2 ⟨(e, x), mem_edgesAt.2 ⟨hedge, hmeets, by simp⟩, rfl⟩)
      simp [Option.filter, hmeets]

theorem appliesAll_deletionChanges (hg : g.WellFormed) {data : Vertex}
    (h : g.vertices[v]? = some data) :
    g.AppliesAll (g.deletionChanges v data) ∧
      (g.applyAll (g.deletionChanges v data)).vertices = g.vertices.erase v ∧
      ∀ e : EdgeId, (g.applyAll (g.deletionChanges v data)).edges[e]? =
        (g.edges[e]?).filter fun x => !x.meets v .both := by
  have hnodup : ((g.edgesAt v none .both).map (·.1)).Nodup := nodup_edgesAt
  obtain ⟨happlies₁, edges, heq₁, hedges₁⟩ := appliesAll_edgeRemoved hnodup
    (fun e he => (mem_edgesAt.1 he).1)
  have hg₁ : WellFormed { g with edges } := heq₁ ▸ happlies₁.wellFormed hg
  obtain ⟨happlies₂, hedges₂, hvertices₂⟩ := appliesAll_keyMoved (v := v) hg₁
    data.keys.nodup_toList (fun entry hentry => by simpa [keysOf, h] using hentry)
  have hg₂ := happlies₂.wellFormed hg₁
  generalize hg₂eq : applyAll { g with edges } (data.keys.toList.map fun entry =>
    Change.keyMoved entry (some v) none) = g₂ at *
  obtain ⟨happlies₃, hedges₃, hvertices₃⟩ := appliesAll_valueUnindexed (v := v) (g := g₂)
    data.indexed.nodup_toList (fun entry hentry => by
      simpa [indexedOf, hvertices₂, h, Vertex.mapKeys] using hentry)
  generalize hg₃eq : applyAll g₂ (data.indexed.toList.map fun entry =>
    Change.valueUnindexed entry v) = g₃ at *
  have hv : g₃.vertices[v]? = some { properties := data.properties } := by
    rw [hvertices₃, if_pos rfl, hvertices₂, if_pos rfl, h]
    simp only [Option.map_some, Vertex.mapKeys, Vertex.mapIndexed, foldl_erase_toList]
  have hfree : ∀ e : EdgeId, g₃.edges[e]? = (g.edges[e]?).filter fun x => !x.meets v .both := by
    intro e
    rw [hedges₃, hedges₂, hedges₁, getElem?_without_edgesAt]
  have hlast : Change.Applies g₃ (.vertexRemoved v data.properties) := by
    refine ⟨hv, fun e x hx => ?_⟩
    rw [hfree, Option.filter_eq_some_iff] at hx
    simpa [Edge.meets] using hx.2
  have hall : g.applyAll (g.deletionChanges v data) = g₃.eraseVertex v := by
    simp only [deletionChanges, applyAll_append, heq₁, hg₂eq, hg₃eq]
    rfl
  refine ⟨?_, ?_, ?_⟩
  · simp only [deletionChanges, appliesAll_append, applyAll_append, heq₁, hg₂eq, hg₃eq]
    exact ⟨⟨⟨happlies₁, happlies₂⟩, happlies₃⟩, hlast, trivial⟩
  · rw [hall]
    apply Std.ExtTreeMap.ext_getElem?
    intro w
    simp only [eraseVertex, Std.ExtTreeMap.getElem?_erase, hvertices₃, hvertices₂]
    grind
  · intro e
    rw [hall]
    exact hfree e

/-! ## Mutations -/

theorem appliesAll_propertyRemoved {es : List Entry} (hnodup : es.Nodup)
    (h : ∀ entry ∈ es, entry ∈ g.propertiesOf v) :
    g.AppliesAll (es.map fun entry => .propertyRemoved v entry) := by
  induction es generalizing g with
  | nil => trivial
  | cons entry es ih =>
    obtain ⟨hnew, hnodup⟩ := List.nodup_cons.1 hnodup
    refine ⟨h entry (List.mem_cons_self ..), ih hnodup fun other hother => ?_⟩
    have hmem := h other (List.mem_cons_of_mem _ hother)
    simp only [Change.apply, propertiesOf, modifyVertex, Std.ExtTreeMap.getElem?_modify_self] at *
    cases hv : g.vertices[v]? <;> simp_all [Vertex.mapProperties]
    grind

theorem appliesAll_singleton {c : Change} : g.AppliesAll [c] ↔ c.Applies g := by
  simp [AppliesAll]

/-- A mutation amounts to changes that apply. -/
theorem Performs.appliesAll {m : Mutation} {a : m.Answer} {cs : List Change}
    (h : g.Performs m a cs) (hg : g.WellFormed) : g.AppliesAll cs := by
  cases h with
  | registerKey hv hother => exact appliesAll_singleton.2 ⟨rfl, by simpa using hv⟩
  | unregisterKey hv => exact appliesAll_singleton.2 ⟨hv, by simp⟩
  | createVertex => exact appliesAll_singleton.2 hg.nextVertex
  | deleteVertex hv => exact (appliesAll_deletionChanges hg hv).1
  | addProperty hv hnew => exact appliesAll_singleton.2 ⟨hv, hnew⟩
  | removeProperty hv hold => exact appliesAll_singleton.2 hold
  | @removeKey v key hv =>
    rw [show (fun value => Change.propertyRemoved v ⟨key, value⟩) =
      (fun entry => Change.propertyRemoved v entry) ∘ Entry.mk key from rfl, ← List.map_map]
    refine appliesAll_propertyRemoved ?_ ?_
    · refine List.Nodup.map (fun a b hab => ?_) ((g.propertiesOf v).nodup_values key)
      exact (Entry.mk.inj hab).2
    · intro entry hentry
      obtain ⟨value, hvalue, rfl⟩ := List.mem_map.1 hentry
      exact EntrySet.mem_values.1 hvalue
  | createEdge hv hw => exact appliesAll_singleton.2 ⟨hg.nextEdge, hv, hw⟩
  | deleteEdge he => exact appliesAll_singleton.2 he
  | addEdgeProperty he hnew => exact appliesAll_singleton.2 ⟨he, hnew⟩
  | removeEdgeProperty he hold => exact appliesAll_singleton.2 hold
  | indexVertex hv hnew => exact appliesAll_singleton.2 ⟨hv, hnew⟩
  | unindexVertex hold => exact appliesAll_singleton.2 ((hg.lookupValue _ _).1 hold)
  | _ => trivial

theorem Performs.wellFormed {m : Mutation} {a : m.Answer} {cs : List Change}
    (h : g.Performs m a cs) (hg : g.WellFormed) : (g.applyAll cs).WellFormed :=
  (h.appliesAll hg).wellFormed hg

end Graph
end QuadStore
