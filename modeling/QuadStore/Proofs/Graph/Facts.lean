import Mathlib
import QuadStore.Proofs.Graph.Effect
/-!
# Facts

What a graph says, one fact at a time. Each way to write adds facts or takes some out, and two
graphs that say the same differ in their counters only.
-/

namespace QuadStore

/-- A fact about vertices and edges that are named in some way. -/
inductive Fact (ν ε : Type) where
  | vertex (v : ν)
  | property (v : ν) (entry : Entry)
  /-- The key index leads from the entry to the vertex. -/
  | key (v : ν) (entry : Entry)
  /-- The value index leads from the entry to the vertex. -/
  | indexed (v : ν) (entry : Entry)
  | edge (e : ε) (source : ν) (label : String) (target : ν)
  | edgeProperty (e : ε) (entry : Entry)

namespace Fact

variable {ν ε : Type}

/-- The fact is about the edge. -/
def OnEdge (e : ε) : Fact ν ε → Prop
  | edge d _ _ _ | edgeProperty d _ => d = e
  | _ => False

/-- The fact cannot be said without the vertex. -/
def DependsOn (F : Set (Fact ν ε)) (v : ν) : Fact ν ε → Prop
  | vertex w | property w _ | key w _ | indexed w _ => w = v
  | edge _ source _ target => source = v ∨ target = v
  | edgeProperty e _ => ∃ source label target,
    .edge e source label target ∈ F ∧ (source = v ∨ target = v)

end Fact

namespace Graph

variable {g : Graph} {v w : VertexId} {e d : EdgeId} {entry other : Entry}

/-- Everything a graph says. -/
def facts (g : Graph) : Set (Fact VertexId EdgeId)
  | .vertex v => v ∈ g.vertices
  | .property v entry => entry ∈ g.propertiesOf v
  | .key v entry => entry ∈ g.keysOf v
  | .indexed v entry => entry ∈ g.indexedOf v
  | .edge e source label target =>
    ∃ x, g.edges[e]? = some x ∧ x.source = source ∧ x.label = label ∧ x.target = target
  | .edgeProperty e entry => entry ∈ g.edgePropertiesOf e

@[simp] theorem vertex_mem_facts : .vertex v ∈ g.facts ↔ v ∈ g.vertices := Iff.rfl

@[simp] theorem property_mem_facts : .property v entry ∈ g.facts ↔ entry ∈ g.propertiesOf v :=
  Iff.rfl

@[simp] theorem key_mem_facts : .key v entry ∈ g.facts ↔ entry ∈ g.keysOf v := Iff.rfl

@[simp] theorem indexed_mem_facts : .indexed v entry ∈ g.facts ↔ entry ∈ g.indexedOf v := Iff.rfl

@[simp] theorem edge_mem_facts {label : String} :
    .edge e v label w ∈ g.facts ↔
      ∃ x, g.edges[e]? = some x ∧ x.source = v ∧ x.label = label ∧ x.target = w :=
  Iff.rfl

@[simp] theorem edgeProperty_mem_facts :
    .edgeProperty e entry ∈ g.facts ↔ entry ∈ g.edgePropertiesOf e :=
  Iff.rfl

/-! ## The oldest edge -/

theorem findEdge?_eq_some : g.findEdge? v label w = some e ↔
    .edge e v label w ∈ g.facts ∧ ∀ d, .edge d v label w ∈ g.facts → e.number ≤ d.number := by
  have hmem : ∀ d x, (d, x) ∈ g.edgesAt v (some label) .outgoing ∧ x.target = w ↔
      g.edges[d]? = some x ∧ x.source = v ∧ x.label = label ∧ x.target = w := fun d x => by
    simp only [mem_edgesAt, Edge.meets, beq_iff_eq, Option.mem_def, Option.some.injEq, forall_eq',
      and_assoc]
    rw [@eq_comm _ label]
  have hfirst : ∀ d, g.findEdge? v label w = some d → .edge d v label w ∈ g.facts ∧
      ∀ c, .edge c v label w ∈ g.facts → d.number ≤ c.number := by
    intro d hd
    obtain ⟨⟨d, x⟩, hfound, rfl⟩ := Option.map_eq_some_iff.1 hd
    obtain ⟨htarget, before, after, happend, hbefore⟩ := List.find?_eq_some_iff_append.1 hfound
    have hx : (d, x) ∈ g.edgesAt v (some label) .outgoing := by simp [happend]
    refine ⟨⟨x, (hmem d x).1 ⟨hx, by simpa using htarget⟩⟩, fun c hc => ?_⟩
    obtain ⟨y, hy⟩ := edge_mem_facts.1 hc
    obtain ⟨hin, hw⟩ := (hmem c y).2 hy
    have hsorted : (g.edgesAt v (some label) .outgoing).Pairwise
        fun a b => a.1.number < b.1.number := pairwise_edgesAt
    rw [happend] at hin hsorted
    rcases List.mem_append.1 hin with hin | hin
    · simpa [hw] using hbefore _ hin
    · obtain heq | hin := List.mem_cons.1 hin
      · cases heq
        exact le_rfl
      · exact (List.rel_of_pairwise_cons (List.pairwise_append.1 hsorted).2.1 hin).le
  refine ⟨hfirst e, ?_⟩
  rintro ⟨he, hleast⟩
  obtain ⟨x, hx⟩ := edge_mem_facts.1 he
  have hsome : (g.findEdge? v label w).isSome := by
    rw [findEdge?, Option.isSome_map, List.find?_isSome]
    obtain ⟨hin, hw⟩ := (hmem e x).2 hx
    exact ⟨(e, x), hin, by simpa using hw⟩
  obtain ⟨d, hd⟩ := Option.isSome_iff_exists.1 hsome
  obtain ⟨hthere, holdest⟩ := hfirst d hd
  rw [hd, EdgeId.ext (le_antisymm (holdest e he) (hleast d hthere))]

theorem findEdge?_eq_none :
    g.findEdge? v label w = none ↔ ∀ e, .edge e v label w ∉ g.facts := by
  constructor
  · intro hnone e he
    obtain ⟨x, hx, rfl, rfl, rfl⟩ := edge_mem_facts.1 he
    have hfind := List.find?_eq_none.1 (Option.map_eq_none_iff.1 hnone) (e, x)
      (mem_edgesAt.2 ⟨hx, by simp [Edge.meets], by simp⟩)
    simp at hfind
  · intro hnone
    rw [Option.eq_none_iff_forall_ne_some]
    exact fun e he => hnone e (findEdge?_eq_some.1 he).1

/-! ## Facts after a change

A change is compared with the sets of facts kind by kind. -/

section Changes

attribute [local simp] propertiesOf keysOf indexedOf edgePropertiesOf insertVertex modifyVertex
  modifyEdge insertEdge eraseEdge releaseKey claimKey moveKey indexValue unindexValue Change.apply

theorem facts_vertexAdded (hv : v ∉ g.vertices) :
    ((Change.vertexAdded v ∅).apply g).facts = insert (.vertex v) g.facts := by
  ext f
  cases f <;> simp <;> grind

theorem facts_propertyAdded (hv : v ∈ g.vertices) :
    ((Change.propertyAdded v entry).apply g).facts = insert (.property v entry) g.facts := by
  ext f
  cases f <;> simp <;> grind [Vertex.mapProperties]

theorem facts_propertyRemoved :
    ((Change.propertyRemoved v entry).apply g).facts = g.facts \ {.property v entry} := by
  ext f
  cases f <;> simp <;> grind [Vertex.mapProperties]

theorem facts_keyClaimed (hv : v ∈ g.vertices) :
    ((Change.keyMoved entry none (some v)).apply g).facts = insert (.key v entry) g.facts := by
  ext f
  cases f <;> simp <;> grind [Vertex.mapKeys]

theorem facts_valueIndexed (hv : v ∈ g.vertices) :
    ((Change.valueIndexed entry v).apply g).facts = insert (.indexed v entry) g.facts := by
  ext f
  cases f <;> simp <;> grind [Vertex.mapIndexed]

theorem facts_valueUnindexed :
    ((Change.valueUnindexed entry v).apply g).facts = g.facts \ {.indexed v entry} := by
  ext f
  cases f <;> simp <;> grind [Vertex.mapIndexed]

theorem facts_edgeAdded {label : String} (he : e ∉ g.edges) :
    ((Change.edgeAdded e ⟨v, label, w, ∅⟩).apply g).facts = insert (.edge e v label w) g.facts := by
  have hnone : g.edges[e]? = none := Std.ExtTreeMap.getElem?_eq_none he
  ext f
  cases f with
  | edge d s l t =>
    by_cases hd : e = d
    · subst hd
      simp [hnone, eq_comm]
    · simp [Std.ExtTreeMap.getElem?_insert, hd, Ne.symm hd]
  | _ => simp <;> grind

theorem facts_edgePropertyAdded (he : e ∈ g.edges) :
    ((Change.edgePropertyAdded e entry).apply g).facts = insert (.edgeProperty e entry) g.facts := by
  ext f
  cases f <;> simp <;> grind [Edge.mapProperties]

theorem facts_edgePropertyRemoved :
    ((Change.edgePropertyRemoved e entry).apply g).facts = g.facts \ {.edgeProperty e entry} := by
  ext f
  cases f <;> simp <;> grind [Edge.mapProperties]

theorem facts_edgeRemoved {x : Edge} :
    ((Change.edgeRemoved e x).apply g).facts = {f ∈ g.facts | ¬f.OnEdge e} := by
  ext f
  cases f <;> simp [Fact.OnEdge] <;> grind

end Changes

/-- What is deleted with a vertex is what cannot be said without it. -/
theorem facts_deletion (hg : g.WellFormed) {data : Vertex} (h : g.vertices[v]? = some data) :
    (g.applyAll (g.deletionChanges v data)).facts = {f ∈ g.facts | ¬f.DependsOn g.facts v} := by
  obtain ⟨-, hvertices, hedges⟩ := appliesAll_deletionChanges hg h
  ext f
  cases f with
  | vertex w | property w | key w | indexed w =>
    simp only [vertex_mem_facts, property_mem_facts, key_mem_facts, indexed_mem_facts, propertiesOf,
      keysOf, indexedOf, hvertices, Fact.DependsOn, Set.mem_ofPred_eq]
    grind
  | edge e s l t =>
    simp only [edge_mem_facts, hedges, Option.filter_eq_some_iff, Fact.DependsOn, Set.mem_ofPred_eq,
      Edge.meets]
    grind
  | edgeProperty e entry =>
    simp only [edgeProperty_mem_facts, edge_mem_facts, edgePropertiesOf, hedges, Fact.DependsOn,
      Set.mem_ofPred_eq]
    cases hedge : g.edges[e]? with
    | none => simp
    | some x =>
      have hmeets : x.meets v .both ↔ x.source = v ∨ x.target = v := by simp [Edge.meets]
      by_cases hv : x.meets v .both
      · simp [Option.filter, hv, hmeets.1 hv]
      · simp [Option.filter, hv, mt hmeets.2 hv]

/-! ## Graphs that say the same -/

section Same

variable {g' : Graph}

theorem vertices_eq_of_facts (h : g'.facts = g.facts) : g'.vertices = g.vertices := by
  apply Std.ExtTreeMap.ext_getElem?
  intro v
  have hmem : v ∈ g'.vertices ↔ v ∈ g.vertices := by
    rw [← vertex_mem_facts, h, vertex_mem_facts]
  have hproperties : g'.propertiesOf v = g.propertiesOf v := by
    ext entry
    rw [← property_mem_facts, h, property_mem_facts]
  have hkeys : g'.keysOf v = g.keysOf v := by
    ext entry
    rw [← key_mem_facts, h, key_mem_facts]
  have hindexed : g'.indexedOf v = g.indexedOf v := by
    ext entry
    rw [← indexed_mem_facts, h, indexed_mem_facts]
  rw [Std.ExtTreeMap.mem_iff_isSome_getElem?, Std.ExtTreeMap.mem_iff_isSome_getElem?] at hmem
  simp only [propertiesOf, keysOf, indexedOf] at hproperties hkeys hindexed
  rcases hx : g.vertices[v]? with _ | ⟨properties, keys, indexed⟩ <;>
    rcases hx' : g'.vertices[v]? with _ | ⟨properties', keys', indexed'⟩ <;>
    simp_all

theorem edges_eq_of_facts (h : g'.facts = g.facts) : g'.edges = g.edges := by
  have hshape : ∀ (e : EdgeId) (s : VertexId) (l : String) (t : VertexId),
      .edge e s l t ∈ g'.facts ↔ .edge e s l t ∈ g.facts := fun e s l t => by rw [h]
  simp only [edge_mem_facts] at hshape
  apply Std.ExtTreeMap.ext_getElem?
  intro e
  have hproperties : g'.edgePropertiesOf e = g.edgePropertiesOf e := by
    ext entry
    rw [← edgeProperty_mem_facts, h, edgeProperty_mem_facts]
  cases hx : g.edges[e]? with
  | none =>
    rw [Option.eq_none_iff_forall_ne_some]
    intro x' hx'
    obtain ⟨x, hx₁, -⟩ := (hshape e _ _ _).1 ⟨x', hx', rfl, rfl, rfl⟩
    rw [hx] at hx₁
    cases hx₁
  | some x =>
    obtain ⟨x', hx', hs, hl, ht⟩ := (hshape e _ _ _).2 ⟨x, hx, rfl, rfl, rfl⟩
    simp only [edgePropertiesOf, hx, hx', Option.elim_some] at hproperties
    rw [hx', Option.some.injEq]
    cases x
    cases x'
    simp_all

theorem keyIndex_eq_of_facts (hg : g.WellFormed) (hg' : g'.WellFormed) (h : g'.facts = g.facts) :
    g'.keyIndex = g.keyIndex := by
  apply Std.ExtTreeMap.ext_getElem?
  intro entry
  have hlookup : ∀ v, g'.lookup? entry = some v ↔ g.lookup? entry = some v := fun v => by
    rw [hg'.lookup, hg.lookup, ← key_mem_facts, h, key_mem_facts]
  exact Option.ext hlookup

theorem valueIndex_eq_of_facts (hg : g.WellFormed) (hg' : g'.WellFormed) (h : g'.facts = g.facts) :
    g'.valueIndex = g.valueIndex := by
  apply Std.ExtTreeMap.ext_getElem?
  intro entry
  have hmem : ∀ v, v ∈ g'.lookupValue entry ↔ v ∈ g.lookupValue entry := fun v => by
    rw [hg'.lookupValue, hg.lookupValue, ← indexed_mem_facts, h, indexed_mem_facts]
  simp only [lookupValue] at hmem
  -- a set that is not empty has a member that the other index lists too
  have hsome : ∀ {g₁ : Graph} {vs : VertexSet}, g₁.WellFormed → g₁.valueIndex[entry]? = some vs →
      ∃ v, v ∈ vs := fun hg₁ hvs => by
    by_contra hnone
    refine hg₁.nonempty entry _ hvs (Std.ExtTreeSet.eq_empty_iff_forall_not_mem.2 ?_)
    exact fun v hv => hnone ⟨v, hv⟩
  cases hvs : g.valueIndex[entry]? with
  | none =>
    cases hvs' : g'.valueIndex[entry]? with
    | none => rfl
    | some vs' =>
      obtain ⟨v, hv⟩ := hsome hg' hvs'
      simpa [hvs, hvs', hv] using hmem v
  | some vs =>
    cases hvs' : g'.valueIndex[entry]? with
    | none =>
      obtain ⟨v, hv⟩ := hsome hg hvs
      simpa [hvs, hvs', hv] using hmem v
    | some vs' =>
      rw [Option.some.injEq]
      ext v
      simpa [hvs, hvs'] using hmem v

/-- The counters say nothing. -/
theorem facts_content : g.content.facts = g.facts := by
  ext f
  cases f <;> rfl

/-- Well-formed graphs that say the same differ in their counters only. -/
theorem content_eq_of_facts (hg : g.WellFormed) (hg' : g'.WellFormed) (h : g'.facts = g.facts) :
    g'.content = g.content := by
  simp only [content, vertices_eq_of_facts h, edges_eq_of_facts h, keyIndex_eq_of_facts hg hg' h,
    valueIndex_eq_of_facts hg hg' h]

end Same

end Graph

end QuadStore
