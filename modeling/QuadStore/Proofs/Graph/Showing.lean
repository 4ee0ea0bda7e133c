import Mathlib
import QuadStore.Proofs.Containers
import QuadStore.Proofs.Graph.Steps
/-!
# Graphs that show a set of facts

The facts are about names, and a placement says which vertices and edges stand for them. An edge is
named by its ends and its label: no two edges of such a graph have the same.

A mutation of a graph that shows facts adds a fact or takes some out.
-/

namespace QuadStore

/-- The name of an edge. -/
structure Bond (ν : Type) where
  source : ν
  label : String
  target : ν
deriving DecidableEq

/-- The vertices and edges that stand for names. -/
structure Placement (ν : Type) where
  vertex : ν → VertexId
  edge : Bond ν → EdgeId

abbrev Facts (ν : Type) := Set (Fact ν (Bond ν))

/-- Which bonds of a name are meant. -/
def Bond.Meets {ν : Type} (b : Bond ν) (p : ν) : Direction → Prop
  | .outgoing => b.source = p
  | .incoming => b.target = p
  | .both => b.source = p ∨ b.target = p

namespace Fact

variable {ν : Type}

def bond (b : Bond ν) : Fact ν (Bond ν) := .edge b b.source b.label b.target

def map (P : Placement ν) : Fact ν (Bond ν) → Fact VertexId EdgeId
  | vertex p => vertex (P.vertex p)
  | property p entry => property (P.vertex p) entry
  | key p entry => key (P.vertex p) entry
  | indexed p entry => indexed (P.vertex p) entry
  | edge b source label target => edge (P.edge b) (P.vertex source) label (P.vertex target)
  | edgeProperty b entry => edgeProperty (P.edge b) entry

/-- What the fact speaks of is there. -/
def Grounded (F : Facts ν) : Fact ν (Bond ν) → Prop
  | vertex _ => True
  | property p _ | key p _ | indexed p _ => vertex p ∈ F
  | edge b source label target =>
    b = ⟨source, label, target⟩ ∧ vertex source ∈ F ∧ vertex target ∈ F
  | edgeProperty b _ => bond b ∈ F

theorem Grounded.mono {F F' : Facts ν} (h : F ⊆ F') {f : Fact ν (Bond ν)} (hf : f.Grounded F) :
    f.Grounded F' := by
  cases f with
  | vertex p => trivial
  | property p _ | key p _ | indexed p _ | edgeProperty p _ => exact h hf
  | edge b s l t => exact ⟨hf.1, h hf.2.1, h hf.2.2⟩

theorem bond_of_onEdge {F : Facts ν} {b : Bond ν} {f : Fact ν (Bond ν)}
    (hF : ∀ f ∈ F, f.Grounded F) (hf : f ∈ F) (hon : f.OnEdge b) : bond b ∈ F := by
  have hground := hF f hf
  cases f with
  | edge d s l t =>
    obtain ⟨rfl, -, -⟩ := hground
    obtain rfl : ⟨s, l, t⟩ = b := hon
    exact hf
  | edgeProperty d entry =>
    obtain rfl : d = b := hon
    exact hground
  | _ => cases hon

/-- A vertex that a fact cannot be said without is there. -/
theorem vertex_of_dependsOn {F F' : Facts ν} {p : ν} {f : Fact ν (Bond ν)}
    (hF : ∀ f ∈ F, f.Grounded F) (hF' : ∀ f ∈ F', f.Grounded F') (hf : f ∈ F)
    (h : f.DependsOn F' p) : vertex p ∈ F := by
  have hground := hF f hf
  cases f with
  | vertex q =>
    obtain rfl : q = p := h
    exact hf
  | property q _ | key q _ | indexed q _ =>
    obtain rfl : q = p := h
    exact hground
  | edge b s l t =>
    obtain ⟨-, hs, ht⟩ := hground
    obtain rfl | rfl := h
    · exact hs
    · exact ht
  | edgeProperty b entry =>
    obtain ⟨s, l, t, hedge, hends⟩ := h
    obtain ⟨rfl, -, -⟩ := hF' _ hedge
    obtain ⟨-, hs, ht⟩ := hF _ hground
    obtain rfl | rfl := hends
    · exact hs
    · exact ht

end Fact

namespace Placement

/-- The edge that stands for a bond. -/
def edgeOf {ν : Type} (P : Placement ν) (g : Graph) (b : Bond ν) : EdgeId × Edge :=
  (P.edge b, ⟨P.vertex b.source, b.label, P.vertex b.target, g.edgePropertiesOf (P.edge b)⟩)

variable {ν : Type} {P P' P'' : Placement ν} {F F' : Facts ν}

/-- The placement places as the other does what the facts speak of. -/
structure Extends (P' P : Placement ν) (F : Facts ν) : Prop where
  vertex : ∀ p, .vertex p ∈ F → P'.vertex p = P.vertex p
  edge : ∀ b, .bond b ∈ F → P'.edge b = P.edge b

theorem Extends.refl : P.Extends P F := ⟨fun _ _ => rfl, fun _ _ => rfl⟩

theorem Extends.trans (h' : P''.Extends P' F') (h : P'.Extends P F) (hF : F ⊆ F') :
    P''.Extends P F where
  vertex p hp := (h'.vertex p (hF hp)).trans (h.vertex p hp)
  edge b hb := (h'.edge b (hF hb)).trans (h.edge b hb)

/-- A vertex may be given to a name that has none. -/
theorem exists_vertex [DecidableEq ν] {p : ν} (hp : .vertex p ∉ F) (v : VertexId) :
    ∃ P' : Placement ν, P'.Extends P F ∧ P'.vertex p = v := by
  refine ⟨{ P with vertex := Function.update P.vertex p v }, ⟨fun q hq => ?_, fun _ _ => rfl⟩,
    Function.update_self ..⟩
  exact Function.update_of_ne (by rintro rfl; exact hp hq) ..

theorem exists_edge [DecidableEq ν] {b : Bond ν} (hb : .bond b ∉ F) (e : EdgeId) :
    ∃ P' : Placement ν, P'.Extends P F ∧ P'.edge b = e := by
  refine ⟨{ P with edge := Function.update P.edge b e }, ⟨fun _ _ => rfl, fun c hc => ?_⟩,
    Function.update_self ..⟩
  exact Function.update_of_ne (by rintro rfl; exact hb hc) ..

theorem Extends.map_eq (h : P'.Extends P F) {f : Fact ν (Bond ν)} (hmem : f ∈ F)
    (hf : f.Grounded F) : f.map P' = f.map P := by
  cases f with
  | vertex p => exact congrArg Fact.vertex (h.vertex p hmem)
  | property p entry | key p entry | indexed p entry => simp only [Fact.map, h.vertex p hf]
  | edge b s l t =>
    obtain ⟨rfl, hs, ht⟩ := hf
    simp only [Fact.map, h.vertex s hs, h.vertex t ht, h.edge _ hmem]
  | edgeProperty b entry => simp only [Fact.map, h.edge b hf]

end Placement

namespace Graph

variable {ν : Type} {g g' : Graph} {P : Placement ν} {F : Facts ν} {p q : ν} {entry : Entry}
  {b b' : Bond ν} {f f' : Fact ν (Bond ν)}

/-- The graph says these facts and nothing else. -/
structure Shows (g : Graph) (P : Placement ν) (F : Facts ν) : Prop where
  wellFormed : g.WellFormed
  grounded : ∀ f ∈ F, f.Grounded F
  injective : ∀ p q, .vertex p ∈ F → .vertex q ∈ F → P.vertex p = P.vertex q → p = q
  facts : g.facts = Fact.map P '' F

namespace Shows

theorem map_mem (h : g.Shows P F) (hf : f ∈ F) : f.map P ∈ g.facts := by
  rw [h.facts]
  exact Set.mem_image_of_mem _ hf

theorem empty : Graph.Shows {} P ∅ where
  wellFormed := WellFormed.empty
  grounded := by simp
  injective := by simp
  facts := by
    ext f
    cases f <;> simp [propertiesOf, keysOf, indexedOf, edgePropertiesOf]

/-! ## Views -/

/-- A bond is determined by the vertices at its ends and its label. -/
theorem bond_eq (h : g.Shows P F) (hb' : .bond b' ∈ F) (hp : .vertex b.source ∈ F)
    (hq : .vertex b.target ∈ F) (hs : P.vertex b'.source = P.vertex b.source)
    (hl : b'.label = b.label) (ht : P.vertex b'.target = P.vertex b.target) : b' = b := by
  obtain ⟨-, hsource, htarget⟩ := h.grounded _ hb'
  have hsources := h.injective _ _ hsource hp hs
  have htargets := h.injective _ _ htarget hq ht
  cases b
  cases b'
  simp_all

theorem edge_injective (h : g.Shows P F) (hb : .bond b ∈ F) (hb' : .bond b' ∈ F)
    (heq : P.edge b = P.edge b') : b = b' := by
  obtain ⟨x, hx, hs, hl, ht⟩ := edge_mem_facts.1 (h.map_mem hb)
  obtain ⟨x', hx', hs', hl', ht'⟩ := edge_mem_facts.1 (h.map_mem hb')
  rw [heq, hx'] at hx
  cases hx
  obtain ⟨-, hsource, htarget⟩ := h.grounded _ hb'
  exact h.bond_eq hb hsource htarget (hs.symm.trans hs') (hl.symm.trans hl') (ht.symm.trans ht')

/-- Facts that are grounded are told apart by what stands for them. -/
theorem map_injective (h : g.Shows P F) (hf : f.Grounded F) (hf' : f'.Grounded F)
    (hvertex : ∀ p, f = .vertex p → .vertex p ∈ F) (hvertex' : ∀ p, f' = .vertex p → .vertex p ∈ F)
    (heq : f.map P = f'.map P) : f = f' := by
  cases f <;> cases f' <;> simp only [Fact.map, reduceCtorEq, Fact.vertex.injEq,
    Fact.property.injEq, Fact.key.injEq, Fact.indexed.injEq, Fact.edge.injEq,
    Fact.edgeProperty.injEq] at heq
  case vertex.vertex p q => rw [h.injective p q (hvertex p rfl) (hvertex' q rfl) heq]
  case property.property => rw [h.injective _ _ hf hf' heq.1, heq.2]
  case key.key => rw [h.injective _ _ hf hf' heq.1, heq.2]
  case indexed.indexed => rw [h.injective _ _ hf hf' heq.1, heq.2]
  case edge.edge =>
    obtain ⟨rfl, hs, ht⟩ := hf
    obtain ⟨rfl, hs', ht'⟩ := hf'
    obtain ⟨-, hsource, rfl, htarget⟩ := heq
    rw [h.injective _ _ hs hs' hsource, h.injective _ _ ht ht' htarget]
  case edgeProperty.edgeProperty => rw [h.edge_injective hf hf' heq.1, heq.2]

theorem map_mem_iff (h : g.Shows P F) (hf : f.Grounded F)
    (hvertex : ∀ p, f = .vertex p → .vertex p ∈ F) : f.map P ∈ g.facts ↔ f ∈ F := by
  constructor
  · intro hmem
    rw [h.facts] at hmem
    obtain ⟨f', hf', heq⟩ := hmem
    rwa [h.map_injective hf (h.grounded f' hf') hvertex (fun p hp => hp ▸ hf') heq.symm]
  · exact h.map_mem

theorem mem_vertices (h : g.Shows P F) {v : VertexId} :
    v ∈ g.vertices ↔ ∃ p, .vertex p ∈ F ∧ P.vertex p = v := by
  rw [← vertex_mem_facts, h.facts]
  constructor
  · rintro ⟨f, hf, heq⟩
    cases f <;> simp only [Fact.map, reduceCtorEq, Fact.vertex.injEq] at heq
    exact ⟨_, hf, heq⟩
  · rintro ⟨p, hp, rfl⟩
    exact ⟨_, hp, rfl⟩

theorem vertex_mem (h : g.Shows P F) (hp : .vertex p ∈ F) : P.vertex p ∈ g.vertices :=
  h.map_mem hp

theorem mem_propertiesOf (h : g.Shows P F) (hp : .vertex p ∈ F) :
    entry ∈ g.propertiesOf (P.vertex p) ↔ .property p entry ∈ F :=
  h.map_mem_iff (f := .property p entry) hp (by simp)

theorem mem_indexedOf (h : g.Shows P F) (hp : .vertex p ∈ F) :
    entry ∈ g.indexedOf (P.vertex p) ↔ .indexed p entry ∈ F :=
  h.map_mem_iff (f := .indexed p entry) hp (by simp)

theorem mem_edgePropertiesOf (h : g.Shows P F) (hb : .bond b ∈ F) :
    entry ∈ g.edgePropertiesOf (P.edge b) ↔ .edgeProperty b entry ∈ F :=
  h.map_mem_iff (f := .edgeProperty b entry) hb (by simp)

theorem lookup?_eq_some (h : g.Shows P F) {v : VertexId} :
    g.lookup? entry = some v ↔ ∃ p, .key p entry ∈ F ∧ P.vertex p = v := by
  rw [h.wellFormed.lookup, ← key_mem_facts, h.facts]
  constructor
  · rintro ⟨f, hf, heq⟩
    cases f <;> simp only [Fact.map, reduceCtorEq, Fact.key.injEq] at heq
    obtain ⟨rfl, rfl⟩ := heq
    exact ⟨_, hf, rfl⟩
  · rintro ⟨p, hp, rfl⟩
    exact ⟨_, hp, rfl⟩

theorem lookup?_eq_none (h : g.Shows P F) :
    g.lookup? entry = none ↔ ∀ p, .key p entry ∉ F := by
  constructor
  · intro hnone p hp
    have hsome := h.lookup?_eq_some.2 ⟨p, hp, rfl⟩
    rw [hnone] at hsome
    cases hsome
  · intro hfree
    cases hlookup : g.lookup? entry with
    | none => rfl
    | some v =>
      obtain ⟨p, hp, -⟩ := h.lookup?_eq_some.1 hlookup
      exact absurd hp (hfree p)

theorem mem_lookupValue (h : g.Shows P F) {v : VertexId} :
    v ∈ g.lookupValue entry ↔ ∃ p, .indexed p entry ∈ F ∧ P.vertex p = v := by
  rw [h.wellFormed.lookupValue, ← indexed_mem_facts, h.facts]
  constructor
  · rintro ⟨f, hf, heq⟩
    cases f <;> simp only [Fact.map, reduceCtorEq, Fact.indexed.injEq] at heq
    obtain ⟨rfl, rfl⟩ := heq
    exact ⟨_, hf, rfl⟩
  · rintro ⟨p, hp, rfl⟩
    exact ⟨_, hp, rfl⟩

/-- The edge that stands for a bond. -/
theorem edge_of_bond (h : g.Shows P F) (hb : .bond b ∈ F) :
    ∃ x, g.edges[P.edge b]? = some x ∧ x.source = P.vertex b.source ∧ x.label = b.label ∧
      x.target = P.vertex b.target :=
  edge_mem_facts.1 (h.map_mem hb)

theorem bond_of_edge (h : g.Shows P F) {e : EdgeId} {x : Edge} (hx : g.edges[e]? = some x) :
    ∃ b, .bond b ∈ F ∧ P.edge b = e ∧ P.vertex b.source = x.source ∧ b.label = x.label ∧
      P.vertex b.target = x.target := by
  have hmem : Fact.edge e x.source x.label x.target ∈ g.facts := ⟨x, hx, rfl, rfl, rfl⟩
  rw [h.facts] at hmem
  obtain ⟨f, hf, heq⟩ := hmem
  cases f <;> simp only [Fact.map, reduceCtorEq, Fact.edge.injEq] at heq
  obtain ⟨rfl, hs, hl, ht⟩ := heq
  obtain ⟨rfl, -, -⟩ := h.grounded _ hf
  exact ⟨_, hf, rfl, hs, hl, ht⟩

/-- The edges at the vertex of a name are those of the bonds at the name, each once. -/
theorem edgesAt_eq (h : g.Shows P F) (hp : .vertex p ∈ F) (label : Option String)
    (direction : Direction) :
    ∃ bs : List (Bond ν), bs.Nodup ∧ bs.map (P.edgeOf g) = g.edgesAt (P.vertex p) label direction ∧
      ∀ b, b ∈ bs ↔ .bond b ∈ F ∧ b.Meets p direction ∧ ∀ l ∈ label, l = b.label := by
  have hedge : ∀ b, .bond b ∈ F → g.edges[P.edge b]? = some (P.edgeOf g b).2 := by
    intro b hb
    obtain ⟨⟨s, l, t, properties⟩, hx, rfl, rfl, rfl⟩ := h.edge_of_bond hb
    simp only [Placement.edgeOf, edgePropertiesOf, hx, Option.elim_some]
  have hmeets : ∀ b, .bond b ∈ F →
      ((P.edgeOf g b).2.meets (P.vertex p) direction ↔ b.Meets p direction) := by
    intro b hb
    obtain ⟨-, hs, ht⟩ := h.grounded _ hb
    have hplace : ∀ q, .vertex q ∈ F → (P.vertex q = P.vertex p ↔ q = p) := fun q hq =>
      ⟨h.injective q p hq hp, congrArg _⟩
    cases direction <;>
      simp only [Edge.meets, Placement.edgeOf, Bond.Meets, beq_iff_eq, Bool.or_eq_true,
        hplace _ hs, hplace _ ht]
  obtain ⟨bs, hbs, hmap⟩ := exists_map_eq (P.edgeOf g) (g.edgesAt (P.vertex p) label direction)
    (fun b => .bond b ∈ F ∧ b.Meets p direction ∧ ∀ l ∈ label, l = b.label) fun y hy => by
      obtain ⟨e, x⟩ := y
      obtain ⟨hx, hxmeets, hlabel⟩ := mem_edgesAt.1 hy
      obtain ⟨b, hb, rfl, -, hl, -⟩ := h.bond_of_edge hx
      rw [hedge b hb] at hx
      cases hx
      exact ⟨b, ⟨hb, (hmeets b hb).1 hxmeets, hlabel⟩, rfl⟩
  refine ⟨bs, ?_, hmap, fun b => ⟨hbs b, ?_⟩⟩
  · refine List.Nodup.of_map (P.edgeOf g) ?_
    rw [hmap]
    exact nodup_edgesAt.of_map
  · rintro ⟨hb, hm, hl⟩
    have hmem : P.edgeOf g b ∈ g.edgesAt (P.vertex p) label direction :=
      mem_edgesAt.2 ⟨hedge b hb, (hmeets b hb).2 hm, hl⟩
    rw [← hmap, List.mem_map] at hmem
    obtain ⟨c, hc, heq⟩ := hmem
    rwa [← h.edge_injective (hbs c hc).1 hb (congrArg Prod.fst heq)]

theorem findEdge?_of_bond (h : g.Shows P F) (hb : .bond b ∈ F) :
    g.findEdge? (P.vertex b.source) b.label (P.vertex b.target) = some (P.edge b) := by
  refine findEdge?_eq_some.2 ⟨h.edge_of_bond hb, ?_⟩
  rintro d ⟨y, hy, hs, hl, ht⟩
  obtain ⟨c, hc, rfl, hcs, hcl, hct⟩ := h.bond_of_edge hy
  obtain ⟨-, hsource, htarget⟩ := h.grounded _ hb
  rw [h.bond_eq hc hsource htarget (hcs.trans hs) (hcl.trans hl) (hct.trans ht)]

theorem findEdge?_eq_none (h : g.Shows P F) (hp : .vertex b.source ∈ F) (hq : .vertex b.target ∈ F)
    (hb : .bond b ∉ F) :
    g.findEdge? (P.vertex b.source) b.label (P.vertex b.target) = none := by
  rw [Graph.findEdge?_eq_none]
  rintro d ⟨y, hy, hs, hl, ht⟩
  obtain ⟨c, hc, rfl, hcs, hcl, hct⟩ := h.bond_of_edge hy
  rw [h.bond_eq hc hp hq (hcs.trans hs) (hcl.trans hl) (hct.trans ht)] at hc
  exact hb hc

end Shows

end Graph

end QuadStore
