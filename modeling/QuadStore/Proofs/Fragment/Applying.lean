import Mathlib
import QuadStore.Fragment.Merging
import QuadStore.Proofs.Graph.Growing
/-!
# Merging into any graph

What a merge adds to a graph of which nothing else is known than that it is well-formed: vertices
for the nodes that have none, what the nodes and the edges say, and nothing else. What it creates is
counted.
-/

namespace QuadStore

variable {g g' g₀ : Graph} {v w : VertexId} {entry : Entry} {X : Set (Fact VertexId EdgeId)}
  {vertices edges : Nat}

theorem Graph.WellFormed.vertex_of_lookup (hg : g.WellFormed) (h : g.lookup? entry = some v) :
    v ∈ g.vertices := by
  have hkey := (hg.lookup entry v).1 h
  by_contra hv
  rw [Graph.keysOf, Std.ExtTreeMap.getElem?_eq_none hv] at hkey
  simp at hkey

theorem Graph.vertex_of_property (h : entry ∈ g.propertiesOf v) : v ∈ g.vertices := by
  by_contra hv
  rw [Graph.propertiesOf, Std.ExtTreeMap.getElem?_eq_none hv] at h
  simp at h

/-! ## What is written -/

namespace Identity

/-- What is said of a vertex that is made for a node. -/
def written (v : VertexId) : Identity → Set (Fact VertexId EdgeId)
  | keyed _ => ∅
  | unkeyed properties =>
    {x | x = .vertex v ∨ ∃ key value, (key, some value) ∈ properties ∧ x = .property v ⟨key, value⟩}

end Identity

namespace Node

/-- What is said of the vertex of a node, whatever its identity. -/
def written (n : Node) (v : VertexId) : Set (Fact VertexId EdgeId) :=
  {x | (∃ entry ∈ n.properties, x = .property v entry) ∨
    (∃ y ∈ n.guarded, x = .property v y.entry) ∨ ∃ y ∈ n.index, x = .indexed v y.entry}

theorem vertex_of_written {n : Node} (h : .property v entry ∈ n.written w) : v = w := by
  rcases h with ⟨_, -, heq⟩ | ⟨_, -, heq⟩ | ⟨_, -, heq⟩
  · exact (Fact.property.inj heq).1
  · exact (Fact.property.inj heq).1
  · cases heq

end Node

namespace FragmentEdge

def written (y : FragmentEdge) (source target : VertexId) (e : EdgeId) :
    Set (Fact VertexId EdgeId) :=
  {x | x = .edge e source y.label target ∨ ∃ entry ∈ y.properties, x = .edgeProperty e entry}

end FragmentEdge

namespace Fragment

variable {f : Fragment} {a r : Assignment} {nodes rest : List (Node × Nat)} {n : Node} {i : Nat}
  {properties : List (String × Option String)}

/-! ## Keyed nodes -/

/-- The keyed ones of these nodes are assigned the vertices that their entries lead to, and no other
is assigned any. -/
structure LooksUp (nodes : List (Node × Nat)) (g : Graph) (a : Assignment) : Prop where
  found : ∀ n i entry, (n, i) ∈ nodes → n.identity = .keyed entry →
    ∃ v, g.lookup? entry = some v ∧ a[i]? = some v
  only : ∀ i ∈ a, ∃ n, (n, i) ∈ nodes ∧ n.isKeyed

namespace LooksUp

theorem start : LooksUp [] g ∅ := ⟨by simp, by simp⟩

theorem gains (h : LooksUp nodes g a) (hg : g.WellFormed) (hgains : g.Gains X vertices edges g') :
    LooksUp nodes g' a where
  found n i entry hn hi := by
    obtain ⟨v, hv, ha⟩ := h.found n i entry hn hi
    exact ⟨v, hgains.lookup hg hv, ha⟩
  only := h.only

theorem skip (h : LooksUp nodes g a) (hi : n.identity = .unkeyed properties) :
    LooksUp (nodes ++ [(n, i)]) g a where
  found m j entry hm hj := by
    rcases List.mem_append.1 hm with hm | hm
    · exact h.found m j entry hm hj
    · cases List.mem_singleton.1 hm
      rw [hi] at hj
      cases hj
  only j hj := by
    obtain ⟨m, hm, hk⟩ := h.only j hj
    exact ⟨m, List.mem_append_left _ hm, hk⟩

theorem step (h : LooksUp nodes g a) (hi : n.identity = .keyed entry)
    (hv : g.lookup? entry = some v) (hnew : i ∉ nodes.map (·.2)) :
    LooksUp (nodes ++ [(n, i)]) g (a.insert i v) where
  found m j entry' hm hj := by
    rcases List.mem_append.1 hm with hm | hm
    · obtain ⟨w, hw, ha⟩ := h.found m j entry' hm hj
      have hne : i ≠ j := by
        rintro rfl
        exact hnew (List.mem_map.2 ⟨(m, i), hm, rfl⟩)
      exact ⟨w, hw, by simp [Std.ExtTreeMap.getElem?_insert, hne, ha]⟩
    · cases List.mem_singleton.1 hm
      cases hi.symm.trans hj
      exact ⟨v, hv, Std.ExtTreeMap.getElem?_insert_self⟩
  only j hj := by
    rw [Std.ExtTreeMap.mem_insert, Std.compare_eq_iff_eq] at hj
    obtain rfl | hj := hj
    · exact ⟨n, by simp, Node.isKeyed_iff.2 ⟨_, hi⟩⟩
    · obtain ⟨m, hm, hk⟩ := h.only j hj
      exact ⟨m, List.mem_append_left _ hm, hk⟩

/-- The index tells the whole assignment. -/
theorem unique (h : LooksUp nodes g a) (h' : LooksUp nodes g r) : a = r := by
  have hsub : ∀ {a r : Assignment}, LooksUp nodes g a → LooksUp nodes g r →
      ∀ (i : Nat) (v : VertexId), a[i]? = some v → r[i]? = some v := by
    intro a r h h' i v hv
    obtain ⟨n, hn, hk⟩ := h.only i (mem_of_getElem?_eq hv)
    obtain ⟨entry, hi⟩ := Node.isKeyed_iff.1 hk
    obtain ⟨w, hw, ha⟩ := h.found n i entry hn hi
    obtain ⟨w', hw', hr⟩ := h'.found n i entry hn hi
    rw [hr, ← hw', hw, ← ha, hv]
  exact Std.ExtTreeMap.ext_getElem? fun i => Option.ext fun v => ⟨hsub h h' i v, hsub h' h i v⟩

end LooksUp

theorem nodup_indexes (f : Fragment) : (f.nodes.zipIdx.map (·.2)).Nodup := by
  rw [List.zipIdx_map_snd]
  exact List.nodup_range'

/-- The first of the nodes to come is not among those that are done. -/
theorem index_notMem {done : List (Node × Nat)} {y : Node × Nat}
    (h : f.nodes.zipIdx = done ++ y :: rest) : y.2 ∉ done.map (·.2) := by
  have hnodup := f.nodup_indexes
  rw [h, List.map_append, List.map_cons, List.nodup_middle, List.nodup_cons] at hnodup
  exact fun hmem => hnodup.1 (List.mem_append_left _ hmem)

/-- What is said of the vertex that is made for an entry. -/
def keyedWritten (v : VertexId) (entry : Entry) : Set (Fact VertexId EdgeId) :=
  {.vertex v, .property v entry, .key v entry}

/-- The vertex that an entry leads to is found, or it is made. -/
theorem findOrCreateKeyed_gains (hg : g.WellFormed) :
    Yields (findOrCreateKeyed entry) g fun x g' => g'.lookup? entry = some x.1 ∧
      (g.lookup? entry = some x.1 ∧ g.Gains ∅ x.2 0 g' ∨
        g.lookup? entry = none ∧ x.1 ∉ g.vertices ∧
          g.Gains (keyedWritten x.1 entry) x.2 0 g') := by
  unfold findOrCreateKeyed
  refine Yields.graph_bind ?_
  cases hlookup : g.lookup? entry with
  | some v => exact Yields.pure ⟨hlookup, .inl ⟨rfl, .refl hg⟩⟩
  | none =>
    refine (Graph.createVertex_gains hg).bind ?_
    rintro v g₁ ⟨hnew, h₁⟩
    have hv₁ : v ∈ g₁.vertices := by
      rw [← Graph.vertex_mem_facts, h₁.facts]
      exact .inr rfl
    refine (Graph.addProperty_gains h₁.wellFormed hv₁).bind fun _ g₂ h₂ => ?_
    have hfree : g₂.lookup? entry = none := by
      rw [Option.eq_none_iff_forall_ne_some]
      intro w hw
      have hkey : .key w entry ∈ g₂.facts :=
        Graph.key_mem_facts.2 ((h₂.wellFormed.lookup entry w).1 hw)
      simp only [h₂.facts, h₁.facts, Set.union_singleton, Set.mem_insert_iff, reduceCtorEq,
        false_or] at hkey
      rw [Graph.key_mem_facts, ← hg.lookup, hlookup] at hkey
      cases hkey
    refine (Graph.registerKey_gains h₂.wellFormed (h₂.vertex hv₁) hfree).bind fun _ g₃ h₃ => ?_
    refine Yields.pure ⟨?_, .inr ⟨rfl, hnew, h₁.trans (h₂.trans h₃)⟩⟩
    rw [h₃.wellFormed.lookup, ← Graph.key_mem_facts, h₃.facts]
    exact .inr rfl

/-- The keyed nodes get their vertices. Where they are all there, nothing is created. -/
theorem assignKeyed_gains (hg : g.WellFormed) :
    Yields f.assignKeyed g fun x g' => LooksUp f.nodes.zipIdx g' x.1 ∧ ∃ X, g.Gains X x.2 0 g' ∧
      ∀ b, LooksUp f.nodes.zipIdx g b → X = ∅ := by
  let I (rest : List (Node × Nat)) (x : Assignment × Nat) (g' : Graph) : Prop :=
    ∃ done, f.nodes.zipIdx = done ++ rest ∧ LooksUp done g' x.1 ∧ ∃ X, g.Gains X x.2 0 g' ∧
      ∀ b, LooksUp f.nodes.zipIdx g b → X = ∅
  have hstart : I f.nodes.zipIdx (∅, 0) g := ⟨[], rfl, .start, ∅, .refl hg, fun _ _ => rfl⟩
  refine (Yields.foldlM (I := I) ?_ hstart).mono ?_
  · rintro ⟨n, i⟩ hmem rest ⟨a, created⟩ g' ⟨done, happend, ha, X, hgains, hfound⟩
    have hnext : f.nodes.zipIdx = (done ++ [(n, i)]) ++ rest := by simp [happend]
    simp only
    cases hi : n.identity with
    | unkeyed properties => exact Yields.pure ⟨_, hnext, ha.skip hi, X, hgains, hfound⟩
    | keyed entry =>
      refine (findOrCreateKeyed_gains hgains.wellFormed).bind ?_
      rintro ⟨v, more⟩ g'' ⟨hv, ⟨-, hgains'⟩ | ⟨hnone, -, hgains'⟩⟩
      · have hstep := (ha.gains hgains.wellFormed hgains').step hi hv (index_notMem happend)
        refine Yields.pure ⟨_, hnext, hstep, X ∪ ∅, hgains.trans hgains', fun b hb => ?_⟩
        rw [hfound b hb, Set.union_empty]
      · have hstep := (ha.gains hgains.wellFormed hgains').step hi hv (index_notMem happend)
        refine Yields.pure ⟨_, hnext, hstep, _, hgains.trans hgains', fun b hb => ?_⟩
        obtain ⟨w, hw, -⟩ := hb.found n i entry hmem hi
        rw [hgains.lookup hg hw] at hnone
        cases hnone
  · rintro ⟨a, created⟩ g' ⟨done, happend, ha, hX⟩
    rw [List.append_nil] at happend
    exact ⟨happend ▸ ha, hX⟩

/-! ## Unkeyed nodes -/

theorem createUnkeyed_gains (hg : g.WellFormed) :
    Yields (createUnkeyed properties) g fun v g' => v ∉ g.vertices ∧
      g.Gains ((Identity.unkeyed properties).written v) 1 0 g' := by
  unfold createUnkeyed
  refine (Graph.createVertex_gains hg).bind ?_
  rintro v g₁ ⟨hnew, h₁⟩
  have hv₁ : v ∈ g₁.vertices := by
    rw [← Graph.vertex_mem_facts, h₁.facts]
    exact .inr rfl
  refine Yields.bind (Q := fun _ => g₁.Gains {x | ∃ y ∈ properties,
    x ∈ {x : Fact VertexId EdgeId | ∃ value, y.2 = some value ∧ x = .property v ⟨y.1, value⟩}} 0 0)
    (Graph.Gains.forM _ h₁.wellFormed fun y _ g' X h' => ?_) fun _ g₂ h₂ => ?_
  · obtain ⟨key, value⟩ := y
    cases value with
    | none => exact Yields.pure ((Graph.Gains.refl h'.wellFormed).congr (by simp))
    | some value =>
      refine (Graph.addProperty_gains h'.wellFormed (h'.vertex hv₁)).bind fun _ g'' h'' => ?_
      exact Yields.pure (h''.congr (by simp))
  · refine Yields.pure ⟨hnew, (h₁.trans h₂).congr ?_⟩
    ext x
    simp only [Identity.written, Set.singleton_union, Set.mem_insert_iff, Set.mem_ofPred_eq,
      Prod.exists]
    refine or_congr_right ⟨?_, ?_⟩
    · rintro ⟨key, _, hmem, value, rfl, rfl⟩
      exact ⟨key, value, hmem, rfl⟩
    · rintro ⟨key, value, hmem, rfl⟩
      exact ⟨key, some value, hmem, value, rfl, rfl⟩

/-- What is said of the vertices that are made for unassigned nodes. -/
def made (nodes : List (Node × Nat)) (a r : Assignment) : Set (Fact VertexId EdgeId) :=
  {x | ∃ n i v, (n, i) ∈ nodes ∧ a[i]? = none ∧ r[i]? = some v ∧ x ∈ n.identity.written v}

/-- The unkeyed ones of these nodes that were not assigned are assigned vertices that were not
there, each another. -/
structure Completes (nodes : List (Node × Nat)) (g : Graph) (a r : Assignment) : Prop where
  kept : ∀ (i : Nat) (v : VertexId), a[i]? = some v → r[i]? = some v
  all : ∀ n i properties, (n, i) ∈ nodes → n.identity = .unkeyed properties → i ∈ r
  new : ∀ (i : Nat) (v : VertexId), a[i]? = none → r[i]? = some v → v ∉ g.vertices ∧
    ∃ n properties, (n, i) ∈ nodes ∧ n.identity = .unkeyed properties
  distinct : ∀ (i j : Nat) (v : VertexId), a[i]? = none → a[j]? = none → r[i]? = some v →
    r[j]? = some v → i = j

namespace Completes

theorem start : Completes [] g a a where
  kept _ _ h := h
  all := by simp
  new i v hnone hsome := by simp [hnone] at hsome
  distinct i j v hnone _ hsome := by simp [hnone] at hsome

theorem skip (h : Completes nodes g a r) (hi : i ∈ r ∨ n.isKeyed) :
    Completes (nodes ++ [(n, i)]) g a r where
  kept := h.kept
  all m j properties hm hj := by
    rcases List.mem_append.1 hm with hm | hm
    · exact h.all m j properties hm hj
    · cases List.mem_singleton.1 hm
      exact hi.resolve_right (by simp [Node.isKeyed_eq_false_iff.2 ⟨_, hj⟩])
  new j v hnone hsome := by
    obtain ⟨hv, m, properties, hm, hj⟩ := h.new j v hnone hsome
    exact ⟨hv, m, properties, List.mem_append_left _ hm, hj⟩
  distinct := h.distinct

theorem step (h : Completes nodes g a r) (hi : n.identity = .unkeyed properties)
    (hfree : r[i]? = none) (hv : v ∉ g.vertices)
    (hother : ∀ (j : Nat), a[j]? = none → r[j]? ≠ some v) :
    Completes (nodes ++ [(n, i)]) g a (r.insert i v) where
  kept j w hj := by
    have hne : i ≠ j := by
      rintro rfl
      rw [h.kept i w hj] at hfree
      cases hfree
    simp [Std.ExtTreeMap.getElem?_insert, hne, h.kept j w hj]
  all m j properties hm hj := by
    rw [Std.ExtTreeMap.mem_insert, Std.compare_eq_iff_eq]
    rcases List.mem_append.1 hm with hm | hm
    · exact .inr (h.all m j properties hm hj)
    · cases List.mem_singleton.1 hm
      exact .inl rfl
  new j w hnone hsome := by
    rw [Std.ExtTreeMap.getElem?_insert] at hsome
    split at hsome
    · rename_i heq
      obtain rfl : i = j := Std.compare_eq_iff_eq.1 heq
      cases hsome
      exact ⟨hv, n, properties, by simp, hi⟩
    · obtain ⟨hw, m, properties, hm, hj⟩ := h.new j w hnone hsome
      exact ⟨hw, m, properties, List.mem_append_left _ hm, hj⟩
  distinct j k w hj hk hjw hkw := by
    simp only [Std.ExtTreeMap.getElem?_insert, Std.compare_eq_iff_eq] at hjw hkw
    split at hjw <;> split at hkw
    · simp_all
    · cases hjw
      exact absurd hkw (hother k hk)
    · cases hkw
      exact absurd hjw (hother j hj)
    · exact h.distinct j k w hj hk hjw hkw

/-- Where all nodes have a vertex, the assignment stays as it is. -/
theorem eq_of_all (h : Completes nodes g a r)
    (hall : ∀ n i properties, (n, i) ∈ nodes → n.identity = .unkeyed properties → i ∈ a) :
    r = a := by
  refine Std.ExtTreeMap.ext_getElem? fun i => Option.ext fun v => ⟨fun hr => ?_, h.kept i v⟩
  cases ha : a[i]? with
  | none =>
    obtain ⟨-, n, properties, hn, hi⟩ := h.new i v ha hr
    have hmem := hall n i properties hn hi
    rw [Std.ExtTreeMap.mem_iff_isSome_getElem?, ha] at hmem
    cases hmem
  | some w => rw [← hr, h.kept i w ha]

end Completes

theorem made_skip (h : a[i]? ≠ none ∨ r[i]? = none ∨ n.isKeyed) :
    made (nodes ++ [(n, i)]) a r = made nodes a r := by
  ext x
  constructor
  · rintro ⟨m, j, v, hm, hnone, hsome, hx⟩
    rcases List.mem_append.1 hm with hm | hm
    · exact ⟨m, j, v, hm, hnone, hsome, hx⟩
    · cases List.mem_singleton.1 hm
      rcases h with h | h | h
      · exact absurd hnone h
      · rw [h] at hsome
        cases hsome
      · obtain ⟨entry, hi⟩ := Node.isKeyed_iff.1 h
        simp [hi, Identity.written] at hx
  · rintro ⟨m, j, v, hm, hrest⟩
    exact ⟨m, j, v, List.mem_append_left _ hm, hrest⟩

theorem made_step (hnew : i ∉ nodes.map (·.2)) (hnone : a[i]? = none) :
    made (nodes ++ [(n, i)]) a (r.insert i v) = made nodes a r ∪ n.identity.written v := by
  have hkeep : ∀ m j, (m, j) ∈ nodes → (r.insert i v)[j]? = r[j]? := fun m j hm => by
    have hne : i ≠ j := by
      rintro rfl
      exact hnew (List.mem_map.2 ⟨(m, i), hm, rfl⟩)
    simp [Std.ExtTreeMap.getElem?_insert, hne]
  ext x
  constructor
  · rintro ⟨m, j, w, hm, hj, hsome, hx⟩
    rcases List.mem_append.1 hm with hm | hm
    · exact .inl ⟨m, j, w, hm, hj, hkeep m j hm ▸ hsome, hx⟩
    · cases List.mem_singleton.1 hm
      rw [Std.ExtTreeMap.getElem?_insert_self] at hsome
      cases hsome
      exact .inr hx
  · rintro (⟨m, j, w, hm, hj, hsome, hx⟩ | hx)
    · exact ⟨m, j, w, List.mem_append_left _ hm, hj, (hkeep m j hm).trans hsome, hx⟩
    · exact ⟨n, i, v, by simp, hnone, Std.ExtTreeMap.getElem?_insert_self, hx⟩

/-- The vertices of the nodes that have none are made. Where they all have one, nothing is. -/
theorem createMissing_gains (hg : g.WellFormed) :
    Yields (f.createMissing a) g fun x g' => Completes f.nodes.zipIdx g a x.1 ∧
      g.Gains (made f.nodes.zipIdx a x.1) x.2 0 g' := by
  let I (rest : List (Node × Nat)) (x : Assignment × Nat) (g' : Graph) : Prop :=
    ∃ done, f.nodes.zipIdx = done ++ rest ∧ Completes done g a x.1 ∧
      g.Gains (made done a x.1) x.2 0 g'
  have hstart : I f.nodes.zipIdx (a, 0) g :=
    ⟨[], rfl, .start, (Graph.Gains.refl hg).congr (by simp [made])⟩
  refine (Yields.foldlM (I := I) ?_ hstart).mono ?_
  · rintro ⟨n, i⟩ hmem rest ⟨r, created⟩ g' ⟨done, happend, hr, hgains⟩
    have hnext : f.nodes.zipIdx = (done ++ [(n, i)]) ++ rest := by simp [happend]
    have hunseen := index_notMem happend
    simp only
    cases hri : r[i]? with
    | some v =>
      have hai : a[i]? ≠ none := by
        intro hnone
        obtain ⟨-, m, _, hm, -⟩ := hr.new i v hnone hri
        exact hunseen (List.mem_map.2 ⟨(m, i), hm, rfl⟩)
      have hmem : i ∈ r := mem_of_getElem?_eq hri
      exact Yields.pure ⟨_, hnext, hr.skip (.inl hmem), hgains.congr (made_skip (.inl hai)).symm⟩
    | none =>
      cases hi : n.identity with
      | keyed entry =>
        have hk := Node.isKeyed_iff.2 ⟨_, hi⟩
        exact Yields.pure ⟨_, hnext, hr.skip (.inr hk),
          hgains.congr (made_skip (.inr (.inr hk))).symm⟩
      | unkeyed properties =>
        have hai : a[i]? = none := by
          rw [Option.eq_none_iff_forall_ne_some]
          intro w hw
          rw [hr.kept i w hw] at hri
          cases hri
        refine (createUnkeyed_gains hgains.wellFormed).bind ?_
        rintro v g'' ⟨hv, hgains'⟩
        refine Yields.pure ⟨_, hnext, hr.step hi hri (fun hmem => hv (hgains.vertex hmem)) ?_, ?_⟩
        · -- the vertices made so far are in the graph, and this one was not
          intro j hj hsome
          obtain ⟨-, m, _, hm, hmi⟩ := hr.new j v hj hsome
          refine hv (Graph.vertex_mem_facts.1 ?_)
          rw [hgains.facts]
          exact .inr ⟨m, j, v, hm, hj, hsome, by rw [hmi]; exact .inl rfl⟩
        · rw [made_step hunseen hai, hi]
          exact hgains.trans hgains'
  · rintro ⟨r, created⟩ g' ⟨done, happend, hr, hgains⟩
    rw [List.append_nil] at happend
    subst happend
    exact ⟨hr, hgains⟩

/-! ## What nodes and edges say -/

theorem mergeNode_gains (hg : g.WellFormed) (hv : v ∈ g.vertices) :
    Yields (mergeNode v n) g fun _ => g.Gains (n.written v) 0 0 := by
  unfold mergeNode
  refine Yields.bind (Graph.Gains.forM (fun entry => {.property v entry}) hg
    fun entry _ g' X h' => (Graph.addProperty_gains h'.wellFormed (h'.vertex hv)).bind
      fun _ g'' h'' => Yields.pure h'') fun _ g₁ h₁ => ?_
  refine Yields.bind (Graph.Gains.forM (fun y : GuardedValue => {.property v y.entry})
    h₁.wellFormed fun y _ g' X h' =>
      (Graph.addProperty_gains h'.wellFormed (h'.vertex (h₁.vertex hv))).bind
        fun _ g'' h'' => Yields.pure h'') fun _ g₂ h₂ => ?_
  refine (Graph.Gains.forM (fun y : IndexEntry => {.indexed v y.entry}) h₂.wellFormed
    fun y _ g' X h' => Graph.indexVertex_gains h'.wellFormed
      (h'.vertex (h₂.vertex (h₁.vertex hv)))).mono fun _ g₃ h₃ => ?_
  refine (h₁.trans (h₂.trans h₃)).congr ?_
  ext x
  simp only [Node.written, Set.mem_union, Set.mem_ofPred_eq, Std.ExtTreeSet.mem_toList,
    Set.mem_singleton_iff]

def nodesWritten (f : Fragment) (a : Assignment) : Set (Fact VertexId EdgeId) :=
  {x | ∃ n i v, (n, i) ∈ f.nodes.zipIdx ∧ a[i]? = some v ∧ x ∈ n.written v}

theorem mergeNodes_gains (hg : g.WellFormed) (ha : ∀ (i : Nat) (v : VertexId), a[i]? = some v →
    v ∈ g.vertices) : Yields (f.mergeNodes a) g fun _ => g.Gains (f.nodesWritten a) 0 0 := by
  refine (Graph.Gains.forM (fun y => {x | ∃ v, a[y.2]? = some v ∧ x ∈ y.1.written v}) hg
    fun y _ g' X h' => ?_).mono fun _ g' h' => h'.congr ?_
  · obtain ⟨n, i⟩ := y
    simp only
    cases hi : a[i]? with
    | none => exact Yields.pure ((Graph.Gains.refl h'.wellFormed).congr (by simp))
    | some v =>
      refine (mergeNode_gains h'.wellFormed (h'.vertex (ha i v hi))).mono fun _ g'' h'' => ?_
      exact h''.congr (by simp)
  · ext x
    simp only [nodesWritten, Prod.exists, Set.mem_ofPred_eq, exists_and_left]

/-- The edge is there afterwards, the oldest of its kind, with the properties. -/
theorem mergeEdge_gains {y : FragmentEdge} (hg : g.WellFormed) (hv : v ∈ g.vertices)
    (hw : w ∈ g.vertices) :
    Yields (mergeEdge v w y) g fun created g' => ∃ e, g'.findEdge? v y.label w = some e ∧
      g.Gains (y.written v w e) 0 created g' := by
  have hproperties : ∀ (e : EdgeId) (created : Nat) (g₁ : Graph),
      g.Gains {.edge e v y.label w} 0 created g₁ → g₁.findEdge? v y.label w = some e → Yields (do
        y.properties.toList.forM fun entry => do
          let _ ← GraphM.perform (.addEdgeProperty e entry)
        return created) g₁ fun created g' => ∃ e, g'.findEdge? v y.label w = some e ∧
          g.Gains (y.written v w e) 0 created g' := by
    intro e created g₁ h₁ hfound
    have he : e ∈ g₁.edges := by
      obtain ⟨x, hx, -⟩ := Graph.edge_mem_facts.1 (Graph.findEdge?_eq_some.1 hfound).1
      exact mem_of_getElem?_eq hx
    refine Yields.bind (Graph.Gains.forM (fun entry => {.edgeProperty e entry})
      h₁.wellFormed fun entry _ g' X h' =>
        (Graph.addEdgeProperty_gains h'.wellFormed (h'.edge he)).bind
          fun _ g'' h'' => Yields.pure h'') fun _ g₂ h₂ => ?_
    refine Yields.pure ⟨e, h₂.findEdge h₁.wellFormed hfound, (h₁.trans h₂).congr ?_⟩
    ext x
    simp only [FragmentEdge.written, Set.singleton_union, Set.mem_insert_iff, Set.mem_ofPred_eq,
      Std.ExtTreeSet.mem_toList, Set.mem_singleton_iff]
  unfold mergeEdge
  refine Yields.graph_bind ?_
  cases hfound : g.findEdge? v y.label w with
  | some e => exact hproperties e 0 g (.old hg (Graph.findEdge?_eq_some.1 hfound).1) hfound
  | none =>
    refine (Graph.createEdge_gains hg hv hw).bind fun e g₁ h₁ => hproperties e 1 g₁ h₁ ?_
    rw [Graph.findEdge?_eq_some, h₁.facts]
    refine ⟨.inr rfl, ?_⟩
    rintro d (hd | hd)
    · exact absurd hd (Graph.findEdge?_eq_none.1 hfound d)
    · cases hd
      exact le_rfl

/-- What is said of the edges that stand for edges of a fragment, the oldest of their kind. -/
def edgesWritten (edges : List FragmentEdge) (a : Assignment) (g : Graph) :
    Set (Fact VertexId EdgeId) :=
  {x | ∃ y ∈ edges, ∃ v w e, a[y.source]? = some v ∧ a[y.target]? = some w ∧
    g.findEdge? v y.label w = some e ∧ x ∈ y.written v w e}

/-- The edges of a fragment are there between the vertices of their ends. -/
def Connects (edges : List FragmentEdge) (a : Assignment) (g : Graph) : Prop :=
  ∀ y ∈ edges, ∃ v w e, a[y.source]? = some v ∧ a[y.target]? = some w ∧
    g.findEdge? v y.label w = some e

theorem Connects.gains {ys : List FragmentEdge} (h : Connects ys a g) (hg : g.WellFormed)
    (hgains : g.Gains X vertices edges g') : Connects ys a g' := by
  intro y hy
  obtain ⟨v, w, e, hv, hw, he⟩ := h y hy
  exact ⟨v, w, e, hv, hw, hgains.findEdge hg he⟩

/-- The edges that stand for the edges of a fragment go on doing so. -/
theorem edgesWritten_gains {ys : List FragmentEdge} (h : Connects ys a g) (hg : g.WellFormed)
    (hgains : g.Gains X vertices edges g') : edgesWritten ys a g' = edgesWritten ys a g := by
  ext x
  constructor
  · rintro ⟨y, hy, v, w, e, hv, hw, he, hx⟩
    obtain ⟨v', w', d, hv', hw', hd⟩ := h y hy
    cases hv.symm.trans hv'
    cases hw.symm.trans hw'
    have heq : d = e := Option.some.inj ((hgains.findEdge hg hd).symm.trans he)
    exact ⟨y, hy, v, w, e, hv, hw, heq ▸ hd, hx⟩
  · rintro ⟨y, hy, v, w, e, hv, hw, he, hx⟩
    exact ⟨y, hy, v, w, e, hv, hw, hgains.findEdge hg he, hx⟩

theorem edgesWritten_append {ys : List FragmentEdge} {y : FragmentEdge} {e : EdgeId}
    (hv : a[y.source]? = some v) (hw : a[y.target]? = some w)
    (he : g.findEdge? v y.label w = some e) :
    edgesWritten (ys ++ [y]) a g = edgesWritten ys a g ∪ y.written v w e := by
  ext x
  simp only [edgesWritten, List.mem_append, List.mem_singleton, or_and_right, exists_or,
    exists_eq_left, Set.mem_union, Set.mem_ofPred_eq]
  refine or_congr_right ⟨?_, fun hx => ⟨v, w, e, hv, hw, he, hx⟩⟩
  rintro ⟨v', w', e', hv', hw', he', hx⟩
  cases hv.symm.trans hv'
  cases hw.symm.trans hw'
  cases he.symm.trans he'
  exact hx

theorem mergeEdges_gains (hg : g.WellFormed)
    (ha : ∀ (i : Nat) (v : VertexId), a[i]? = some v → v ∈ g.vertices)
    (hends : ∀ y ∈ f.edges, y.source ∈ a ∧ y.target ∈ a) :
    Yields (f.mergeEdges a) g fun created g' => Connects f.edges a g' ∧
      g.Gains (edgesWritten f.edges a g') 0 created g' := by
  let I (rest : List FragmentEdge) (created : Nat) (g' : Graph) : Prop :=
    ∃ done, f.edges = done ++ rest ∧ Connects done a g' ∧
      g.Gains (edgesWritten done a g') 0 created g'
  have hstart : I f.edges 0 g :=
    ⟨[], rfl, by simp [Connects], (Graph.Gains.refl hg).congr (by simp [edgesWritten])⟩
  refine (Yields.foldlM (I := I) ?_ hstart).mono ?_
  · rintro y hy rest created g' ⟨done, happend, hconnects, hgains⟩
    have hv := Std.ExtTreeMap.getElem?_eq_some_getElem (hends y hy).1
    have hw := Std.ExtTreeMap.getElem?_eq_some_getElem (hends y hy).2
    simp only [hv, hw]
    refine (mergeEdge_gains hgains.wellFormed (hgains.vertex (ha _ _ hv))
      (hgains.vertex (ha _ _ hw))).bind ?_
    rintro more g'' ⟨e, he, hgains'⟩
    refine Yields.pure ⟨done ++ [y], by simp [happend], fun z hz => ?_, ?_⟩
    · rcases List.mem_append.1 hz with hz | hz
      · exact hconnects.gains hgains.wellFormed hgains' z hz
      · cases List.mem_singleton.1 hz
        exact ⟨_, _, e, hv, hw, he⟩
    · rw [edgesWritten_append hv hw he,
        edgesWritten_gains hconnects hgains.wellFormed hgains']
      exact hgains.trans hgains'
  · rintro created g' ⟨done, happend, hconnects, hgains⟩
    rw [List.append_nil] at happend
    subst happend
    exact ⟨hconnects, hgains⟩

end Fragment

end QuadStore
