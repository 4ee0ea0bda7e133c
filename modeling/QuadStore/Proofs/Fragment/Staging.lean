import Mathlib
import QuadStore.Proofs.Fragment.Applying
import QuadStore.Proofs.Fragment.Matching
/-!
# The stages of a merge

What a merge of a fragment goes through in a graph of which nothing else is known than that it is
well-formed, where the fragment tells its unkeyed nodes apart.
-/

namespace QuadStore

namespace Fragment

variable {f : Fragment} {g g' : Graph} {a : Assignment} {n : Node} {i j : Nat}
  {v w : VertexId} {properties : List (String × Option String)}

/-! ## Identities -/

theorem identityHolds_unkeyed : identityHolds g (.unkeyed properties) v ↔
    ∀ p ∈ properties, ∀ value, ⟨p.1, value⟩ ∈ g.propertiesOf v ↔ p.2 = some value := by
  simp only [identityHolds, List.all_eq_true, beq_iff_eq]
  refine forall₂_congr fun p _ => ⟨fun h value => ?_, fun h => ?_⟩
  · rw [← EntrySet.mem_values, h, Option.mem_toList]
  · exact eq_toList_of_nodup (EntrySet.nodup_values _ _) fun value => by
      rw [EntrySet.mem_values, h]

theorem identityHolds_congr (h : ∀ p ∈ properties, ∀ value,
    ⟨p.1, value⟩ ∈ g'.propertiesOf v ↔ ⟨p.1, value⟩ ∈ g.propertiesOf v) :
    identityHolds g' (.unkeyed properties) v = identityHolds g (.unkeyed properties) v := by
  rw [Bool.eq_iff_iff, identityHolds_unkeyed, identityHolds_unkeyed]
  exact forall₂_congr fun p hp => forall_congr' fun value => by rw [h p hp value]

/-! ## Fragments whose unkeyed nodes are told apart -/

/-- What the search relies on to find again what a merge leaves. -/
structure Coherent (f : Fragment) : Prop where
  ends : ∀ y ∈ f.edges, y.source < f.nodes.length ∧ y.target < f.nodes.length
  /-- An unkeyed node names each key once, and has a value under one of them. -/
  keys : ∀ (i : Nat) (n : Node) (properties : List (String × Option String)),
    f.nodes[i]? = some n → n.identity = .unkeyed properties →
      (properties.map (·.1)).Nodup ∧ ∃ key value, (key, some value) ∈ properties
  /-- Nothing that an unkeyed node writes is under a key that tells unkeyed nodes apart. -/
  apart : ∀ (i j : Nat) (n m : Node) (properties : List (String × Option String)),
    f.nodes[i]? = some n → f.nodes[j]? = some m → n.identity = .unkeyed properties →
      m.isKeyed = false → ∀ p ∈ properties, ∀ value v, .property v ⟨p.1, value⟩ ∉ m.written v
  /-- Two unkeyed nodes are linked. -/
  linked : ∀ (i j : Nat) (n m : Node), f.nodes[i]? = some n → f.nodes[j]? = some m →
    n.isKeyed = false → m.isKeyed = false → i ≠ j → ∃ l ∈ f.links i, l.neighbour = j
  /-- No vertex fits two unkeyed nodes. -/
  conflict : ∀ (i j : Nat) (n m : Node), f.nodes[i]? = some n → f.nodes[j]? = some m → i ≠ j →
    ∀ (g : Graph) (v : VertexId), identityHolds g n.identity v → ¬identityHolds g m.identity v
  /-- The labels of structural edges are theirs alone. -/
  labels : ∀ y ∈ f.edges, ∀ z ∈ f.edges, y.kind = .structural → z.label = y.label →
    z.kind = .structural
  /-- A structural edge meets an unkeyed node. -/
  meets : ∀ y ∈ f.edges, y.kind = .structural → ∃ (i : Nat) (n : Node),
    (y.source = i ∨ y.target = i) ∧ f.nodes[i]? = some n ∧ n.isKeyed = false
  anchored : ∀ a : Assignment, (∀ (i : Nat) (n : Node), f.nodes[i]? = some n →
    (i ∈ a ↔ n.isKeyed)) → f.Anchored a (f.pending a)

/-! ## The stages of a merge -/

/-- What a merge goes through: the graph once the keyed nodes have their vertices, once all nodes
have, and once the nodes are written. -/
structure Stages where
  keyed : Assignment
  all : Assignment
  createdKeyed : Nat
  createdUnkeyed : Nat
  found : Graph
  completed : Graph
  filled : Graph

namespace Stages

/-- The assignment after the search. -/
def matched (s : Stages) (f : Fragment) : Assignment := (f.solve s.found s.keyed).getD s.keyed

end Stages

/-- A merge that goes through these stages. -/
structure Passes (f : Fragment) (g : Graph) (s : Stages) (report : MergeReport) (g' : Graph) :
    Prop where
  looksUp : LooksUp f.nodes.zipIdx s.found s.keyed
  found : ∃ X, g.Gains X s.createdKeyed 0 s.found ∧ ∀ b, LooksUp f.nodes.zipIdx g b → X = ∅
  completes : Completes f.nodes.zipIdx s.found (s.matched f) s.all
  completed : s.found.Gains (made f.nodes.zipIdx (s.matched f) s.all) s.createdUnkeyed 0 s.completed
  filled : s.completed.Gains (f.nodesWritten s.all) 0 0 s.filled
  connects : Connects f.edges s.all g'
  connected : s.filled.Gains (edgesWritten f.edges s.all g') 0 report.createdEdges g'
  createdVertices : report.createdVertices = s.createdKeyed + s.createdUnkeyed

theorem LooksUp.mem_iff (h : LooksUp f.nodes.zipIdx g a) (hn : f.nodes[i]? = some n) :
    i ∈ a ↔ n.isKeyed := by
  constructor
  · intro hi
    obtain ⟨m, hm, hk⟩ := h.only i hi
    rw [List.mem_zipIdx_iff_getElem?] at hm
    cases hn.symm.trans hm
    exact hk
  · intro hk
    obtain ⟨entry, hi⟩ := Node.isKeyed_iff.1 hk
    obtain ⟨v, -, hv⟩ := h.found n i entry (List.mem_zipIdx_iff_getElem?.2 hn) hi
    exact mem_of_getElem?_eq hv

theorem LooksUp.vertex (h : LooksUp f.nodes.zipIdx g a) (hg : g.WellFormed)
    (hv : a[i]? = some v) : v ∈ g.vertices := by
  obtain ⟨n, hn, hk⟩ := h.only i (mem_of_getElem?_eq hv)
  obtain ⟨entry, hi⟩ := Node.isKeyed_iff.1 hk
  obtain ⟨w, hw, ha⟩ := h.found n i entry hn hi
  cases hv.symm.trans ha
  exact hg.vertex_of_lookup hw

theorem Coherent.vertex_of_identityHolds (hf : f.Coherent) (hn : f.nodes[i]? = some n)
    (h : identityHolds g n.identity v) : v ∈ g.vertices := by
  cases hi : n.identity with
  | keyed entry => simp [hi, identityHolds] at h
  | unkeyed properties =>
    obtain ⟨-, key, value, hmem⟩ := hf.keys i n properties hn hi
    rw [hi] at h
    exact Graph.vertex_of_property ((identityHolds_unkeyed.1 h _ hmem value).2 rfl)

namespace Stages

variable {s : Stages}

theorem matched_of_some (h : f.solve s.found s.keyed = some a) : s.matched f = a := by
  rw [matched, h, Option.getD_some]

theorem matched_of_none (h : f.solve s.found s.keyed = none) : s.matched f = s.keyed := by
  rw [matched, h, Option.getD_none]

/-- The search leaves the keyed nodes where they are. -/
theorem matched_kept (hv : s.keyed[i]? = some v) :
    (s.matched f)[i]? = some v := by
  unfold matched
  cases hsolve : f.solve s.found s.keyed with
  | none => exact hv
  | some a =>
    rw [Option.getD_some, (solve_eq_some hsolve).extends_ i fun hmem => ?_, hv]
    rw [pending_free i hmem] at hv
    cases hv

theorem matched_vertex (hs : LooksUp f.nodes.zipIdx s.found s.keyed) (hf : f.Coherent)
    (hg : s.found.WellFormed) (hv : (s.matched f)[i]? = some v) : v ∈ s.found.vertices := by
  unfold matched at hv
  cases hsolve : f.solve s.found s.keyed with
  | none =>
    rw [hsolve] at hv
    exact hs.vertex hg hv
  | some a =>
    rw [hsolve, Option.getD_some] at hv
    have hsolves := solve_eq_some hsolve
    by_cases hi : i ∈ f.pending s.keyed
    · obtain ⟨w, n, hw, hn, hholds⟩ := hsolves.placed i hi
      cases hv.symm.trans hw
      exact hf.vertex_of_identityHolds hn hholds
    · rw [hsolves.extends_ i hi] at hv
      exact hs.vertex hg hv

end Stages

/-- A merge into a well-formed graph goes through its stages. -/
theorem mergeInto_passes (hf : f.Coherent) (hg : g.WellFormed) :
    Yields f.mergeInto g fun x g' => ∃ s, f.Passes g s x.1 g' := by
  unfold mergeInto
  refine (assignKeyed_gains hg).bind ?_
  rintro ⟨keyed, createdKeyed⟩ g₁ ⟨hkeyed, X, hX, hfound⟩
  refine Yields.graph_bind ?_
  refine (createMissing_gains hX.wellFormed).bind ?_
  rintro ⟨a, createdUnkeyed⟩ g₂ ⟨ha, h₂⟩
  let s (g₃ : Graph) : Stages := ⟨keyed, a, createdKeyed, createdUnkeyed, g₁, g₂, g₃⟩
  have hvertex : ∀ (i : Nat) (v : VertexId), a[i]? = some v → v ∈ g₂.vertices := by
    intro i v hv
    cases hmatched : ((f.solve g₁ keyed).getD keyed)[i]? with
    | some w =>
      cases hv.symm.trans (ha.kept i w hmatched)
      exact h₂.vertex (Stages.matched_vertex (s := s g₂) hkeyed hf hX.wellFormed hmatched)
    | none =>
      obtain ⟨-, n, properties, hn, hi⟩ := ha.new i v hmatched hv
      rw [← Graph.vertex_mem_facts, h₂.facts]
      exact .inr ⟨n, i, v, hn, hmatched, hv, by rw [hi]; exact .inl rfl⟩
  have hall : ∀ i, i < f.nodes.length → i ∈ a := by
    intro i hi
    have hn := List.getElem?_eq_getElem hi
    cases hk : f.nodes[i].isKeyed with
    | true =>
      have hmem := Std.ExtTreeMap.getElem?_eq_some_getElem ((hkeyed.mem_iff hn).2 hk)
      have hsome := ha.kept i _ (Stages.matched_kept (s := s g₂) hmem)
      exact mem_of_getElem?_eq hsome
    | false =>
      obtain ⟨properties, hi⟩ := Node.isKeyed_eq_false_iff.1 hk
      exact ha.all _ i properties (List.mem_zipIdx_iff_getElem?.2 hn) hi
  refine (mergeNodes_gains h₂.wellFormed hvertex).bind fun _ g₃ h₃ => ?_
  refine (mergeEdges_gains h₃.wellFormed (fun i v hv => h₃.vertex (hvertex i v hv)) fun y hy =>
    ⟨hall _ (hf.ends y hy).1, hall _ (hf.ends y hy).2⟩).bind ?_
  rintro createdEdges g₄ ⟨hconnects, h₄⟩
  exact Yields.pure ⟨s g₃, hkeyed, ⟨X, hX, hfound⟩, ha, h₂, h₃, hconnects, h₄, rfl⟩

namespace Passes

variable {s : Stages} {report : MergeReport}

/-- What the merge says after the keyed nodes have their vertices. -/
theorem gains (h : f.Passes g s report g') :
    s.found.Gains (made f.nodes.zipIdx (s.matched f) s.all ∪ (f.nodesWritten s.all ∪
      edgesWritten f.edges s.all g')) s.createdUnkeyed report.createdEdges g' := by
  simpa only [Nat.zero_add, Nat.add_zero] using h.completed.trans (h.filled.trans h.connected)

/-- The report counts what the merge created. -/
theorem counts (h : f.Passes g s report g') :
    ∃ X, g.Gains X report.createdVertices report.createdEdges g' := by
  obtain ⟨X, hX, -⟩ := h.found
  have hall := hX.trans h.gains
  rw [← h.createdVertices, Nat.zero_add] at hall
  exact ⟨_, hall⟩

theorem found_wellFormed (h : f.Passes g s report g') : s.found.WellFormed := by
  obtain ⟨X, hX, -⟩ := h.found
  exact hX.wellFormed

/-- A keyed node has the vertex of its key throughout. -/
theorem all_keyed (h : f.Passes g s report g') (hv : s.keyed[i]? = some v) : s.all[i]? = some v :=
  h.completes.kept i v (Stages.matched_kept hv)

/-- What tells unkeyed nodes apart is the same after the nodes and edges were written, except of the
vertices of keyed nodes. -/
theorem identity_kept (h : f.Passes g s report g') (hf : f.Coherent)
    (hv : ∀ j : Nat, s.keyed[j]? ≠ some v) (hn : f.nodes[i]? = some n)
    (hi : n.identity = .unkeyed properties) {p : String × Option String} (hp : p ∈ properties)
    (value : String) :
    ⟨p.1, value⟩ ∈ g'.propertiesOf v ↔ ⟨p.1, value⟩ ∈ s.completed.propertiesOf v := by
  rw [← Graph.property_mem_facts, (h.filled.trans h.connected).facts, ← Graph.property_mem_facts]
  refine ⟨?_, .inl⟩
  rintro (hold | ⟨m, j, w, hm, hw, hx⟩ | ⟨y, _, _, _, _, _, _, _, hx⟩)
  · exact hold
  · obtain rfl := Node.vertex_of_written hx
    rw [List.mem_zipIdx_iff_getElem?] at hm
    cases hk : m.isKeyed with
    | true =>
      have hj := Std.ExtTreeMap.getElem?_eq_some_getElem ((h.looksUp.mem_iff hm).2 hk)
      cases hw.symm.trans (h.all_keyed hj)
      exact absurd hj (hv j)
    | false => exact absurd hx (hf.apart i j n m properties hn hm hi hk p hp value v)
  · rcases hx with heq | ⟨_, -, heq⟩ <;> cases heq

theorem mem_pending_iff (h : f.Passes g s report g') :
    i ∈ f.pending s.keyed ↔ ∃ n, f.nodes[i]? = some n ∧ n.isKeyed = false := by
  rw [mem_pending]
  constructor
  · rintro ⟨⟨n, hn, hk⟩, -⟩
    exact ⟨n, hn, by simpa using hk⟩
  · rintro ⟨n, hn, hk⟩
    refine ⟨⟨n, hn, by simpa using hk⟩, fun hi => ?_⟩
    rw [(h.looksUp.mem_iff hn).1 hi] at hk
    cases hk

theorem anchored (h : f.Passes g s report g') (hf : f.Coherent) :
    f.Anchored s.keyed (f.pending s.keyed) :=
  hf.anchored s.keyed fun _ _ hn => h.looksUp.mem_iff hn

/-- Nothing is said of a vertex that was there to tell it apart. -/
theorem property_of_old {entry : Entry} (h : f.Passes g s report g') (hv : v ∈ s.found.vertices) :
    entry ∈ s.completed.propertiesOf v ↔ entry ∈ s.found.propertiesOf v := by
  rw [← Graph.property_mem_facts, h.completed.facts]
  refine ⟨?_, .inl⟩
  rintro (hold | ⟨n, i, w, -, hnone, hw, hx⟩)
  · exact hold
  · have hnew := (h.completes.new i w hnone hw).1
    cases hi : n.identity with
    | keyed entry => simp [hi, Identity.written] at hx
    | unkeyed properties =>
      rw [hi] at hx
      rcases hx with heq | ⟨_, _, -, heq⟩
      · cases heq
      · exact absurd ((Fact.property.inj heq).1 ▸ hv) hnew

/-- An edge is new only between vertices of the fragment. -/
theorem ends_of_new {e : EdgeId} {label : String} (h : f.Passes g s report g')
    (he : .edge e v label w ∈ g'.facts) (hnew : .edge e v label w ∉ s.found.facts) :
    (∃ j : Nat, s.all[j]? = some v) ∧ ∃ j : Nat, s.all[j]? = some w := by
  rw [h.gains.facts] at he
  rcases he with hold | ⟨n, i, u, -, -, -, hx⟩ | ⟨n, i, u, -, -, hx⟩ |
    ⟨y, -, v', w', e', hv, hw, -, hx⟩
  · exact absurd hold hnew
  · cases hi : n.identity with
    | keyed entry => simp [hi, Identity.written] at hx
    | unkeyed properties => simp [hi, Identity.written] at hx
  · rcases hx with ⟨_, -, heq⟩ | ⟨_, -, heq⟩ | ⟨_, -, heq⟩ <;> cases heq
  · rcases hx with heq | ⟨_, -, heq⟩
    · simp only [Fact.edge.injEq] at heq
      obtain ⟨rfl, rfl, -, rfl⟩ := heq
      exact ⟨⟨_, hv⟩, _, hw⟩
    · cases heq

/-- A vertex is new only if it was made for a node. -/
theorem node_of_new (h : f.Passes g s report g') (hv : v ∈ g'.vertices)
    (hnew : v ∉ s.found.vertices) : ∃ i ∈ f.pending s.keyed, s.all[i]? = some v := by
  rw [← Graph.vertex_mem_facts, h.gains.facts] at hv
  rcases hv with hold | ⟨n, i, u, hn, -, hu, hx⟩ | ⟨n, i, u, -, -, hx⟩ |
    ⟨y, -, v', w', e', -, -, -, hx⟩
  · exact absurd hold hnew
  · cases hi : n.identity with
    | keyed entry => simp [hi, Identity.written] at hx
    | unkeyed properties =>
      have hk := Node.isKeyed_eq_false_iff.2 ⟨_, hi⟩
      refine ⟨i, h.mem_pending_iff.2 ⟨n, List.mem_zipIdx_iff_getElem?.1 hn, hk⟩, ?_⟩
      rw [hi] at hx
      rcases hx with heq | ⟨_, _, -, heq⟩
      · rw [hu, Fact.vertex.inj heq]
      · cases heq
  · rcases hx with ⟨_, -, heq⟩ | ⟨_, -, heq⟩ | ⟨_, -, heq⟩ <;> cases heq
  · rcases hx with heq | ⟨_, -, heq⟩ <;> cases heq

end Passes

end Fragment

end QuadStore
