import Mathlib
import QuadStore.Proofs.Fragment.Locating
import QuadStore.Proofs.Fragment.Refinding
/-!
# Merging again

What a merge leaves: everything that was there, and the whole fragment at the vertices that the
lookup and the search find. A second merge of the fragment has nothing to do.
-/

namespace QuadStore

namespace Graph

/-- Everything in the first graph is in the second, as it was. -/
structure Keeps (g g' : Graph) : Prop where
  vertices : ∀ v ∈ g.vertices, v ∈ g'.vertices
  edges : ∀ (e : EdgeId) (x : Edge), g.edges[e]? = some x → ∃ x', g'.edges[e]? = some x' ∧
    x'.source = x.source ∧ x'.label = x.label ∧ x'.target = x.target
  properties : ∀ v, ∀ entry ∈ g.propertiesOf v, entry ∈ g'.propertiesOf v
  edgeProperties : ∀ e, ∀ entry ∈ g.edgePropertiesOf e, entry ∈ g'.edgePropertiesOf e
  lookup : ∀ entry v, g.lookup? entry = some v → g'.lookup? entry = some v
  lookupValue : ∀ entry, ∀ v ∈ g.lookupValue entry, v ∈ g'.lookupValue entry

variable {g g' : Graph} {X : Set (Fact VertexId EdgeId)} {vertices edges : Nat}

theorem Gains.keeps (h : g.Gains X vertices edges g') (hg : g.WellFormed) : g.Keeps g' where
  vertices _ hv := h.vertex hv
  edges _ x hx := edge_mem_facts.1 (h.mono (edge_mem_facts.2 ⟨x, hx, rfl, rfl, rfl⟩))
  properties _ _ hmem := property_mem_facts.1 (h.mono (property_mem_facts.2 hmem))
  edgeProperties _ _ hmem := edgeProperty_mem_facts.1 (h.mono (edgeProperty_mem_facts.2 hmem))
  lookup _ _ hv := h.lookup hg hv
  lookupValue _ _ hv := h.lookupValue hg hv

end Graph

namespace Fragment

variable {f : Fragment} {g g' g'' : Graph} {a : Assignment} {s s' : Stages}
  {report report' : MergeReport}

/-- Where every keyed node is found, the lookup for a removal finds them all. -/
theorem lookupKeyed?_of_looksUp (h : LooksUp f.nodes.zipIdx g a) : f.lookupKeyed? g = some a := by
  have hall : ∀ done rest, f.nodes.zipIdx = done ++ rest → ∃ a',
      done.foldlM (lookupNode g) ∅ = some a' ∧ LooksUp done g a' := by
    intro done
    induction done using List.reverseRecOn with
    | nil => exact fun _ _ => ⟨∅, rfl, .start⟩
    | append_singleton done y ih =>
      intro rest happend
      rw [List.append_assoc, List.singleton_append] at happend
      obtain ⟨a', hfold, ha'⟩ := ih (y :: rest) happend
      obtain ⟨n, i⟩ := y
      rw [List.foldlM_append, hfold, Option.bind_eq_bind, Option.bind_some, List.foldlM_cons]
      cases hi : n.identity with
      | unkeyed properties =>
        have hk := Node.isKeyed_eq_false_iff.2 ⟨_, hi⟩
        exact ⟨a', by rw [lookupNode_unkeyed hk]; rfl, ha'.skip hi⟩
      | keyed entry =>
        obtain ⟨v, hv, -⟩ := h.found n i entry (by simp [happend]) hi
        refine ⟨a'.insert i v, ?_, ha'.step hi hv (index_notMem happend)⟩
        simp only [lookupNode, hi, hv]
        rfl
  obtain ⟨a', hfold, ha'⟩ := hall f.nodes.zipIdx [] (by simp)
  rw [h.unique ha']
  exact hfold

/-- The vertex has what the node says. -/
structure Bears (g : Graph) (v : VertexId) (n : Node) : Prop where
  vertex : v ∈ g.vertices
  keyed : ∀ entry, n.identity = .keyed entry → g.lookup? entry = some v
  unkeyed : n.isKeyed = false → identityHolds g n.identity v
  properties : ∀ entry ∈ n.properties, entry ∈ g.propertiesOf v
  guarded : ∀ y ∈ n.guarded, y.entry ∈ g.propertiesOf v
  index : ∀ y ∈ n.index, v ∈ g.lookupValue y.entry

/-- The graph has the whole fragment at the vertices of the assignment. -/
structure Embeds (f : Fragment) (g : Graph) (a : Assignment) : Prop where
  nodes : ∀ n i, (n, i) ∈ f.nodes.zipIdx → ∃ v, a[i]? = some v ∧ Bears g v n
  edges : ∀ y ∈ f.edges, ∃ v w e, a[y.source]? = some v ∧ a[y.target]? = some w ∧
    g.findEdge? v y.label w = some e ∧ ∀ entry ∈ y.properties, entry ∈ g.edgePropertiesOf e

namespace Passes

section Left

variable (h : f.Passes g s report g')

include h

/-- The lookup finds the keyed nodes where the merge found or made them. -/
theorem looksUp_left : LooksUp f.nodes.zipIdx g' s.keyed :=
  h.looksUp.gains h.found_wellFormed h.gains

theorem nodesWritten_left : f.nodesWritten s.all ⊆ g'.facts := by
  rw [h.gains.facts]
  exact fun x hx => .inr (.inr (.inl hx))

theorem edgesWritten_left : edgesWritten f.edges s.all g' ⊆ g'.facts := by
  rw [h.gains.facts]
  exact fun x hx => .inr (.inr (.inr hx))

theorem keeps (hg : g.WellFormed) : g.Keeps g' := by
  obtain ⟨X, hX⟩ := h.counts
  exact hX.keeps hg

theorem embeds (hf : f.Coherent) : f.Embeds g' s.all where
  nodes n i hn := by
    have hnode := List.mem_zipIdx_iff_getElem?.1 hn
    have hlookup := h.looksUp_left
    have hsolves := solve_eq_some (h.solve_eq hf)
    obtain ⟨v, hv, hvertex⟩ : ∃ v, s.all[i]? = some v ∧ v ∈ g'.vertices := by
      cases hk : n.isKeyed with
      | true =>
        have hi := Std.ExtTreeMap.getElem?_eq_some_getElem ((hlookup.mem_iff hnode).2 hk)
        exact ⟨_, h.all_keyed hi, hlookup.vertex h.gains.wellFormed hi⟩
      | false =>
        obtain ⟨v, m, hv, hm, hholds⟩ := hsolves.placed i (h.mem_pending_iff.2 ⟨n, hnode, hk⟩)
        exact ⟨v, hv, hf.vertex_of_identityHolds hm hholds⟩
    have hsaid : n.written v ⊆ g'.facts := fun x hx => h.nodesWritten_left ⟨n, i, v, hn, hv, hx⟩
    refine ⟨v, hv, hvertex, fun entry hi => ?_, fun hk => ?_, fun entry hentry => ?_,
      fun y hy => ?_, fun y hy => ?_⟩
    · obtain ⟨w, hw, hi⟩ := hlookup.found n i entry hn hi
      cases hv.symm.trans (h.all_keyed hi)
      exact hw
    · obtain ⟨w, m, hw, hm, hholds⟩ := hsolves.placed i (h.mem_pending_iff.2 ⟨n, hnode, hk⟩)
      cases hv.symm.trans hw
      cases hnode.symm.trans hm
      exact hholds
    · exact Graph.property_mem_facts.1 (hsaid (.inl ⟨entry, hentry, rfl⟩))
    · exact Graph.property_mem_facts.1 (hsaid (.inr (.inl ⟨y, hy, rfl⟩)))
    · exact (h.gains.wellFormed.lookupValue y.entry v).2
        (Graph.indexed_mem_facts.1 (hsaid (.inr (.inr ⟨y, hy, rfl⟩))))
  edges y hy := by
    obtain ⟨v, w, e, hv, hw, he⟩ := h.connects y hy
    refine ⟨v, w, e, hv, hw, he, fun entry hentry => Graph.edgeProperty_mem_facts.1 ?_⟩
    exact h.edgesWritten_left ⟨y, hy, v, w, e, hv, hw, he, .inr ⟨entry, hentry, rfl⟩⟩

end Left

/-- A second merge of the fragment creates nothing and leaves the graph as it is. -/
theorem again (h : f.Passes g s report g') (h' : f.Passes g' s' report' g'') (hf : f.Coherent) :
    report' = {} ∧ g'' = g' := by
  have hfound : s'.found = g' := by
    obtain ⟨X, hX, hold⟩ := h'.found
    exact hX.same (by simp [hold _ h.looksUp_left])
  have hkeyed : s'.keyed = s.keyed := h'.looksUp.unique (hfound ▸ h.looksUp_left)
  have hsolve : f.solve s'.found s'.keyed = some s.all := by
    rw [hfound, hkeyed]
    exact h.solve_eq hf
  have hall : s'.all = s.all := h'.all_eq_found hsolve
  have hcompleted : s'.completed = g' := (h'.completed_eq_found hsolve).trans hfound
  have hfilled : s'.filled = g' := by
    refine (h'.filled.same ?_).trans hcompleted
    rw [hall, hcompleted]
    exact h.nodesWritten_left
  have hsame : g'' = g' := by
    refine (h'.connected.same ?_).trans hfilled
    rw [hall, hfilled, edgesWritten_gains h.connects h.gains.wellFormed (hfound ▸ h'.gains)]
    exact h.edgesWritten_left
  obtain ⟨X, hX⟩ := h'.counts
  have hvertices := hX.vertexCount
  have hedges := hX.edgeCount
  rw [hsame] at hvertices hedges
  refine ⟨?_, hsame⟩
  rw [MergeReport.mk.injEq]
  omega

end Passes

/-- A merge into a well-formed graph keeps all that is there and leaves the whole fragment where the
lookup and the search find it, and a second merge does nothing. -/
theorem Coherent.mergeInto_again (hf : f.Coherent) (hg : g.WellFormed) :
    Yields f.mergeInto g fun _ g' => g.Keeps g' ∧
      (∃ keyed a, f.lookupKeyed? g' = some keyed ∧ LooksUp f.nodes.zipIdx g' keyed ∧
        f.solve g' keyed = some a ∧ f.Embeds g' a) ∧
      Yields f.mergeInto g' fun y g'' => y.1 = {} ∧ g'' = g' := by
  refine (mergeInto_passes hf hg).mono ?_
  rintro x g' ⟨s, h⟩
  refine ⟨h.keeps hg, ⟨s.keyed, s.all, lookupKeyed?_of_looksUp h.looksUp_left, h.looksUp_left,
    h.solve_eq hf, h.embeds hf⟩, (mergeInto_passes hf h.gains.wellFormed).mono ?_⟩
  rintro y g'' ⟨s', h'⟩
  exact h.again h' hf

end Fragment

end QuadStore
