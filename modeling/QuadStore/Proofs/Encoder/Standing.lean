import Mathlib
import QuadStore.Proofs.Encoder.Locating
import QuadStore.Proofs.Fragment.FirstMatch
/-!
# What stands for a stored triple

In the graph of a dataset the nodes and edges of a stored triple's fragment stand for one vertex and
one edge each, and which these are is told by the placement alone.
-/

namespace QuadStore

namespace Graph

/-- There is just one such edge between two vertices. -/
def OnlyEdge (g : Graph) (v : VertexId) (label : String) (w : VertexId) (d : EdgeId) : Prop :=
  ∀ c : EdgeId, (∃ x, g.edges[c]? = some x ∧ x.source = v ∧ x.label = label ∧ x.target = w) ↔ c = d

theorem Shows.onlyEdge {ν : Type} {g : Graph} {P : Placement ν} {F : Facts ν} {b : Bond ν}
    (h : g.Shows P F) (hb : .bond b ∈ F) :
    g.OnlyEdge (P.vertex b.source) b.label (P.vertex b.target) (P.edge b) := by
  obtain ⟨-, hsource, htarget⟩ := h.grounded _ hb
  intro c
  constructor
  · rintro ⟨x, hx, hs, hl, ht⟩
    obtain ⟨d, hd, rfl, hds, hdl, hdt⟩ := h.bond_of_edge hx
    rw [h.bond_eq hd hsource htarget (hds.trans hs) (hdl.trans hl) (hdt.trans ht)]
  · rintro rfl
    exact h.edge_of_bond hb

end Graph

namespace Fragment

/-- These vertices, and no others, are what the nodes of the fragment stand for. -/
structure Stands (f : Fragment) (g : Graph) (a : Assignment) : Prop where
  located : f.locate? g = some a
  only : ∀ keyed b, f.lookupKeyed? g = some keyed → f.Matches g keyed b → b = a

theorem Placed.unique {ν : Type} {f : Fragment} {role : Nat → ν} {P : Placement ν} {F : Facts ν}
    {a b : Assignment} (ha : f.Placed role P F a) (hb : f.Placed role P F b) : a = b := by
  refine Std.ExtTreeMap.ext_getElem? fun i => Option.ext fun v => ?_
  rw [ha, hb]

end Fragment

namespace Encoder

variable {e : Encoder} {t : Triple} {C A : UriSet} {f : Fragment} {parts : List Part} {M : Dataset}
  {g : Graph} {P : Placement Part} {r : Resource}

/-- The key of a resource leads to its vertex. -/
theorem lookup?_resource (hg : g.Shows P (e.image M)) (hr : .vertex (.resource r) ∈ e.image M) :
    g.lookup? (e.vocabulary.resourceEntry r) = some (P.vertex (.resource r)) := by
  obtain ⟨t, A, hA, hdepicts⟩ := hr
  have hkey : e.Depicts t A (.key (.resource r) (e.vocabulary.resourceEntry r)) :=
    depicts_key.2 ⟨depicts_vertex.1 hdepicts, rfl⟩
  exact hg.lookup?_eq_some.2 ⟨_, ⟨t, A, hA, hkey⟩, rfl⟩

/-- What is said of a triple in no named graph is said of it in any. -/
theorem depiction_subset_image (hA : M[t]? = some A) : e.depiction t ∅ ⊆ e.image M :=
  fun _ hx => ⟨t, A, hA, Depicts.mono hx (by simp)⟩

namespace Sketches

/-- The parts of a stored triple are what its fragment stands for. -/
theorem exists_stands (h : e.Sketches t C f parts) (hv : e.vocabulary.Valid)
    (hg : g.Shows P (e.image M)) (hA : M[t]? = some A) :
    ∃ a, f.Stands g a ∧ f.Placed (role t parts) P (e.image M) a := by
  rw [← imageWith_empty] at hg ⊢
  obtain ⟨a, ha⟩ := h.locate_stored hv hg hA
  have hplaced := (h.locate_placed hv hg ha).1
  refine ⟨a, ⟨ha, fun keyed b hkeyed hb => ?_⟩, hplaced⟩
  exact (h.solves_placed hv hg hkeyed hb.solves).1.unique hplaced

/-- The vertices and edges of what is said in no named graph. -/
theorem role_mem (h : e.Sketches t ∅ f parts) {i : Nat} (hi : i < f.nodes.length) :
    .vertex (role t parts i) ∈ e.depiction t ∅ :=
  depicts_vertex.2 (h.needs_role hi)

theorem bond_mem (h : e.Sketches t C f parts) {y : FragmentEdge} (hy : y ∈ f.edges) :
    .bond (y.bond (role t parts)) ∈ e.depiction t C := by
  have hstroke : Fragment.stroke (role t parts) y ∈ e.strokesOf t C := by
    rw [← h.draws.strokes]
    exact List.mem_map_of_mem hy
  exact Depicts.of_stroke hstroke (.inl rfl)

/-- A placement that extends another leaves a stored triple where it was. -/
theorem stands_extends {N : Dataset} {B : UriSet} {g' : Graph} {P' : Placement Part}
    (h : e.Sketches t ∅ f parts) (hv : e.vocabulary.Valid) (hg : g.Shows P (e.image M))
    (hg' : g'.Shows P' (e.image N)) (hA : M[t]? = some A) (hB : N[t]? = some B)
    (hP : P'.Extends P (e.depiction t ∅)) :
    ∃ a, f.Stands g a ∧ f.Stands g' a ∧ ∀ y ∈ f.edges, ∃ v w d, a[y.source]? = some v ∧
      a[y.target]? = some w ∧ g.OnlyEdge v y.label w d ∧ g'.OnlyEdge v y.label w d := by
  obtain ⟨a, hstands, hplaced⟩ := h.exists_stands hv hg hA
  obtain ⟨a', hstands', hplaced'⟩ := h.exists_stands hv hg' hB
  have hsub := depiction_subset_image (e := e) hA
  have hsub' := depiction_subset_image (e := e) hB
  have heq : a' = a := by
    refine Std.ExtTreeMap.ext_getElem? fun i => Option.ext fun v => ?_
    rw [hplaced, hplaced']
    refine and_congr_right fun hi => ?_
    rw [hP.vertex _ (h.role_mem hi), and_iff_right (hsub (h.role_mem hi)),
      and_iff_right (hsub' (h.role_mem hi))]
  subst heq
  refine ⟨a', hstands, hstands', fun y hy => ?_⟩
  obtain ⟨hs, ht⟩ := h.draws.ends y hy
  have hbond := h.bond_mem hy
  refine ⟨_, _, P.edge (y.bond (role t parts)), (hplaced _ _).2 ⟨hs, hsub (h.role_mem hs), rfl⟩,
    (hplaced _ _).2 ⟨ht, hsub (h.role_mem ht), rfl⟩, hg.onlyEdge (hsub hbond), ?_⟩
  have honly : g'.OnlyEdge (P'.vertex (role t parts y.source)) y.label
      (P'.vertex (role t parts y.target)) (P'.edge (y.bond (role t parts))) :=
    hg'.onlyEdge (hsub' hbond)
  rwa [hP.vertex _ (h.role_mem hs), hP.vertex _ (h.role_mem ht), hP.edge _ hbond] at honly

end Sketches

end Encoder

end QuadStore
