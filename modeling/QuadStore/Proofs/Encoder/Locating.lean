import Mathlib
import QuadStore.Proofs.Encoder.Adding
import QuadStore.Proofs.Fragment.Locating
/-!
# Locating a statement

A statement is located in the graph of a dataset if its triple is stored, and then where the parts
of the triple are. Without a middle vertex it is also located where only the resources of the triple
are.
-/

namespace QuadStore

namespace Encoder

namespace Sketches

variable {e : Encoder} {t : Triple} {C A : UriSet} {f : Fragment} {parts : List Part}
  {M : Dataset} {R : Set Resource} {g : Graph} {P : Placement Part} {a a' : Assignment}

theorem required_iff (h : e.Sketches t C f parts) {F : Facts Part} :
    Fragment.Required f.nodes.zipIdx (role t parts) F ↔ .vertex (.resource t.subject) ∈ F ∧
      ∀ r, t.object = .resource r → .vertex (.resource r) ∈ F := by
  have honly : ∀ {i : Nat} {n : Node} {r : Resource}, f.nodes[i]? = some n →
      role t parts i = .resource r →
        (n.optional = false ↔ r = t.subject ∨ t.object = .resource r) := by
    intro i n r hn hr
    rw [← Bool.not_eq_true, (h.standsFor hn).optional, hr]
    simp only [Triple.OnlyContext, Part.resource.injEq, exists_eq_left']
    tauto
  constructor
  · intro hrequired
    have hpresent : ∀ r, e.Needs t C (.resource r) → (r = t.subject ∨ t.object = .resource r) →
        .vertex (.resource r) ∈ F := by
      intro r hneeds hr
      obtain ⟨i, n, hn, hrole⟩ := h.player hneeds
      rw [← hrole]
      exact hrequired n i (List.mem_zipIdx_iff_getElem?.2 hn) ((h.isKeyed_iff hn).2 ⟨r, hrole⟩)
        ((honly hn hrole).2 hr)
    exact ⟨hpresent _ .subject (.inl rfl), fun r hr => hpresent r (.object hr) (.inr hr)⟩
  · rintro ⟨hsubject, hobject⟩ n i hmem hk hoptional
    have hn := List.mem_zipIdx_iff_getElem?.1 hmem
    obtain ⟨r, hrole⟩ := (h.isKeyed_iff hn).1 hk
    rw [hrole]
    rcases (honly hn hrole).1 hoptional with rfl | hr
    · exact hsubject
    · exact hobject r hr

theorem lookupKeyed_seats (h : e.Sketches t C f parts) (hv : e.vocabulary.Valid)
    (hg : g.Shows P (e.imageWith M R)) (ha : f.lookupKeyed? g = some a) :
    f.Seats (role t parts) P (e.imageWith M R) a ∧
      Fragment.Required f.nodes.zipIdx (role t parts) (e.imageWith M R) := by
  obtain ⟨hrequired, hassigned⟩ := Fragment.foldlM_lookupNode hg settled hv.keyedOnce
    (fun n i hmem => h.casts.identity i n (List.mem_zipIdx_iff_getElem?.1 hmem)) ha
  refine ⟨fun i v => ?_, hrequired⟩
  constructor
  · intro hi
    by_cases hpresent : Fragment.Present f.nodes.zipIdx (role t parts) (e.imageWith M R) i
    · rw [(hassigned i).1 hpresent] at hi
      obtain ⟨n, hmem, hk, hvertex⟩ := hpresent
      exact ⟨n, List.mem_zipIdx_iff_getElem?.1 hmem, hk, hvertex, Option.some.inj hi⟩
    · rw [(hassigned i).2 hpresent] at hi
      simp at hi
  · rintro ⟨n, hn, hk, hvertex, rfl⟩
    exact (hassigned i).1 ⟨n, List.mem_zipIdx_iff_getElem?.2 hn, hk, hvertex⟩

/-- Whatever completes the vertices of the keyed nodes are the parts of the statement, and a middle
vertex is there for a stored triple only. -/
theorem solves_placed (h : e.Sketches t C f parts) (hv : e.vocabulary.Valid)
    (hg : g.Shows P (e.imageWith M R)) (ha : f.lookupKeyed? g = some a)
    (hsolves : f.Solves g (f.pending a) a a') :
    f.Placed (role t parts) P (e.imageWith M R) a' ∧
      .vertex (.resource t.subject) ∈ e.imageWith M R ∧
      ∀ m, e.middle? t = some m → ∃ A, M[t]? = some A := by
  obtain ⟨hseats, hrequired⟩ := h.lookupKeyed_seats hv hg ha
  obtain ⟨hsubject, hobject⟩ := h.required_iff.1 hrequired
  have hplaced : (∀ (i : Nat) (v : VertexId), i < f.nodes.length →
      (∀ r, role t parts i ≠ .resource r) → (a'[i]? = some v ↔
        .vertex (role t parts i) ∈ e.imageWith M R ∧ P.vertex (role t parts i) = v)) →
      f.Placed (role t parts) P (e.imageWith M R) a' := by
    intro hunkeyed i v
    by_cases hi : i < f.nodes.length
    · by_cases hkeyed : ∃ r, role t parts i = .resource r
      · obtain ⟨r, hr⟩ := hkeyed
        have hn := List.getElem?_eq_getElem hi
        have hk := (h.isKeyed_iff hn).2 ⟨r, hr⟩
        rw [hsolves.extends_ i fun hmem => ((h.mem_pending hseats).1 hmem).2 r hr, hseats]
        constructor
        · rintro ⟨-, -, -, hvertex, hv⟩
          exact ⟨hi, hvertex, hv⟩
        · rintro ⟨-, hvertex, hv⟩
          exact ⟨_, hn, hk, hvertex, hv⟩
      · push Not at hkeyed
        rw [hunkeyed i v hi hkeyed]
        exact ⟨fun hv => ⟨hi, hv⟩, fun hv => hv.2⟩
    · rw [hsolves.extends_ i fun hmem => hi ((h.mem_pending hseats).1 hmem).1, hseats]
      constructor
      · rintro ⟨n, hn, -⟩
        exact absurd (List.getElem?_eq_some_iff.1 hn).1 hi
      · exact fun hv => absurd hv.1 hi
  cases hm : e.middle? t with
  | none =>
    refine ⟨hplaced fun i v hi hne => ?_, hsubject, fun m hm => by cases hm⟩
    have hn := List.getElem?_eq_getElem hi
    obtain ⟨r, hr⟩ := (h.isKeyed_iff hn).1 (h.keyed_of_direct hm hn)
    exact absurd hr (hne r)
  | some m =>
    obtain ⟨hmiddle, hfound⟩ :=
      h.solved (legible_imageWith hv) hv hg hseats hsubject hobject hm hsolves
    refine ⟨hplaced fun i v hi hne => ?_, hsubject, fun _ _ => ?_⟩
    · have hvertex := (unkeyed_vertex_iff (legible_imageWith hv) hm (h.needs_role hi) hne).2 hmiddle
      rw [hfound i ((h.mem_pending hseats).2 ⟨hi, hne⟩), Option.some.injEq]
      exact ⟨fun hv => ⟨hvertex, hv⟩, fun hv => hv.2⟩
    · exact stored_of_vertex hmiddle (triple_of_middle hm)

/-- Where a statement is located its parts are, and a middle vertex is there for a stored triple
only. -/
theorem locate_placed (h : e.Sketches t C f parts) (hv : e.vocabulary.Valid)
    (hg : g.Shows P (e.imageWith M R)) (hlocate : f.locate? g = some a') :
    f.Placed (role t parts) P (e.imageWith M R) a' ∧
      .vertex (.resource t.subject) ∈ e.imageWith M R ∧
      ∀ m, e.middle? t = some m → ∃ A, M[t]? = some A := by
  obtain ⟨a, ha, hsolve⟩ := Option.bind_eq_some_iff.1 hlocate
  exact h.solves_placed hv hg ha (Fragment.solve_eq_some hsolve)

/-- A stored triple is located, whichever graphs the statement names. -/
theorem locate_stored (h : e.Sketches t C f parts) (hv : e.vocabulary.Valid)
    (hg : g.Shows P (e.imageWith M R)) (hA : M[t]? = some A) : ∃ a, f.locate? g = some a := by
  have hstored : ∀ {p : Part}, e.Needs t A p → .vertex p ∈ e.imageWith M R := fun hp =>
    .inl ⟨t, A, hA, depicts_vertex.2 hp⟩
  obtain ⟨a, ha⟩ := Fragment.foldlM_lookupNode_ne_none (a := ∅) hg settled hv.keyedOnce
    (fun n i hmem => h.casts.identity i n (List.mem_zipIdx_iff_getElem?.1 hmem))
    (h.required_iff.2 ⟨hstored .subject, fun r hr => hstored (.object hr)⟩)
  have hlookup : f.lookupKeyed? g = some a := ha
  obtain ⟨hseats, -⟩ := h.lookupKeyed_seats hv hg hlookup
  have hsolve : ∃ a', f.solve g a = some a' := by
    cases hm : e.middle? t with
    | none => exact ⟨a, h.solve_direct hm⟩
    | some m => exact h.solve_stored (legible_imageWith hv) hv hg hseats hm (hstored (.middle hm))
  obtain ⟨a', ha'⟩ := hsolve
  exact ⟨a', Option.bind_eq_some_iff.2 ⟨a, hlookup, ha'⟩⟩

end Sketches

end Encoder

end QuadStore
