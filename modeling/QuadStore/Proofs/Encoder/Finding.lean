import Mathlib
import QuadStore.Proofs.Encoder.Casting
import QuadStore.Proofs.Encoder.Shapes
/-!
# Finding a statement in a graph

The unkeyed nodes of a statement's fragment are found in a graph that can be read exactly when the
middle vertex of the triple is there, and then where the parts of the triple are.
-/

namespace QuadStore

namespace Graph

/-- Edges from a vertex are the bonds of its name. -/
theorem Shows.hasEdge_iff {ν : Type} {g : Graph} {P : Placement ν} {F : Facts ν} {p : ν}
    {label : String} {w : VertexId} (h : g.Shows P F) (hp : .vertex p ∈ F) :
    Fragment.hasEdge g (P.vertex p) label w ↔ ∃ q, .bond ⟨p, label, q⟩ ∈ F ∧ P.vertex q = w := by
  rw [Fragment.hasEdge_iff]
  constructor
  · rintro ⟨d, x, hx, hs, hl, ht⟩
    obtain ⟨b, hb, -, hbs, hbl, hbt⟩ := h.bond_of_edge hx
    obtain ⟨-, hsource, -⟩ := h.grounded _ hb
    have hsame := h.injective _ _ hsource hp (hbs.trans hs)
    refine ⟨b.target, ?_, hbt.trans ht⟩
    rwa [← hsame, ← hl, ← hbl]
  · rintro ⟨q, hb, rfl⟩
    obtain ⟨x, hx, hs, hl, ht⟩ := h.edge_of_bond hb
    exact ⟨_, x, hx, hs, hl, ht⟩

end Graph

namespace Fragment

/-- The keyed nodes, and no others, are assigned the vertices of their roles as far as these are
there. -/
def Seats {ν : Type} (f : Fragment) (role : Nat → ν) (P : Placement ν) (F : Facts ν)
    (a : Assignment) : Prop :=
  ∀ (i : Nat) (v : VertexId), a[i]? = some v ↔
    ∃ n, f.nodes[i]? = some n ∧ n.isKeyed ∧ .vertex (role i) ∈ F ∧ P.vertex (role i) = v

end Fragment

namespace Encoder

namespace Sketches

variable {e : Encoder} {t : Triple} {C : UriSet} {f : Fragment} {parts : List Part} {i : Nat}
  {n : Node} {m o p : Part} {x : FragmentEdge}

theorem isKeyed_iff (h : e.Sketches t C f parts) (hn : f.nodes[i]? = some n) :
    n.isKeyed ↔ ∃ r, role t parts i = .resource r := by
  rw [Node.isKeyed, (h.standsFor hn).identity]
  cases role t parts i <;> simp [Vocabulary.identity, Identity.entry?]

/-! ## Structural edges -/

theorem structural (h : e.Sketches t C f parts) (hx : x ∈ f.edges) (hkind : x.kind = .structural) :
    ∃ m, e.middle? t = some m ∧ (x.bond (role t parts) = ⟨.resource t.subject, t.predicate.text, m⟩ ∨
      ∃ o, e.target? t = some o ∧ x.bond (role t parts) = ⟨m, t.predicate.text, o⟩) := by
  have hmem : Fragment.stroke (role t parts) x ∈ e.strokesOf t C := by
    rw [← h.draws.strokes]
    exact List.mem_map_of_mem hx
  have hstroke : (Fragment.stroke (role t parts) x).kind = .structural := hkind
  have hthrough : Fragment.stroke (role t parts) x ∈ e.throughStrokes t C := by
    unfold strokesOf at hmem
    split at hmem
    · rw [List.mem_singleton] at hmem
      rw [hmem] at hstroke
      cases hstroke
    · cases hmem
    · obtain hmem | hmem := List.mem_append.1 hmem
      · exact hmem
      · obtain ⟨c, -, hc⟩ := List.mem_map.1 hmem
        rw [← hc] at hstroke
        cases hstroke
    · exact hmem
  simp only [throughStrokes, List.mem_flatMap, Option.mem_toList, List.mem_cons,
    List.mem_map] at hthrough
  obtain ⟨m, hm, heq | ⟨o, ho, heq⟩⟩ := hthrough
  · exact ⟨m, hm, .inl (congrArg Stroke.bond heq)⟩
  · exact ⟨m, hm, .inr ⟨o, ho, (congrArg Stroke.bond heq).symm⟩⟩

theorem edge_of_stroke (h : e.Sketches t C f parts) {s : Stroke} (hs : s ∈ e.strokesOf t C) :
    ∃ x ∈ f.edges, x.bond (role t parts) = s.bond ∧ x.kind = s.kind := by
  rw [← h.draws.strokes] at hs
  obtain ⟨x, hx, rfl⟩ := List.mem_map.1 hs
  exact ⟨x, hx, rfl, rfl⟩

theorem entering_edge (h : e.Sketches t C f parts) (hm : e.middle? t = some m) :
    ∃ x ∈ f.edges, x.bond (role t parts) = ⟨.resource t.subject, t.predicate.text, m⟩ ∧
      x.kind = .structural :=
  h.edge_of_stroke (throughStrokes_subset (entering_mem hm))

theorem leaving_edge (h : e.Sketches t C f parts) (hm : e.middle? t = some m)
    (ho : e.target? t = some o) :
    ∃ x ∈ f.edges, x.bond (role t parts) = ⟨m, t.predicate.text, o⟩ ∧ x.kind = .structural :=
  h.edge_of_stroke (throughStrokes_subset (leaving_mem hm ho))

/-! ## Where unkeyed nodes are found -/

section Found

variable {F : Facts Part} {g : Graph} {P : Placement Part} {a a' : Assignment}
  {j : Nat}

theorem bond_label (hbond : x.bond (role t parts) = ⟨m, t.predicate.text, o⟩) :
    role t parts x.source = m ∧ x.label = t.predicate.text ∧ role t parts x.target = o := by
  rw [FragmentEdge.bond, Bond.mk.injEq] at hbond
  exact hbond

theorem mem_pending (h : e.Sketches t C f parts)
    (ha : f.Seats (role t parts) P F a) :
    i ∈ f.pending a ↔ i < f.nodes.length ∧ ∀ r, role t parts i ≠ .resource r := by
  rw [Fragment.mem_pending]
  constructor
  · rintro ⟨⟨n, hn, hk⟩, -⟩
    refine ⟨(List.getElem?_eq_some_iff.1 hn).1, fun r hr => ?_⟩
    rw [(h.isKeyed_iff hn).2 ⟨r, hr⟩] at hk
    cases hk
  · rintro ⟨hi, hne⟩
    have hn := List.getElem?_eq_getElem hi
    have hk : ¬f.nodes[i].isKeyed := fun hk => by
      obtain ⟨r, hr⟩ := (h.isKeyed_iff hn).1 hk
      exact hne r hr
    refine ⟨⟨_, hn, by simpa using hk⟩, fun hmem => ?_⟩
    obtain ⟨v, hv⟩ := Option.isSome_iff_exists.1 (Std.ExtTreeMap.mem_iff_isSome_getElem?.1 hmem)
    obtain ⟨n, hn', hk', -⟩ := (ha i v).1 hv
    rw [hn] at hn'
    cases hn'
    exact hk hk'

/-- A keyed node keeps the vertex of its resource. -/
theorem keyed_solved (h : e.Sketches t C f parts)
    (ha : f.Seats (role t parts) P F a) (hsolves : f.Solves g (f.pending a) a a')
    {r : Resource} (hi : i < f.nodes.length) (hr : role t parts i = .resource r)
    (hvertex : .vertex (.resource r) ∈ F) :
    a'[i]? = some (P.vertex (.resource r)) := by
  rw [hsolves.extends_ i fun hmem => ((h.mem_pending ha).1 hmem).2 r hr, ha]
  have hn := List.getElem?_eq_getElem hi
  exact ⟨_, hn, (h.isKeyed_iff hn).2 ⟨r, hr⟩, hr ▸ hvertex, hr ▸ rfl⟩

/-- An unkeyed node is at a vertex of its shape. -/
theorem unkeyed_solved (h : e.Sketches t C f parts) (hF : Legible e.vocabulary F)
    (hv : e.vocabulary.Valid)
    (hg : g.Shows P F) (hsolves : f.Solves g (f.pending a) a a')
    (hi : i ∈ f.pending a) (hne : ∀ r, role t parts i ≠ .resource r) {v : VertexId}
    (hw : a'[i]? = some v) {q : Part} (hq : .vertex q ∈ F) (hqv : P.vertex q = v) :
    q.shape = (role t parts i).shape := by
  obtain ⟨w, n, hw', hn, hholds⟩ := hsolves.placed i hi
  rw [hw] at hw'
  cases hw'
  cases hshape : (role t parts i).shape with
  | none =>
    obtain ⟨r, hr⟩ := Part.shape_eq_none.1 hshape
    exact absurd hr (hne r)
  | some y =>
    rw [(h.standsFor hn).identity, ← hqv, hF.identityHolds_iff hv hg hq hshape] at hholds
    exact hholds.trans hshape

/-- The node of the target is found at the target of the triple whose middle vertex was found. -/
theorem target_found (h : e.Sketches t C f parts) (hF : Legible e.vocabulary F)
    (hv : e.vocabulary.Valid)
    (hg : g.Shows P F) (ha : f.Seats (role t parts) P F a)
    (hsolves : f.Solves g (f.pending a) a a')
    (hpresent : ∀ r, t.object = .resource r → .vertex (.resource r) ∈ F)
    (hm : e.middle? t = some m) (ho : e.target? t = some o) {k : Nat} (hk : k < f.nodes.length)
    (hmk : role t parts k = m) {q : Part} {u : Triple} (hu : q.middleOf? = some u)
    (hq : .vertex q ∈ F) (hqk : a'[k]? = some (P.vertex q)) :
    ∃ o', q.onward? = some o' ∧ (∀ j < f.nodes.length, role t parts j = o →
        a'[j]? = some (P.vertex o')) ∧ (o' = o ∨ o.shape ≠ none ∧ o'.shape = o.shape) := by
  obtain ⟨x, hx, hbond, hkind⟩ := h.leaving_edge hm ho
  obtain ⟨hsource, hlabel, htarget⟩ := bond_label hbond
  obtain ⟨hslt, htlt⟩ := h.draws.ends x hx
  obtain rfl : x.source = k := h.casts.injective _ _ hslt hk (hsource.trans hmk.symm)
  have hpending : x.source ∈ f.pending a :=
    (h.mem_pending ha).2 ⟨hslt, fun r hr => middle_ne_resource hm (hsource.symm.trans hr)⟩
  have honly : ∀ j < f.nodes.length, role t parts j = o → j = x.target := fun j hj hrole =>
    h.casts.injective _ _ hj htlt (hrole.trans htarget.symm)
  cases hshape : o.shape with
  | none =>
    obtain ⟨r, rfl⟩ := Part.shape_eq_none.1 hshape
    have hobject : t.object = .resource r := by
      obtain ⟨r', hr', heq⟩ | ⟨l, -, heq⟩ := target_eq ho
      · rw [hr', Part.resource.inj heq]
      · cases heq
    have hplaced := h.keyed_solved ha hsolves htlt htarget (hpresent r hobject)
    have hedge := hsolves.hasEdge hx hkind (.inl hpending) hqk hplaced
    rw [hlabel, hg.hasEdge_iff hq] at hedge
    obtain ⟨q', hb, hq'⟩ := hedge
    obtain ⟨-, -, hq'mem⟩ := hg.grounded _ hb
    obtain rfl := hg.injective _ _ hq'mem (hpresent r hobject) hq'
    refine ⟨_, (hF.leaving_tells hv hu hb).2, fun j hj hrole => ?_, .inl rfl⟩
    rw [honly j hj hrole, hplaced]
  | some y =>
    have hne : ∀ r, role t parts x.target ≠ .resource r := by
      rintro r hr
      rw [← htarget, hr] at hshape
      cases hshape
    have htpending : x.target ∈ f.pending a := (h.mem_pending ha).2 ⟨htlt, hne⟩
    obtain ⟨w, n, hw, -, -⟩ := hsolves.placed _ htpending
    have hedge := hsolves.hasEdge hx hkind (.inl hpending) hqk hw
    rw [hlabel, hg.hasEdge_iff hq] at hedge
    obtain ⟨q', hb, rfl⟩ := hedge
    obtain ⟨-, -, hq'mem⟩ := hg.grounded _ hb
    have hsame := h.unkeyed_solved hF hv hg hsolves htpending hne hw hq'mem rfl
    refine ⟨q', (hF.leaving_tells hv hu hb).2, fun j hj hrole => ?_, .inr ⟨by simp, ?_⟩⟩
    · rw [honly j hj hrole, hw]
    · rw [hsame, htarget, hshape]

/-- Whatever solves the constraints are the vertices of the triple's parts, and the middle vertex is
there. -/
theorem solved (h : e.Sketches t C f parts) (hF : Legible e.vocabulary F)
    (hv : e.vocabulary.Valid) (hg : g.Shows P F) (ha : f.Seats (role t parts) P F a)
    (hsubject : .vertex (.resource t.subject) ∈ F)
    (hpresent : ∀ r, t.object = .resource r → .vertex (.resource r) ∈ F)
    (hm : e.middle? t = some m) (hsolves : f.Solves g (f.pending a) a a') :
    .vertex m ∈ F ∧ ∀ i ∈ f.pending a, a'[i]? = some (P.vertex (role t parts i)) := by
  obtain ⟨x, hx, hbond, hkind⟩ := h.entering_edge hm
  obtain ⟨hsource, hlabel, htarget⟩ := bond_label hbond
  obtain ⟨hslt, htlt⟩ := h.draws.ends x hx
  have hne : ∀ r, role t parts x.target ≠ .resource r := fun r hr =>
    middle_ne_resource hm (htarget.symm.trans hr)
  have hpending : x.target ∈ f.pending a := (h.mem_pending ha).2 ⟨htlt, hne⟩
  obtain ⟨w, n, hw, -, -⟩ := hsolves.placed _ hpending
  have hplaced := h.keyed_solved ha hsolves hslt hsource hsubject
  have hedge := hsolves.hasEdge hx hkind (.inr hpending) hplaced hw
  rw [hlabel, hg.hasEdge_iff hsubject] at hedge
  obtain ⟨q, hb, rfl⟩ := hedge
  obtain ⟨-, -, hq⟩ := hg.grounded _ hb
  have hshape := h.unkeyed_solved hF hv hg hsolves hpending hne hw hq rfl
  rw [htarget] at hshape
  have hunkeyed : q.shape ≠ none := by
    rw [hshape]
    intro hnone
    obtain ⟨r, rfl⟩ := Part.shape_eq_none.1 hnone
    exact middle_ne_resource hm rfl
  obtain ⟨u, hu, hus, hup⟩ := hF.entering_tells hv hb hunkeyed
  have htargets := fun o (ho : e.target? t = some o) =>
    h.target_found hF hv hg ha hsolves hpresent hm ho htlt htarget hu hq hw
  obtain rfl : q = m := middle_unique hm hu hus hup hshape fun o ho => by
    obtain ⟨o', ho', -, hsame⟩ := htargets o ((target_of_middle hm).trans ho)
    exact ⟨o', ho', hsame⟩
  refine ⟨hq, fun i hi => ?_⟩
  obtain ⟨hlt, hnot⟩ := (h.mem_pending ha).1 hi
  obtain heq | heq := unkeyed_needs (h.needs_role hlt) hnot
  · obtain heq := Option.some.inj (heq.symm.trans hm)
    rw [h.casts.injective _ _ hlt htlt (heq.trans htarget.symm), hw, htarget]
  · obtain ⟨o', ho', hfound, -⟩ := htargets _ heq
    rw [hfound i hlt rfl, Option.some.inj ((ho'.symm.trans (target_of_middle hm).symm).trans heq)]

/-- What the search finds are the vertices of the triple's parts, and the middle vertex is there. -/
theorem found (h : e.Sketches t C f parts) (hF : Legible e.vocabulary F)
    (hv : e.vocabulary.Valid) (hg : g.Shows P F) (ha : f.Seats (role t parts) P F a)
    (hsubject : .vertex (.resource t.subject) ∈ F)
    (hpresent : ∀ r, t.object = .resource r → .vertex (.resource r) ∈ F)
    (hm : e.middle? t = some m) (hsolve : f.solve g a = some a') :
    .vertex m ∈ F ∧ ∀ i ∈ f.pending a, a'[i]? = some (P.vertex (role t parts i)) :=
  h.solved hF hv hg ha hsubject hpresent hm (Fragment.solve_eq_some hsolve)

/-- A link is seen from the node that an edge leads to. -/
theorem link_of_edge (hx : x ∈ f.edges) (hkind : x.kind = .structural) (hne : x.source ≠ x.target) :
    (⟨x.label, x.source, false⟩ : Fragment.Link) ∈ f.links x.target :=
  Fragment.mem_links.2 ⟨x, hx, by simp [Fragment.link?, hkind, hne]⟩

/-- The middle vertex is next to the subject, and its target is next to it. -/
theorem anchored_of_pending (h : e.Sketches t C f parts)
    (hpending : ∀ i, i ∈ f.pending a ↔ i < f.nodes.length ∧ ∀ r, role t parts i ≠ .resource r)
    (hsubject : ∀ i < f.nodes.length, role t parts i = .resource t.subject → i ∈ a)
    (hm : e.middle? t = some m) : f.Anchored a (f.pending a) := by
  obtain ⟨x, hx, hbond, hkind⟩ := h.entering_edge hm
  obtain ⟨hsource, -, htarget⟩ := bond_label hbond
  obtain ⟨hslt, htlt⟩ := h.draws.ends x hx
  have hmiddle : ∀ r, role t parts x.target ≠ .resource r := fun r hr =>
    middle_ne_resource hm (htarget.symm.trans hr)
  intro S hS hsub
  by_cases hin : x.target ∈ S
  · have hne : x.source ≠ x.target := fun heq => hmiddle _ (heq ▸ hsource)
    exact ⟨_, hin, _, link_of_edge hx hkind hne, .inl (hsubject _ hslt hsource)⟩
  · obtain ⟨i, hi⟩ := hS
    obtain ⟨hlt, hnot⟩ := (hpending i).1 (hsub i hi)
    have hother : ∀ p, p = role t parts i → e.middle? t ≠ some p := by
      rintro p rfl heq
      obtain heq := Option.some.inj (heq.symm.trans hm)
      exact hin (h.casts.injective _ _ htlt hlt (htarget.trans heq.symm) ▸ hi)
    obtain heq | ho := unkeyed_needs (h.needs_role hlt) hnot
    · exact absurd heq (hother _ rfl)
    · obtain ⟨y, hy, hbond', hkind'⟩ := h.leaving_edge hm ho
      obtain ⟨hsource', -, htarget'⟩ := bond_label hbond'
      obtain ⟨hslt', htlt'⟩ := h.draws.ends y hy
      have hfirst := h.casts.injective _ _ hslt' htlt (hsource'.trans htarget.symm)
      have hsecond := h.casts.injective _ _ htlt' hlt htarget'
      have hne : y.source ≠ y.target := fun heq => by
        rw [← hfirst, heq, hsecond] at hin
        exact hin hi
      have hlink := link_of_edge hy hkind' hne
      rw [hsecond] at hlink
      refine ⟨i, hi, _, hlink, .inr ⟨?_, ?_⟩⟩
      · rw [hfirst]
        exact (hpending _).2 ⟨htlt, hmiddle⟩
      · rw [hfirst]
        exact hin

theorem anchored (h : e.Sketches t C f parts)
    (ha : f.Seats (role t parts) P F a)
    (hsubject : .vertex (.resource t.subject) ∈ F) (hm : e.middle? t = some m) :
    f.Anchored a (f.pending a) := by
  refine h.anchored_of_pending (fun i => h.mem_pending ha) (fun i hlt hrole => ?_) hm
  have hn := List.getElem?_eq_getElem hlt
  have hassigned := (ha i _).2 ⟨_, hn, (h.isKeyed_iff hn).2 ⟨_, hrole⟩, hrole ▸ hsubject, rfl⟩
  exact Std.ExtTreeMap.mem_iff_isSome_getElem?.2 (by rw [hassigned]; rfl)

/-- With its middle vertex the edges and the unkeyed vertices of a triple are there. -/
theorem structural_mem (h : e.Sketches t C f parts) (hF : Legible e.vocabulary F)
    (hm : e.middle? t = some m) (hvertex : .vertex m ∈ F) (hx : x ∈ f.edges)
    (hkind : x.kind = .structural) : .bond (x.bond (role t parts)) ∈ F := by
  have hmiddle := middleOf_of_middle hm
  obtain ⟨m', hm', hb | ⟨o, ho, hb⟩⟩ := h.structural hx hkind
  all_goals
    obtain rfl := Option.some.inj (hm'.symm.trans hm)
    rw [hb]
  · exact hF.entering _ t hmiddle hvertex
  · exact hF.leaving _ t o hmiddle ((target_of_middle hm).symm.trans ho) hvertex

theorem pending_mem (h : e.Sketches t C f parts) (hF : Legible e.vocabulary F)
    (ha : f.Seats (role t parts) P F a) (hm : e.middle? t = some m) (hvertex : .vertex m ∈ F)
    (hi : i ∈ f.pending a) : .vertex (role t parts i) ∈ F := by
  obtain ⟨hlt, hnot⟩ := (h.mem_pending ha).1 hi
  exact (unkeyed_vertex_iff hF hm (h.needs_role hlt) hnot).2 hvertex

/-- A node that is assigned once the pending ones are is at the vertex of its role. -/
theorem role_of_fill (h : e.Sketches t C f parts) (hF : Legible e.vocabulary F)
    (ha : f.Seats (role t parts) P F a) (hm : e.middle? t = some m) (hvertex : .vertex m ∈ F)
    {w : VertexId} (hw : (Fragment.fill a (fun i => P.vertex (role t parts i))
      (f.pending a))[i]? = some w) :
    i < f.nodes.length ∧ .vertex (role t parts i) ∈ F ∧ P.vertex (role t parts i) = w := by
  rw [Fragment.getElem?_fill] at hw
  split at hw
  · rename_i hpending
    exact ⟨((h.mem_pending ha).1 hpending).1, h.pending_mem hF ha hm hvertex hpending,
      Option.some.inj hw⟩
  · obtain ⟨n, hn, -, hpresent, hw⟩ := (ha i w).1 hw
    exact ⟨(List.getElem?_eq_some_iff.1 hn).1, hpresent, hw⟩

/-- The parts of a triple whose middle vertex is there solve the constraints. -/
theorem solves_fill (h : e.Sketches t C f parts) (hF : Legible e.vocabulary F)
    (hv : e.vocabulary.Valid)
    (hg : g.Shows P F) (ha : f.Seats (role t parts) P F a)
    (hm : e.middle? t = some m) (hvertex : .vertex m ∈ F) :
    f.Solves g (f.pending a) a
      (Fragment.fill a (fun i => P.vertex (role t parts i)) (f.pending a)) := by
  refine ⟨fun i hi => ?_, fun i hi => ?_, fun i hi j v hiv hjv => ?_, fun i hi l hl v w hv hw => ?_⟩
  · rw [Fragment.getElem?_fill, if_neg hi]
  · obtain ⟨hlt, hnot⟩ := (h.mem_pending ha).1 hi
    have hn := List.getElem?_eq_getElem hlt
    refine ⟨P.vertex (role t parts i), _, by rw [Fragment.getElem?_fill, if_pos hi], hn, ?_⟩
    cases hshape : (role t parts i).shape with
    | none =>
      obtain ⟨r, hr⟩ := Part.shape_eq_none.1 hshape
      exact absurd hr (hnot r)
    | some y =>
      rw [(h.standsFor hn).identity]
      exact (hF.identityHolds_iff hv hg (h.pending_mem hF ha hm hvertex hi) hshape).2 rfl
  · obtain ⟨hi', hip, rfl⟩ := h.role_of_fill hF ha hm hvertex hiv
    obtain ⟨hj', hjp, heq⟩ := h.role_of_fill hF ha hm hvertex hjv
    exact h.casts.injective _ _ hi' hj' (hg.injective _ _ hip hjp heq.symm)
  · obtain ⟨-, hip, rfl⟩ := h.role_of_fill hF ha hm hvertex hv
    obtain ⟨-, hnp, rfl⟩ := h.role_of_fill hF ha hm hvertex hw
    obtain ⟨x, hx, hkind, hlabel, hends⟩ := Fragment.edge_of_link hl
    have hbond := h.structural_mem hF hm hvertex hx hkind
    unfold Fragment.Linked
    obtain ⟨hout, rfl, htarget⟩ | ⟨hin, rfl, hsource⟩ := hends
    · rw [if_pos hout, hg.hasEdge_iff hip, ← hlabel, ← htarget]
      exact ⟨_, hbond, rfl⟩
    · rw [if_neg (by simp [hin]), hg.hasEdge_iff hnp, ← hlabel, ← hsource]
      exact ⟨_, hbond, rfl⟩

/-- A triple whose middle vertex is there is found. -/
theorem solve_stored (h : e.Sketches t C f parts) (hF : Legible e.vocabulary F)
    (hv : e.vocabulary.Valid) (hg : g.Shows P F) (ha : f.Seats (role t parts) P F a)
    (hm : e.middle? t = some m) (hvertex : .vertex m ∈ F) : ∃ a', f.solve g a = some a' := by
  have hentering := hF.entering m t (middleOf_of_middle hm) hvertex
  exact Fragment.solve_ne_none (h.anchored ha (hF.grounded _ hentering).2.1 hm)
    (h.solves_fill hF hv hg ha hm hvertex)

end Found

end Sketches

end Encoder

end QuadStore
