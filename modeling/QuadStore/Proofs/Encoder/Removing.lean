import Mathlib
import QuadStore.Proofs.Encoder.Locating
import QuadStore.Proofs.Encoder.Taking
import QuadStore.Proofs.Encoder.Texts
/-!
# Removing a statement

Removing the fragment of a statement from the graph of a dataset leaves the graph of the dataset
without the statement.
-/

namespace QuadStore

namespace Encoder

variable {e : Encoder} {M : Dataset} {R : Set Resource} {t : Triple} {A C : UriSet} {m p : Part}
  {f : Fragment} {parts : List Part} {g : Graph} {P : Placement Part} {a : Assignment}
  {xs : List VertexId} {r₀ : Removal}

/-- The removal marks the texts at the nodes of a fragment if its triple is dropped, and else none.
-/
def Marks (M : Dataset) (t : Triple) (C : UriSet) (f : Fragment) (parts : List Part)
    (P : Placement Part) (r : Removal) : Prop :=
  ∀ (i : Nat) (n : Node) (x : FulltextEntry), f.nodes[i]? = some n → x ∈ n.fulltext →
    (P.vertex (role t parts i) ∈ r.dead ∨ (i, x.predicate) ∈ r.released ↔ M.Dropped t C)

/-- What a removal that was cleared leaves behind. -/
def Clears (e : Encoder) (M : Dataset) (t : Triple) (C : UriSet) (f : Fragment) (parts : List Part)
    (P : Placement Part) (r r' : Removal) (g' : Graph) : Prop :=
  (∃ F, g'.Shows P F ∧ e.Cleared M t C F ∧ (∀ x ∈ r.touched, x ∈ r'.touched) ∧
    ∀ x ∈ r'.dead, x ∉ g'.vertices) ∧ Marks M t C f parts P r'

theorem marks_of_relation {r : Resource} {r₁ : Removal} (h : e.Sketches t C f parts)
    (hform : e.form t = .relation r) : Marks M t C f parts P r₁ := fun _ _ _ hn hx =>
  absurd ((h.mem_role hn).1 hx) (texts_of_relation hform)

theorem literalVertex_of_middle (hm : e.middle? t = some m) (hp : e.literalVertex? t = some p) :
    p = m ∨ ∃ b, e.ownedBond t = some b ∧ p = b.target := by
  rcases literalVertex?_eq_some.1 hp with ⟨l, hl, -⟩ | ⟨l, hl, rfl⟩ | ⟨l, hl, rfl⟩
  · simp [middle?, hl] at hm
  · exact .inr ⟨⟨.middle t, t.predicate.text, .literal t⟩, by simp only [ownedBond, hl], rfl⟩
  · simp only [middle?, hl, Option.some.injEq] at hm
    exact .inl hm

theorem entry_injective {key : String} :
    Function.Injective fun c : Uri => (⟨key, c.text⟩ : Entry) :=
  fun _ _ heq => Uri.ext (Entry.mk.inj heq).2

/-- What entries say for graphs. -/
theorem taken_eq {S : EntrySet} {key : String}
    (hS : ∀ entry, entry ∈ S ↔ ∃ c ∈ C, entry = ⟨key, c.text⟩)
    (fact : Entry → Fact Part (Bond Part)) :
    {y | ∃ entry ∈ S, y = fact entry} = {y | ∃ c ∈ C, y = fact ⟨key, c.text⟩} := by
  ext y
  simp only [hS, Set.mem_ofPred_eq]
  constructor
  · rintro ⟨_, ⟨c, hc, rfl⟩, rfl⟩
    exact ⟨c, hc, rfl⟩
  · rintro ⟨c, hc, rfl⟩
    exact ⟨_, ⟨c, hc, rfl⟩, rfl⟩

theorem text_injective : Function.Injective Uri.text := fun _ _ heq => Uri.ext heq

namespace Sketches

theorem content_of_mem (h : e.Sketches t C f parts) {n : Node} (hn : n ∈ f.nodes) :
    ∃ p, n.content = e.contentOf t C p := by
  obtain ⟨i, hi⟩ := List.mem_iff_getElem?.1 hn
  exact ⟨_, (h.standsFor hi).content⟩

theorem role_injective (h : e.Sketches t C f parts) {i j : Nat} {n k : Node}
    (hn : f.nodes[i]? = some n) (hk : f.nodes[j]? = some k)
    (heq : role t parts i = role t parts j) : i = j :=
  h.casts.injective _ _ (List.getElem?_eq_some_iff.1 hn).1 (List.getElem?_eq_some_iff.1 hk).1 heq

theorem stroke_of_mem (h : e.Sketches t C f parts) {x : FragmentEdge} (hx : x ∈ f.edges) :
    Fragment.stroke (role t parts) x ∈ e.strokesOf t C := by
  rw [← h.draws.strokes]
  exact List.mem_map_of_mem hx

/-- Without a middle vertex there is nothing to do for middle vertices. -/
theorem removeMiddle_direct (h : e.Sketches t C f parts) (hm : e.middle? t = none) {r : Removal} :
    (f.nodes.zipIdx.foldlM (fun r (n, i) => f.removeMiddle e.vocabulary a r i n) r :
      GraphM Transaction Removal) = pure r := by
  refine foldlM_skip fun y hy r => ?_
  obtain ⟨n, i⟩ := y
  have hn := List.mem_zipIdx_iff_getElem?.1 hy
  obtain ⟨s, hs⟩ := (h.isKeyed_iff hn).1 (h.keyed_of_direct hm hn)
  refine Fragment.removeMiddle_skip ?_
  rw [← Bool.not_eq_true, (h.standsFor hn).middle, hs]
  exact id

/-! ## Relations -/

theorem relation_edges {r : Resource} (h : e.Sketches t C f parts)
    (hform : e.form t = .relation r) :
    ∃ x, f.edges = [x] ∧ x.kind = .relation ∧
      x.bond (role t parts) = ⟨.resource t.subject, t.predicate.text, .resource r⟩ ∧
      ∀ entry, entry ∈ x.properties ↔ ∃ c ∈ C, entry = ⟨e.vocabulary.contextsKey, c.text⟩ := by
  obtain ⟨x, hx⟩ : ∃ x, f.edges = [x] := by
    have hlength := congrArg List.length h.draws.strokes
    simp only [strokesOf, hform, List.length_map, List.length_singleton] at hlength
    exact List.length_eq_one_iff.1 hlength
  have hstroke := h.stroke_of_mem (x := x) (by simp [hx])
  simp only [strokesOf, hform, List.mem_singleton, Fragment.stroke, Stroke.mk.injEq] at hstroke
  obtain ⟨hbond, hkind, hproperties⟩ := hstroke
  refine ⟨x, hx, hkind, hbond, fun entry => ?_⟩
  rw [hproperties, Layout.mem_graphSet]
  simp only [mem_layoutOf]

theorem clear_relation {r : Resource} (h : e.Sketches t C f parts) (hg : g.Shows P (e.image M))
    (ha : f.Placed (role t parts) P (e.image M) a) (hform : e.form t = .relation r)
    (hdead : r₀.dead = []) :
    Yields (f.clear e.vocabulary a r₀) g fun r' g' => e.Clears M t C f parts P r₀ r' g' := by
  have hcontents : (f.removeContents a r₀ : GraphM Transaction Removal) = pure r₀ := by
    refine Fragment.removeContents_skip fun n hn => ?_
    obtain ⟨p, hp⟩ := h.content_of_mem hn
    have hnone : (e.contentOf t C p).properties = ∅ ∧ (e.contentOf t C p).guarded = [] := by
      simp only [contentOf, hform]
      split <;> exact ⟨rfl, rfl⟩
    rw [← hp] at hnone
    exact hnone
  have hdirect : e.middle? t = none := by simp only [middle?, hform]
  obtain ⟨x, hx, hkind, hbond, hmem⟩ := h.relation_edges hform
  unfold Fragment.clear
  rw [hcontents, pure_bind, hx, List.foldlM_cons]
  simp only [List.foldlM_nil, bind_pure, h.removeMiddle_direct hdirect]
  by_cases hb : .bond (x.bond (role t parts)) ∈ e.image M
  · have hlists : ∀ entry, .edgeProperty (x.bond (role t parts)) entry ∈ e.image M ↔
        ∃ c ∈ graphsOf M t, entry = ⟨e.vocabulary.contextsKey, c.text⟩ := by
      intro entry
      rw [← imageWith_empty, hbond, relation_context hform, graphsOf]
      cases M[t]? <;> simp
    refine Fragment.removeEdge_present h.casts ha subset_rfl (by simp [hx]) hb hg ?_
    rw [hkind]
    refine (Fragment.removeRelation_yields (Dataset.Drops (graphsOf M t) C) hg hb
      (Dataset.drops_iff_image entry_injective hlists hmem)).mono ?_
    rintro r' g' ⟨hg', -, -, hdead', htouched⟩
    rw [taken_eq hmem, hbond] at hg'
    exact ⟨⟨_, hg', relation_cleared hform, by simp [htouched], by simp [hdead', hdead]⟩,
      marks_of_relation h hform⟩
  · refine (Fragment.removeEdge_absent ha (fun _ hp => hp) hb hg).mono ?_
    rintro r' g' ⟨rfl, rfl⟩
    have hnone : M[t]? = none := by
      rw [Option.eq_none_iff_forall_ne_some]
      intro A hA
      rw [← imageWith_empty, hbond, relation_bond hform] at hb
      exact hb ⟨A, hA⟩
    exact ⟨⟨_, hg, .of_none hnone, fun _ hx => hx, by simp [hdead]⟩, marks_of_relation h hform⟩

/-! ## Values -/

/-- The node of the subject lists the named graphs and guards the value with them, and the others
say nothing. -/
theorem property_contents {l : Literal} {i : Nat} {n : Node} (h : e.Sketches t C f parts)
    (hform : e.form t = .property l) (hn : f.nodes[i]? = some n)
    (hrole : role t parts i = .resource t.subject) :
    (∀ entry, entry ∈ n.properties ↔ ∃ c ∈ C,
      entry = ⟨e.vocabulary.contextsKeyOf t.predicate l.encode, c.text⟩) ∧
    n.guarded = [⟨⟨t.predicate.text, l.encode⟩,
      e.vocabulary.contextsKeyOf t.predicate l.encode⟩] ∧
    ∀ (j : Nat) (k : Node), f.nodes[j]? = some k → j ≠ i → k.properties = ∅ ∧ k.guarded = [] := by
  have hcontent : n.content =
      (e.layoutOf t C).propertyContent l (e.fulltext.covers t.predicate) := by
    rw [(h.standsFor hn).content, hrole]
    simp only [contentOf, hform, if_true]
  refine ⟨fun entry => ?_, congrArg Content.guarded hcontent, fun j k hk hne => ?_⟩
  · rw [show n.properties = _ from congrArg Content.properties hcontent]
    rw [Layout.propertyContent, Layout.mem_graphSet]
    simp only [mem_layoutOf]
    rfl
  · have hcontent := (h.standsFor hk).content
    have hdiffers : role t parts j ≠ .resource t.subject := fun heq =>
      hne (h.role_injective hk hn (heq.trans hrole.symm))
    simp only [contentOf, hform, hdiffers, if_false] at hcontent
    exact ⟨congrArg Content.properties hcontent, congrArg Content.guarded hcontent⟩

/-- The value stays when the named graphs that it is listed in are taken out. -/
theorem property_value_left {l : Literal} {S : EntrySet} (hv : e.vocabulary.Valid)
    (hform : e.form t = .property l) (hS : ∀ entry, entry ∈ S ↔ ∃ c ∈ C,
      entry = ⟨e.vocabulary.contextsKeyOf t.predicate l.encode, c.text⟩) :
    .property (.resource t.subject) ⟨t.predicate.text, l.encode⟩ ∈ e.image M \
        {x | ∃ entry ∈ S, x = .property (.resource t.subject) entry} ↔ ∃ A, M[t]? = some A := by
  rw [Set.mem_sdiff, ← imageWith_empty, property_value hv hform, and_iff_left_iff_imp]
  rintro - ⟨entry, hentry, heq⟩
  obtain ⟨c, -, rfl⟩ := (hS entry).1 hentry
  exact ne_of_isInternal t.predicate.not_isInternal (hv.isInternal_contextsKeyOf _ _)
    (Entry.mk.inj (Fact.property.inj heq).2).1

theorem clear_property {l : Literal} (h : e.Sketches t C f parts) (hv : e.vocabulary.Valid)
    (hg : g.Shows P (e.image M)) (ha : f.Placed (role t parts) P (e.image M) a)
    (hsubject : .vertex (.resource t.subject) ∈ e.image M) (hform : e.form t = .property l)
    (hdead : r₀.dead = []) (hemptied : r₀.emptied = []) (hreleased : r₀.released = []) :
    Yields (f.clear e.vocabulary a r₀) g fun r' g' => e.Clears M t C f parts P r₀ r' g' := by
  have hdirect : e.middle? t = none := by simp only [middle?, hform]
  have hedges : f.edges = [] := by
    have hlength := congrArg List.length h.draws.strokes
    simpa [strokesOf, hform] using hlength
  obtain ⟨i, n, hn, hrole⟩ := h.player (C := C) (p := .resource t.subject) .subject
  obtain ⟨hmem, hguarded, hother⟩ := h.property_contents hform hn hrole
  unfold Fragment.clear
  rw [Fragment.removeContents_single hn hother (ha.assigned hn hrole hsubject), hedges, bind_assoc]
  simp only [List.foldlM_nil, h.removeMiddle_direct hdirect, bind_pure]
  refine (Fragment.removeProperties_yields hg hsubject).bind ?_
  rintro r₁ g₁ ⟨hg₁, ⟨-, hdead₁, htouched₁, hreleased₁⟩, hmarks⟩
  have hlists : ∀ value, .property (.resource t.subject)
      ⟨e.vocabulary.contextsKeyOf t.predicate l.encode, value⟩ ∈ e.image M ↔
        ∃ c ∈ graphsOf M t, value = c.text := by
    intro value
    rw [← imageWith_empty, property_context hv hform, graphsOf]
    cases M[t]? <;> simp
  have hnames : ∀ value,
      (⟨e.vocabulary.contextsKeyOf t.predicate l.encode, value⟩ : Entry) ∈ n.properties ↔
        ∃ c ∈ C, value = c.text := by
    intro value
    simp only [hmem, Entry.mk.injEq, true_and]
  have hsubject₁ : .vertex (.resource t.subject) ∈ e.image M \ {x | ∃ entry ∈ n.properties,
      x = .property (.resource t.subject) entry} := ⟨hsubject, by simp⟩
  refine (Fragment.removeGuarded_yields (Dataset.Drops (graphsOf M t) C) hg₁ hsubject₁
    hguarded ?_).mono ?_
  · rw [Dataset.drops_iff_image text_injective hlists hnames]
    refine and_congr (forall_congr' fun value => ?_) (or_congr Iff.rfl ?_)
    · simp only [Set.mem_sdiff, Set.mem_ofPred_eq, Fact.property.injEq, true_and, exists_eq_right',
        not_and, not_not]
    · rw [hmarks, hemptied]
      simp only [List.not_mem_nil, false_or, Prod.mk.injEq, true_and]
      constructor
      · rintro ⟨value, hvalue, hthere⟩
        exact ⟨_, hvalue, hthere, rfl⟩
      · rintro ⟨⟨key, value⟩, hvalue, hthere, rfl⟩
        exact ⟨value, hvalue, hthere⟩
  · rintro r' g' ⟨hg', ⟨hdead', htouched'⟩, hreleased'⟩
    rw [taken_eq hmem] at hg'
    refine ⟨⟨_, hg', property_cleared hv hform rfl, by simp [htouched', htouched₁],
      by simp [hdead', hdead₁, hdead]⟩, fun j k x hk hx => ?_⟩
    obtain ⟨l', hl', -, hvertex, rfl⟩ := (h.mem_role hk).1 hx
    simp only [literalVertex?, hform, Option.some.injEq] at hvertex
    obtain rfl := h.role_injective hn hk (hrole.trans hvertex)
    rw [hreleased', hdead', hdead₁, hdead, hreleased₁, hreleased, property_value_left hv hform hmem]
    simp only [List.not_mem_nil, false_or, and_true]
    exact and_comm

/-! ## Middle vertices -/

theorem middle_of_isMiddle (h : e.Needs t C p) (hp : p.IsMiddle) : e.middle? t = some p := by
  have hne : ∀ r, p ≠ .resource r := by
    rintro r rfl
    exact hp
  rcases unkeyed_needs h hne with hm | ho
  · exact hm
  · rcases target_eq ho with ⟨r, -, rfl⟩ | ⟨l, -, rfl⟩
    · exact absurd rfl (hne r)
    · exact hp.elim

theorem isMiddle_of_middle (hm : e.middle? t = some m) : m.IsMiddle := by
  rcases middle_eq hm with ⟨-, rfl⟩ | ⟨-, rfl⟩ | ⟨-, rfl⟩ <;> trivial

theorem context_mem_rest (hv : e.vocabulary.Valid) (hA : M[t]? = some A)
    (hm : e.middle? t = some m) {q : Part} :
    .bond ⟨m, e.vocabulary.contextEdgeLabel, q⟩ ∈ e.image M \ e.recorded t C ↔
      (∃ o, e.form t = .quad o) ∧ ∃ c ∈ A, c ∉ C ∧ q = .resource (.uri c) := by
  rw [Set.mem_sdiff, ← imageWith_empty, middle_context hv hA hm]
  constructor
  · rintro ⟨⟨⟨o, hform⟩, c, hc, rfl⟩, hnot⟩
    simp only [middle?, hform, Option.some.injEq] at hm
    subst hm
    exact ⟨⟨o, hform⟩, c, hc, fun hC => hnot ⟨c, hC, .inl ⟨⟨o, hform⟩, rfl⟩⟩, rfl⟩
  · rintro ⟨hform, c, hc, hC, rfl⟩
    refine ⟨⟨hform, c, hc, rfl⟩, ?_⟩
    rintro ⟨d, hd, ⟨-, heq⟩ | ⟨-, m', -, heq⟩⟩
    · simp only [Fact.bond, Fact.edge.injEq, Part.resource.injEq, Resource.uri.injEq] at heq
      exact hC (heq.2.2.2 ▸ hd)
    · cases heq

theorem record_mem_rest (hv : e.vocabulary.Valid) (hA : M[t]? = some A)
    (hm : e.middle? t = some m) {x : String} :
    .property m ⟨e.vocabulary.contextsKey, x⟩ ∈ e.image M \ e.recorded t C ↔
      (∃ o, e.form t = .recording o) ∧ ∃ c ∈ A, c ∉ C ∧ x = c.text := by
  rw [Set.mem_sdiff, ← imageWith_empty, middle_record hv hA hm]
  constructor
  · rintro ⟨⟨hform, c, hc, rfl⟩, hnot⟩
    exact ⟨hform, c, hc, fun hC => hnot ⟨c, hC, .inr ⟨hform, m, hm, rfl⟩⟩, rfl⟩
  · rintro ⟨hform, c, hc, hC, rfl⟩
    refine ⟨⟨hform, c, hc, rfl⟩, ?_⟩
    rintro ⟨d, hd, ⟨-, heq⟩ | ⟨-, m', -, heq⟩⟩
    · cases heq
    · simp only [Fact.property.injEq, Entry.mk.injEq, true_and] at heq
      exact hC (Uri.ext heq.2 ▸ hd)

/-- The middle vertex lists nothing any more once all its graphs were taken out. -/
theorem records_iff (hv : e.vocabulary.Valid) (hA : M[t]? = some A) (hm : e.middle? t = some m) :
    ((∀ q, .bond ⟨m, e.vocabulary.contextEdgeLabel, q⟩ ∉ e.image M \ e.recorded t C) ∧
      ∀ x, .property m ⟨e.vocabulary.contextsKey, x⟩ ∉ e.image M \ e.recorded t C) ↔
      ∀ c ∈ A, c ∈ C := by
  simp only [context_mem_rest hv hA hm, record_mem_rest hv hA hm]
  constructor
  · rintro ⟨hedges, hproperties⟩ c hc
    by_contra hC
    rcases middle_eq hm with ⟨hform, -⟩ | ⟨⟨r, hform⟩, -⟩ | ⟨⟨l, hform⟩, -⟩
    · exact hedges _ ⟨hform, c, hc, hC, rfl⟩
    · exact hproperties _ ⟨⟨_, hform⟩, c, hc, hC, rfl⟩
    · exact hproperties _ ⟨⟨_, hform⟩, c, hc, hC, rfl⟩
  · intro hall
    exact ⟨fun q ⟨_, c, hc, hC, _⟩ => hC (hall c hc), fun x ⟨_, c, hc, hC, _⟩ => hC (hall c hc)⟩

theorem notMem_recorded {y : Fact Part (Bond Part)} (hbond : ∀ q, y ≠
      .bond ⟨.middle t, e.vocabulary.contextEdgeLabel, q⟩)
    (hproperty : ∀ q x, y ≠ .property q ⟨e.vocabulary.contextsKey, x⟩) :
    y ∉ e.recorded t C := by
  rintro ⟨c, -, ⟨-, heq⟩ | ⟨-, m, -, heq⟩⟩
  · exact hbond _ heq
  · exact hproperty _ _ heq

theorem holdsLiteral_iff (hv : e.vocabulary.Valid) (hg : g.Shows P (e.image M \ e.recorded t C))
    {q : Part} (hq : .vertex q ∈ e.image M \ e.recorded t C) :
    Fragment.holdsLiteral e.vocabulary g (P.vertex q) ↔ ∃ u, q = .literal u := by
  have hkinds : middleKind ≠ literalKind := by decide
  have hkey : e.vocabulary.kindKey ≠ e.vocabulary.contextsKey :=
    hv.ne (i := 2) (j := 4) rfl rfl (by decide)
  have hnot : .property q ⟨e.vocabulary.kindKey, literalKind⟩ ∉ e.recorded t C :=
    notMem_recorded (fun _ h => by cases h) fun _ _ heq => by
      simp only [Fact.property.injEq, Entry.mk.injEq] at heq
      exact hkey heq.2.1
  rw [Fragment.holdsLiteral, EntrySet.has, Std.ExtTreeSet.contains_iff_mem, hg.mem_propertiesOf hq,
    Set.mem_sdiff, and_iff_left hnot, ← imageWith_empty, (legible_imageWith hv).kind_mem hv,
    imageWith_empty, and_iff_right hq.1]
  cases q <;> simp [Part.shape, hkinds]

/-- Of the vertices next to the middle vertex only the literal vertex of its triple goes with it. -/
theorem owns (hv : e.vocabulary.Valid) (hg : g.Shows P (e.image M \ e.recorded t C))
    (hA : M[t]? = some A) (hm : e.middle? t = some m) :
    Fragment.Owns e.vocabulary g P (e.image M \ e.recorded t C) m (e.ownedBond t) where
  bond b hb := by
    obtain ⟨⟨l, hform⟩, rfl⟩ := ownedBond_eq hb
    have htarget : e.target? t = some (.literal t) := by simp only [target?, hform]
    have hsource : m = .middle t := by simpa [middle?, hform, eq_comm] using hm
    subst hsource
    refine ⟨⟨⟨t, A, hA, .leaving hm htarget⟩, notMem_recorded (fun q heq => ?_) fun _ _ heq => ?_⟩,
      rfl, by simp⟩
    · simp only [Fact.bond, Fact.edge.injEq] at heq
      exact hv.text_ne t.predicate (Vocabulary.contextEdgeLabel_mem _) heq.2.2.1
    · cases heq
  literal b hb hends := by
    have hother : .vertex (if b.source = m then b.target else b.source) ∈
        e.image M \ e.recorded t C := by
      obtain ⟨-, hs, ht⟩ := hg.grounded _ hb
      split
      · exact ht
      · exact hs
    rw [holdsLiteral_iff hv hg hother]
    have hresource : ∀ {r : Resource}, b.target = .resource r →
        ¬e.ownedBond t = some b := fun hr heq => by
      obtain ⟨-, rfl⟩ := ownedBond_eq heq
      cases hr
    obtain ⟨u, B, hB, hu⟩ := hb.1
    rcases depicts_bond.1 hu with ⟨r, -, rfl⟩ | ⟨m', hm', rfl⟩ | ⟨m', o, hm', ho, rfl⟩ |
      ⟨o, ho, c, -, rfl⟩
    · rcases hends with heq | heq <;> exact absurd heq.symm (middle_ne_resource hm)
    · rw [if_neg fun heq => middle_ne_resource hm heq.symm]
      refine iff_of_false (by simp) fun heq => ?_
      obtain ⟨-, heq⟩ := ownedBond_eq heq
      cases heq
    · have hsource : m' = m := hends.resolve_right fun heq => middle_ne_target hm ho heq.symm
      subst hsource
      obtain rfl := middle_injective hm' hm
      rw [if_pos rfl]
      rcases target_eq ho with ⟨r, -, rfl⟩ | ⟨l, hform, rfl⟩
      · exact iff_of_false (by simp) (hresource rfl)
      · have hsource : m' = .middle u := by simpa [middle?, hform, eq_comm] using hm
        exact iff_of_true ⟨u, rfl⟩ (by simp only [ownedBond, hform, hsource])
    · have hsource : .middle u = m := hends.resolve_right fun heq => middle_ne_resource hm heq.symm
      rw [if_pos hsource]
      exact iff_of_false (by simp) (hresource rfl)

/-- The node of the middle vertex is the only one with a middle vertex. -/
theorem removeMiddle_single {i : Nat} {n : Node} {r : Removal} (h : e.Sketches t C f parts)
    (hm : e.middle? t = some m) (hn : f.nodes[i]? = some n) (hrole : role t parts i = m) :
    (f.nodes.zipIdx.foldlM (fun r (n, i) => f.removeMiddle e.vocabulary a r i n) r :
      GraphM Transaction Removal) = f.removeMiddle e.vocabulary a r i n := by
  refine foldlM_single (x := (n, i)) Fragment.nodup_zipIdx (List.mem_zipIdx_iff_getElem?.2 hn) ?_
  rintro ⟨k, j⟩ hk hne r
  have hk := List.mem_zipIdx_iff_getElem?.1 hk
  refine Fragment.removeMiddle_skip ?_
  rw [← Bool.not_eq_true, (h.standsFor hk).middle]
  intro hmiddle
  have hlt := (List.getElem?_eq_some_iff.1 hk).1
  have heq := middle_of_isMiddle (h.needs_role hlt) hmiddle
  rw [hm, Option.some.injEq] at heq
  have hij := h.casts.injective _ _ (List.getElem?_eq_some_iff.1 hn).1 hlt (hrole.trans heq)
  subst hij
  rw [hn] at hk
  cases hk
  exact hne rfl

theorem clear_middle {i : Nat} {n : Node} {r : Removal} (h : e.Sketches t C f parts)
    (hv : e.vocabulary.Valid) (hA : M[t]? = some A) (hm : e.middle? t = some m)
    (hg : g.Shows P (e.image M \ e.recorded t C))
    (ha : f.Placed (role t parts) P (e.image M) a) (hn : f.nodes[i]? = some n)
    (hrole : role t parts i = m) (hdead : r.dead = []) (hreleased : r.released = [])
    (hnames : f.namesContexts e.vocabulary i n = false ↔ ∀ c, c ∉ C)
    (hlost : (i ∈ r.detached ∨ (i, e.vocabulary.contextsKey) ∈ r.emptied) ↔ ∃ c ∈ A, c ∈ C) :
    Yields (f.nodes.zipIdx.foldlM (fun r (n, i) => f.removeMiddle e.vocabulary a r i n) r) g
      fun r' g' => e.Clears M t C f parts P r r' g' := by
  rw [h.removeMiddle_single hm hn hrole]
  have hvertex : .vertex m ∈ e.image M \ e.recorded t C :=
    ⟨⟨t, A, hA, depicts_vertex.2 (.middle hm)⟩,
      notMem_recorded (fun _ heq => by cases heq) fun _ _ heq => by cases heq⟩
  have hassigned := ha.assigned hn hrole hvertex.1
  have htag : n.hasTag .middle := by
    rw [(h.standsFor hn).middle, hrole]
    exact isMiddle_of_middle hm
  have hgraphs : graphsOf M t = A := by rw [graphsOf, hA, Option.getD_some]
  have hgoes : Dataset.Drops (graphsOf M t) C ↔
      ((∀ q, .bond ⟨m, e.vocabulary.contextEdgeLabel, q⟩ ∉ e.image M \ e.recorded t C) ∧
        ∀ x, .property m ⟨e.vocabulary.contextsKey, x⟩ ∉ e.image M \ e.recorded t C) ∧
      (f.namesContexts e.vocabulary i n = false ∨ i ∈ r.detached ∨
        (i, e.vocabulary.contextsKey) ∈ r.emptied) := by
    rw [records_iff hv hA hm, hnames, hlost, hgraphs, Dataset.drops_iff]
  refine (Fragment.removeMiddle_yields _ hg hvertex (owns hv hg hA hm) htag hassigned hgoes).mono ?_
  rintro r' g' ⟨hg', htouched, hreleased', hdead'⟩
  refine ⟨⟨_, hg', middle_cleared hv hm rfl hg.grounded, htouched, fun x hx hin => ?_⟩, ?_⟩
  · have hgone := ((hdead' x).1 hx).resolve_left (by simp [hdead])
    rw [if_pos hgone.1] at hg'
    obtain ⟨q, hq, rfl⟩ := hg'.mem_vertices.1 hin
    rcases hgone.2 with heq | ⟨b, hb, heq⟩
    · exact hq.2.1 (hg.injective _ _ hq.1 hvertex heq)
    · have htarget := (hg.grounded _ ((owns hv hg hA hm).bond b hb).1).2.2
      exact hq.2.2 b hb (hg.injective _ _ hq.1 htarget heq)
  · intro j k x hk hx
    obtain ⟨l, -, -, hholds, -⟩ := (h.mem_role hk).1 hx
    have hplace : P.vertex (role t parts j) = P.vertex m ∨
        ∃ b, e.ownedBond t = some b ∧ P.vertex (role t parts j) = P.vertex b.target := by
      obtain heq | ⟨b, hb, heq⟩ := literalVertex_of_middle hm hholds
      · exact .inl (congrArg _ heq)
      · exact .inr ⟨b, hb, congrArg _ heq⟩
    rw [hdead', hreleased', hdead, hreleased, and_iff_left hplace]
    simp only [List.not_mem_nil, false_or, or_false]
    exact ⟨fun hdrops => ⟨⟨A, hA⟩, hdrops⟩, And.right⟩

theorem through_kind {s : Stroke} (hs : s ∈ e.throughStrokes t C) : s.kind = .structural := by
  simp only [throughStrokes, List.mem_flatMap, Option.mem_toList, List.mem_cons,
    List.mem_map] at hs
  obtain ⟨m, -, rfl | ⟨q, -, rfl⟩⟩ := hs <;> rfl

theorem edges_of_middle (h : e.Sketches t C f parts) (hm : e.middle? t = some m) :
    ∀ x ∈ f.edges, x.kind ≠ .relation := by
  intro x hx hkind
  have hmem := h.stroke_of_mem hx
  have hthrough : Fragment.stroke (role t parts) x ∉ e.throughStrokes t C := fun hs => by
    have heq := hkind.symm.trans (through_kind hs)
    cases heq
  unfold strokesOf at hmem
  split at hmem
  · rename_i hform
    simp [middle?, hform] at hm
  · cases hmem
  · obtain ⟨c, -, heq⟩ := List.mem_map.1 ((List.mem_append.1 hmem).resolve_left hthrough)
    have heq := hkind.symm.trans (congrArg Stroke.kind heq).symm
    cases heq
  · exact hthrough hmem

/-- The edges to named graphs. -/
theorem context_edges {o : Value} (h : e.Sketches t C f parts) (hform : e.form t = .quad o)
    {Q : Bond Part → Prop} :
    (∃ x ∈ f.edges, x.kind = .context ∧ Q (x.bond (role t parts))) ↔
      ∃ c ∈ C, Q ⟨.middle t, e.vocabulary.contextEdgeLabel, .resource (.uri c)⟩ := by
  have hstrokes : e.strokesOf t C =
      e.throughStrokes t C ++ C.toList.map (e.vocabulary.contextStroke (.middle t)) := by
    simp only [strokesOf, hform]
  constructor
  · rintro ⟨x, hx, hkind, hQ⟩
    have hmem := h.stroke_of_mem hx
    rw [hstrokes, List.mem_append] at hmem
    rcases hmem with hmem | hmem
    · have heq := hkind.symm.trans (through_kind hmem)
      cases heq
    · obtain ⟨c, hc, heq⟩ := List.mem_map.1 hmem
      have hbond : x.bond (role t parts) =
          ⟨.middle t, e.vocabulary.contextEdgeLabel, .resource (.uri c)⟩ :=
        (congrArg Stroke.bond heq).symm
      exact ⟨c, Std.ExtTreeSet.mem_toList.1 hc, hbond ▸ hQ⟩
  · rintro ⟨c, hc, hQ⟩
    have hmem : e.vocabulary.contextStroke (.middle t) c ∈ e.strokesOf t C := by
      rw [hstrokes]
      exact List.mem_append_right _ (List.mem_map_of_mem (Std.ExtTreeSet.mem_toList.2 hc))
    obtain ⟨x, hx, hbond, hkind⟩ := h.edge_of_stroke hmem
    refine ⟨x, hx, hkind, ?_⟩
    rw [hbond]
    exact hQ

theorem recorded_quad {o : Value} (hform : e.form t = .quad o) :
    e.image M \ {y | ∃ c ∈ C, y.OnEdge
      ⟨.middle t, e.vocabulary.contextEdgeLabel, .resource (.uri c)⟩} =
      e.image M \ e.recorded t C := by
  ext y
  refine and_congr_right fun hy => not_congr ?_
  constructor
  · rintro ⟨c, hc, hon⟩
    refine ⟨c, hc, .inl ⟨⟨o, hform⟩, ?_⟩⟩
    cases y with
    | edge b s l q =>
      obtain ⟨heq, -, -⟩ := image_grounded _ hy
      obtain rfl : b = _ := hon
      cases heq
      rfl
    | edgeProperty b entry =>
      obtain rfl : b = _ := hon
      rw [← imageWith_empty, edgeProperty_mem_imageWith] at hy
      obtain ⟨u, B, -, hu⟩ := hy
      obtain ⟨r, -, heq, -⟩ := depicts_edgeProperty.1 hu
      cases heq
    | _ => cases hon
  · rintro ⟨c, hc, ⟨-, rfl⟩ | ⟨⟨o', hform'⟩, -⟩⟩
    · exact ⟨c, hc, rfl⟩
    · rw [hform] at hform'
      cases hform'

theorem quad_contents {o : Value} (h : e.Sketches t C f parts) (hform : e.form t = .quad o) :
    ∀ n ∈ f.nodes, n.properties = ∅ ∧ n.guarded = [] := by
  intro n hn
  obtain ⟨p, hp⟩ := h.content_of_mem hn
  have hnone : (e.contentOf t C p).properties = ∅ ∧ (e.contentOf t C p).guarded = [] := by
    simp only [contentOf, hform]
    split <;> exact ⟨rfl, rfl⟩
  rw [← hp] at hnone
  exact hnone

/-- The edges to named graphs are the ones out of the middle node. -/
theorem quad_edges {o : Value} {i : Nat} {n : Node} (h : e.Sketches t C f parts)
    (hform : e.form t = .quad o) (hn : f.nodes[i]? = some n) (hrole : role t parts i = .middle t)
    {Q : Bond Part → Prop} :
    (∃ x ∈ f.edges, x.kind = .context ∧ Q (x.bond (role t parts)) ∧ i = x.source) ↔
      ∃ c ∈ C, Q ⟨.middle t, e.vocabulary.contextEdgeLabel, .resource (.uri c)⟩ := by
  have hsource : ∀ x ∈ f.edges, (x.bond (role t parts)).source = .middle t ↔ i = x.source := by
    intro x hx
    constructor
    · intro heq
      exact h.casts.injective _ _ (List.getElem?_eq_some_iff.1 hn).1 (h.casts.ends x hx).1
        (hrole.trans heq.symm)
    · rintro rfl
      exact hrole
  have hcontext := h.context_edges hform (Q := fun b => Q b ∧ b.source = .middle t)
  simp only [and_true] at hcontext
  rw [← hcontext]
  refine exists_congr fun x => and_congr_right fun hx => and_congr_right fun _ => ?_
  rw [hsource x hx]

theorem quad_namesContexts {o : Value} {i : Nat} {n : Node} (h : e.Sketches t C f parts)
    (hform : e.form t = .quad o) (hn : f.nodes[i]? = some n) (hrole : role t parts i = .middle t) :
    f.namesContexts e.vocabulary i n = false ↔ ∀ c, c ∉ C := by
  have hedges := h.quad_edges hform hn hrole (Q := fun _ => True)
  simp only [true_and, and_true] at hedges
  rw [← Bool.not_eq_true, Fragment.namesContexts_iff,
    (h.quad_contents hform n (List.mem_of_getElem? hn)).1, hedges]
  simp

/-- An edge to a named graph is taken out if the triple is in the graph. -/
theorem quad_lost {o : Value} {i : Nat} {n : Node} (h : e.Sketches t C f parts)
    (hv : e.vocabulary.Valid) (hA : M[t]? = some A) (hform : e.form t = .quad o)
    (hn : f.nodes[i]? = some n) (hrole : role t parts i = .middle t) :
    (∃ x ∈ f.edges, x.kind = .context ∧ .bond (x.bond (role t parts)) ∈ e.image M ∧ i = x.source) ↔
      ∃ c ∈ A, c ∈ C := by
  have hm : e.middle? t = some (.middle t) := by simp only [middle?, hform]
  rw [h.quad_edges hform hn hrole (Q := fun b => .bond b ∈ e.image M)]
  simp only [← imageWith_empty, middle_context hv hA hm]
  constructor
  · rintro ⟨c, hc, -, d, hd, heq⟩
    obtain rfl := Resource.uri.inj (Part.resource.inj heq)
    exact ⟨c, hd, hc⟩
  · rintro ⟨c, hcA, hcC⟩
    exact ⟨c, hcC, ⟨o, hform⟩, c, hcA, rfl⟩

theorem clear_quad {o : Value} (h : e.Sketches t C f parts) (hv : e.vocabulary.Valid)
    (hg : g.Shows P (e.image M)) (ha : f.Placed (role t parts) P (e.image M) a)
    (hA : M[t]? = some A) (hform : e.form t = .quad o) (hdead : r₀.dead = [])
    (hemptied : r₀.emptied = []) (hdetached : r₀.detached = []) (hreleased : r₀.released = []) :
    Yields (f.clear e.vocabulary a r₀) g fun r' g' => e.Clears M t C f parts P r₀ r' g' := by
  have hm : e.middle? t = some (.middle t) := by simp only [middle?, hform]
  obtain ⟨i, n, hn, hrole⟩ := h.player (C := C) (.middle hm)
  unfold Fragment.clear
  rw [Fragment.removeContents_skip (h.quad_contents hform), pure_bind]
  refine (Fragment.removeEdges_yields h.casts ha (h.edges_of_middle hm) hg).bind ?_
  rintro r₁ g₁ ⟨hg₁, ⟨hemptied₁, hdead₁, htouched₁, hreleased₁⟩, hmarks⟩
  have hgone : ({y | ∃ x ∈ f.edges, x.kind = .context ∧ y.OnEdge (x.bond (role t parts))} :
      Facts Part) = {y | ∃ c ∈ C,
        y.OnEdge ⟨.middle t, e.vocabulary.contextEdgeLabel, .resource (.uri c)⟩} := by
    ext y
    exact h.context_edges hform (Q := fun b => y.OnEdge b)
  rw [hgone, recorded_quad hform] at hg₁
  have hlost : (i ∈ r₁.detached ∨ (i, e.vocabulary.contextsKey) ∈ r₁.emptied) ↔
      ∃ c ∈ A, c ∈ C := by
    rw [← h.quad_lost hv hA hform hn hrole, hemptied₁, hemptied, hmarks, hdetached]
    simp only [List.not_mem_nil, false_or, or_false]
    exact exists_congr fun x => and_congr_right fun _ => and_left_comm
  refine (h.clear_middle hv hA hm hg₁ ha hn hrole (hdead₁.trans hdead)
    (hreleased₁.trans hreleased) (h.quad_namesContexts hform hn hrole) hlost).mono ?_
  rintro r' g' ⟨⟨F, hg', hcleared, htouched, hdead'⟩, hmarked⟩
  exact ⟨⟨F, hg', hcleared, htouched₁ ▸ htouched, hdead'⟩, hmarked⟩

theorem recorded_recording {o : Value} (hform : e.form t = .recording o)
    (hm : e.middle? t = some m) :
    e.recorded t C = {y | ∃ c ∈ C, y = .property m ⟨e.vocabulary.contextsKey, c.text⟩} := by
  ext y
  constructor
  · rintro ⟨c, hc, ⟨⟨o', hform'⟩, -⟩ | ⟨-, m', hm', rfl⟩⟩
    · rw [hform] at hform'
      cases hform'
    · rw [hm] at hm'
      cases hm'
      exact ⟨c, hc, rfl⟩
  · rintro ⟨c, hc, rfl⟩
    exact ⟨c, hc, .inr ⟨⟨o, hform⟩, m, hm, rfl⟩⟩

theorem recording_edges {o : Value} (h : e.Sketches t C f parts)
    (hform : e.form t = .recording o) : ∀ x ∈ f.edges, x.kind = .structural := by
  intro x hx
  have hmem := h.stroke_of_mem hx
  simp only [strokesOf, hform] at hmem
  exact through_kind hmem

/-- The middle node records the named graphs, and the others say nothing. -/
theorem recording_contents {o : Value} {i : Nat} {n : Node} (h : e.Sketches t C f parts)
    (hform : e.form t = .recording o) (hm : e.middle? t = some m) (hn : f.nodes[i]? = some n)
    (hrole : role t parts i = m) :
    (∀ entry, entry ∈ n.properties ↔ ∃ c ∈ C, entry = ⟨e.vocabulary.contextsKey, c.text⟩) ∧
    n.guarded = [] ∧
    ∀ (j : Nat) (k : Node), f.nodes[j]? = some k → j ≠ i → k.properties = ∅ ∧ k.guarded = [] := by
  have hcontent : n.content =
      (e.layoutOf t C).recordingContent o (e.fulltext.covers t.predicate) := by
    rw [(h.standsFor hn).content, hrole]
    simp only [contentOf, hform, hm, if_true]
  refine ⟨fun entry => ?_, congrArg Content.guarded hcontent, fun j k hk hne => ?_⟩
  · rw [show n.properties = _ from congrArg Content.properties hcontent]
    rw [Layout.recordingContent, Layout.mem_graphSet]
    simp only [mem_layoutOf]
    rfl
  · have hcontent := (h.standsFor hk).content
    have hdiffers : e.middle? t ≠ some (role t parts j) := fun heq =>
      hne (h.role_injective hk hn ((Option.some.inj (hm.symm.trans heq)).symm.trans hrole.symm))
    simp only [contentOf, hform, hdiffers, if_false] at hcontent
    exact ⟨congrArg Content.properties hcontent, congrArg Content.guarded hcontent⟩

/-- No edge leads to a named graph. -/
theorem recording_not_context {o : Value} {x : FragmentEdge} (h : e.Sketches t C f parts)
    (hform : e.form t = .recording o) (hx : x ∈ f.edges) : x.kind ≠ .context := by
  rw [h.recording_edges hform x hx]
  decide

theorem recording_namesContexts {o : Value} {i : Nat} {n : Node} (h : e.Sketches t C f parts)
    (hform : e.form t = .recording o)
    (hmem : ∀ entry, entry ∈ n.properties ↔ ∃ c ∈ C, entry = ⟨e.vocabulary.contextsKey, c.text⟩) :
    f.namesContexts e.vocabulary i n = false ↔ ∀ c, c ∉ C := by
  rw [← Bool.not_eq_true, Fragment.namesContexts_iff, ← not_exists, not_iff_not]
  simp only [hmem, Entry.mk.injEq, true_and]
  constructor
  · rintro (⟨x, hx, hkind, -⟩ | ⟨_, c, hc, -⟩)
    · exact absurd hkind (h.recording_not_context hform hx)
    · exact ⟨c, hc⟩
  · rintro ⟨c, hc⟩
    exact .inr ⟨c.text, c, hc, rfl⟩

/-- A record of a named graph is taken out if the triple is in the graph. -/
theorem recording_lost {o : Value} {S : EntrySet} (hv : e.vocabulary.Valid) (hA : M[t]? = some A)
    (hform : e.form t = .recording o) (hm : e.middle? t = some m)
    (hS : ∀ entry, entry ∈ S ↔ ∃ c ∈ C, entry = ⟨e.vocabulary.contextsKey, c.text⟩) :
    (∃ entry ∈ S, .property m entry ∈ e.image M ∧ e.vocabulary.contextsKey = entry.key) ↔
      ∃ c ∈ A, c ∈ C := by
  simp only [hS, ← imageWith_empty]
  constructor
  · rintro ⟨_, ⟨c, hc, rfl⟩, hthere, -⟩
    rw [middle_record hv hA hm] at hthere
    obtain ⟨-, d, hd, heq⟩ := hthere
    exact ⟨c, Uri.ext heq ▸ hd, hc⟩
  · rintro ⟨c, hcA, hcC⟩
    refine ⟨_, ⟨c, hcC, rfl⟩, ?_, rfl⟩
    rw [middle_record hv hA hm]
    exact ⟨⟨o, hform⟩, c, hcA, rfl⟩

theorem clear_recording {o : Value} (h : e.Sketches t C f parts) (hv : e.vocabulary.Valid)
    (hg : g.Shows P (e.image M)) (ha : f.Placed (role t parts) P (e.image M) a)
    (hA : M[t]? = some A) (hform : e.form t = .recording o) (hdead : r₀.dead = [])
    (hemptied : r₀.emptied = []) (hdetached : r₀.detached = []) (hreleased : r₀.released = []) :
    Yields (f.clear e.vocabulary a r₀) g fun r' g' => e.Clears M t C f parts P r₀ r' g' := by
  obtain ⟨m, hm⟩ : ∃ m, e.middle? t = some m := by
    cases o with
    | resource r => exact ⟨.middle t, by simp only [middle?, hform]⟩
    | literal l => exact ⟨.holder t, by simp only [middle?, hform]⟩
  obtain ⟨i, n, hn, hrole⟩ := h.player (C := C) (.middle hm)
  obtain ⟨hmem, hguarded, hother⟩ := h.recording_contents hform hm hn hrole
  have hvertex : .vertex m ∈ e.image M := ⟨t, A, hA, depicts_vertex.2 (.middle hm)⟩
  unfold Fragment.clear
  rw [Fragment.removeContents_single hn hother (ha.assigned hn hrole hvertex), bind_assoc]
  refine (Fragment.removeProperties_yields hg hvertex).bind ?_
  rintro r₁ g₁ ⟨hg₁, ⟨hdetached₁, hdead₁, htouched₁, hreleased₁⟩, hmarks⟩
  rw [taken_eq hmem, ← recorded_recording hform hm] at hg₁
  simp only [Fragment.removeGuarded, hguarded, List.foldlM_nil, pure_bind]
  have hplaced : f.Placed (role t parts) P (e.image M \ e.recorded t C) a := by
    intro j v
    rw [ha j v]
    have hkept : ∀ q, .vertex q ∉ e.recorded t C := fun q =>
      notMem_recorded (fun _ heq => by cases heq) fun _ _ heq => by cases heq
    simp only [Set.mem_sdiff, hkept, not_false_eq_true, and_true]
  refine (Fragment.removeEdges_yields h.casts hplaced (h.edges_of_middle hm) hg₁).bind ?_
  rintro r₂ g₂ ⟨hg₂, ⟨hemptied₂, hdead₂, htouched₂, hreleased₂⟩, hmarks₂⟩
  have hnone : ({y | ∃ x ∈ f.edges, x.kind = .context ∧ y.OnEdge (x.bond (role t parts))} :
      Facts Part) = ∅ := by
    rw [Set.eq_empty_iff_forall_notMem]
    rintro y ⟨x, hx, hkind, -⟩
    exact h.recording_not_context hform hx hkind
  rw [hnone, Set.sdiff_empty] at hg₂
  have hlost : (i ∈ r₂.detached ∨ (i, e.vocabulary.contextsKey) ∈ r₂.emptied) ↔
      ∃ c ∈ A, c ∈ C := by
    have hstays : ¬∃ x ∈ f.edges, .bond (x.bond (role t parts)) ∈ e.image M \ e.recorded t C ∧
        x.kind = .context ∧ i = x.source := by
      rintro ⟨x, hx, -, hkind, -⟩
      exact h.recording_not_context hform hx hkind
    rw [hmarks₂, hdetached₁, hdetached, hemptied₂, hmarks, hemptied,
      ← recording_lost hv hA hform hm hmem]
    simp only [List.not_mem_nil, false_or, hstays, Prod.mk.injEq, true_and]
  refine (h.clear_middle hv hA hm hg₂ ha hn hrole ?_ ?_
    (h.recording_namesContexts hform hmem) hlost).mono ?_
  · rw [hdead₂, hdead₁, hdead]
  · rw [hreleased₂, hreleased₁, hreleased]
  · rintro r' g' ⟨⟨F, hg', hcleared, htouched, hdead'⟩, hmarked⟩
    rw [htouched₂, htouched₁] at htouched
    exact ⟨⟨F, hg', hcleared, htouched, hdead'⟩, hmarked⟩

end Sketches

end Encoder

end QuadStore
