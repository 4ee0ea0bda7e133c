import Mathlib
import QuadStore.Proofs.Encoder.Telling
/-!
# Facts that can be read

Under every policy what the graph says of a triple is of the same few kinds, and each of them tells
where the triple is read. Facts that can be read each for itself can be read together, so the
triples of one graph need not have been laid out by one policy.
-/

namespace QuadStore

/-- Where a triple is read: off an edge between two resources, off a value, or around a middle
vertex. -/
inductive Site where
  | relation
  | value
  | around (middle : Part)
deriving DecidableEq

/-- An edge under a predicate, of the triple that is read at a site. -/
inductive Strand (t : Triple) : Site → Bond Part → Prop where
  | relation {r : Resource} (h : t.object = .resource r) :
    Strand t .relation ⟨.resource t.subject, t.predicate.text, .resource r⟩
  | entering {m : Part} (h : m.middleOf? = some t) :
    Strand t (.around m) ⟨.resource t.subject, t.predicate.text, m⟩
  | leaving {m o : Part} (h : m.middleOf? = some t) (ho : m.onward? = some o) :
    Strand t (.around m) ⟨m, t.predicate.text, o⟩

namespace Vocabulary

/-- The edges of a graph that can be read. -/
inductive Joins (v : Vocabulary) : Bond Part → Prop where
  | strand {t : Triple} {σ : Site} {b : Bond Part} (h : Strand t σ b) : Joins v b
  | context {m : Part} {t : Triple} (h : m.middleOf? = some t) (c : Uri) :
    Joins v ⟨m, v.contextEdgeLabel, .resource (.uri c)⟩

/-- The properties in a graph that can be read. -/
inductive Ascribes (v : Vocabulary) : Part → Entry → Prop where
  | identity {p : Part} {entry : Entry} (h : (v.identity p).Has entry) : Ascribes v p entry
  | value (s : Resource) (p : Uri) (l : Literal) : Ascribes v (.resource s) ⟨p.text, l.encode⟩
  | valueContext (s : Resource) (p : Uri) (l : Literal) (c : Uri) :
    Ascribes v (.resource s) ⟨v.contextsKeyOf p l.encode, c.text⟩
  | record {m : Part} {t : Triple} (h : m.middleOf? = some t) (c : Uri) :
    Ascribes v m ⟨v.contextsKey, c.text⟩

end Vocabulary

/-- Whatever the facts say can be read, and what a reading needs is there. -/
structure Legible (v : Vocabulary) (F : Facts Part) : Prop where
  grounded : ∀ f ∈ F, f.Grounded F
  settled : Settled v.identity F
  bond : ∀ b, .bond b ∈ F → v.Joins b
  property : ∀ p entry, .property p entry ∈ F → v.Ascribes p entry
  edgeProperty : ∀ b entry, .edgeProperty b entry ∈ F → ∃ c : Uri, entry = ⟨v.contextsKey, c.text⟩
  /-- Edges lead to a middle vertex and on to what it is about. -/
  entering : ∀ m t, m.middleOf? = some t → .vertex m ∈ F →
    .bond ⟨.resource t.subject, t.predicate.text, m⟩ ∈ F
  leaving : ∀ m t o, m.middleOf? = some t → m.onward? = some o → .vertex m ∈ F →
    .bond ⟨m, t.predicate.text, o⟩ ∈ F
  /-- A literal vertex is there for a middle vertex. -/
  middle : ∀ t, .vertex (.literal t) ∈ F → .vertex (.middle t) ∈ F
  /-- What holds a literal is indexed by it. -/
  value : ∀ s (p : Uri) (l : Literal), .property (.resource s) ⟨p.text, l.encode⟩ ∈ F →
    .indexed (.resource s) ⟨v.literalIndexKey, l.encode⟩ ∈ F
  held : ∀ t p, p = .literal t ∨ p = .holder t → .vertex p ∈ F →
    ∃ l, t.object = .literal l ∧ .indexed p ⟨v.literalIndexKey, l.encode⟩ ∈ F

variable {v : Vocabulary} {F G : Facts Part} {t u : Triple} {m o p q : Part} {b : Bond Part}
  {σ τ : Site}

/-! ## Edges under predicates -/

namespace Strand

theorem of_source (h : Strand t σ b) (hu : b.source.middleOf? = some u) :
    t = u ∧ σ = .around b.source := by
  cases h with
  | relation => cases hu
  | entering => cases hu
  | leaving ht => exact ⟨Option.some.inj (ht.symm.trans hu), rfl⟩

theorem of_target (h : Strand t σ b) (hu : b.target.middleOf? = some u) :
    t = u ∧ σ = .around b.target := by
  cases h with
  | relation => cases hu
  | entering ht => exact ⟨Option.some.inj (ht.symm.trans hu), rfl⟩
  | leaving ht ho => cases hu.symm.trans (Part.middleOf_of_onward ho)

theorem of_resources {s r : Resource} {predicate : Uri}
    (h : Strand t σ ⟨.resource s, predicate.text, .resource r⟩) :
    t = ⟨s, predicate, .resource r⟩ ∧ σ = .relation := by
  generalize hb : (⟨.resource s, predicate.text, .resource r⟩ : Bond Part) = b at h
  cases h with
  | relation ho =>
    obtain ⟨hs, hp, hr⟩ := Bond.mk.inj hb
    refine ⟨Triple.ext (Part.resource.inj hs).symm (Uri.ext hp).symm ?_, rfl⟩
    rw [ho, Part.resource.inj hr]
  | entering ht => exact absurd (Bond.mk.inj hb).2.2.symm (Part.ne_resource_of_middleOf ht)
  | leaving ht => exact absurd (Bond.mk.inj hb).1.symm (Part.ne_resource_of_middleOf ht)

/-- An edge under a predicate tells its triple, and where that is read. -/
theorem unique (h : Strand t σ b) (h' : Strand u τ b) : t = u ∧ σ = τ := by
  cases h' with
  | relation ho =>
    obtain ⟨rfl, rfl⟩ := h.of_resources
    exact ⟨Triple.ext rfl rfl ho.symm, rfl⟩
  | entering hu => exact h.of_target hu
  | leaving hu => exact h.of_source hu

theorem label_eq (h : Strand t σ b) : b.label = t.predicate.text := by
  cases h <;> rfl

end Strand

namespace Legible

/-! ## Reading together -/

theorem sUnion {S : Set (Facts Part)} (h : ∀ F ∈ S, Legible v F) : Legible v (⋃₀ S) where
  grounded := fun f ⟨F, hF, hf⟩ =>
    ((h F hF).grounded f hf).mono (Set.subset_sUnion_of_mem hF)
  settled :=
    { facts := fun p ⟨F, hF, hp⟩ =>
        ((h F hF).settled.facts p hp).trans (Set.subset_sUnion_of_mem hF)
      key := fun p entry ⟨F, hF, hp⟩ => (h F hF).settled.key p entry hp }
  bond := fun b ⟨F, hF, hb⟩ => (h F hF).bond b hb
  property := fun p entry ⟨F, hF, hp⟩ => (h F hF).property p entry hp
  edgeProperty := fun b entry ⟨F, hF, hb⟩ => (h F hF).edgeProperty b entry hb
  entering := fun m t hm ⟨F, hF, hp⟩ => ⟨F, hF, (h F hF).entering m t hm hp⟩
  leaving := fun m t o hm ho ⟨F, hF, hp⟩ => ⟨F, hF, (h F hF).leaving m t o hm ho hp⟩
  middle := fun t ⟨F, hF, hp⟩ => ⟨F, hF, (h F hF).middle t hp⟩
  value := fun s p l ⟨F, hF, hp⟩ => ⟨F, hF, (h F hF).value s p l hp⟩
  held := fun t p hp ⟨F, hF, hvertex⟩ => by
    obtain ⟨l, hl, hindexed⟩ := (h F hF).held t p hp hvertex
    exact ⟨l, hl, F, hF, hindexed⟩

theorem union (hF : Legible v F) (hG : Legible v G) : Legible v (F ∪ G) := by
  rw [← Set.sUnion_pair]
  refine sUnion fun H hH => ?_
  rcases hH with rfl | rfl
  · exact hF
  · exact hG

theorem empty : Legible v ∅ := by
  rw [← Set.sUnion_empty]
  exact sUnion fun F hF => absurd hF (Set.notMem_empty F)

/-! ## What edges tell -/

variable {predicate : Uri}

/-- An edge under a predicate is of a triple. -/
theorem strand_of_bond (hF : Legible v F) (hv : v.Valid) (hb : .bond b ∈ F)
    (hlabel : isInternal b.label = false) : ∃ t σ, Strand t σ b := by
  cases hF.bond b hb with
  | strand h => exact ⟨_, _, h⟩
  | context h c =>
    exact absurd rfl
      (ne_of_isInternal hlabel (hv.internal _ (Vocabulary.contextEdgeLabel_mem v)))

/-- An edge under a predicate from a resource to an unkeyed vertex enters the middle of a triple. -/
theorem entering_tells {s : Resource} (hF : Legible v F) (hv : v.Valid)
    (h : .bond ⟨.resource s, predicate.text, q⟩ ∈ F) (hq : q.shape ≠ none) :
    ∃ t, q.middleOf? = some t ∧ t.subject = s ∧ t.predicate = predicate := by
  obtain ⟨t, σ, hstrand⟩ := hF.strand_of_bond hv h predicate.not_isInternal
  generalize hb : (⟨.resource s, predicate.text, q⟩ : Bond Part) = b at hstrand
  cases hstrand with
  | relation =>
    rw [(Bond.mk.inj hb).2.2] at hq
    exact absurd rfl hq
  | entering hm =>
    obtain ⟨hs, hp, rfl⟩ := Bond.mk.inj hb
    exact ⟨t, hm, (Part.resource.inj hs).symm, (Uri.ext hp).symm⟩
  | leaving hm => exact absurd (Bond.mk.inj hb).1.symm (Part.ne_resource_of_middleOf hm)

/-- An edge under a predicate away from a middle vertex is about the predicate of its triple, and
leads onward. -/
theorem leaving_tells (hF : Legible v F) (hv : v.Valid) (hm : m.middleOf? = some t)
    (h : .bond ⟨m, predicate.text, q⟩ ∈ F) : t.predicate = predicate ∧ m.onward? = some q := by
  obtain ⟨u, σ, hstrand⟩ := hF.strand_of_bond hv h predicate.not_isInternal
  generalize hb : (⟨m, predicate.text, q⟩ : Bond Part) = b at hstrand
  cases hstrand with
  | relation => exact absurd (Bond.mk.inj hb).1 (Part.ne_resource_of_middleOf hm)
  | entering => exact absurd (Bond.mk.inj hb).1 (Part.ne_resource_of_middleOf hm)
  | leaving hm' ho =>
    obtain ⟨rfl, hp, rfl⟩ := Bond.mk.inj hb
    rw [Option.some.inj (hm.symm.trans hm')]
    exact ⟨(Uri.ext hp).symm, ho⟩

end Legible

/-! ## What is said of triples and resources -/

namespace Encoder

variable {e : Encoder} {C : UriSet} {M : Dataset} {R : Set Resource}

/-- A middle vertex that a triple needs is its own. -/
theorem middle_of_needs (h : e.Needs t C m) (hm : m.middleOf? = some u) :
    u = t ∧ e.middle? t = some m := by
  rcases unkeyed_needs h fun r => Part.ne_resource_of_middleOf hm with hmiddle | htarget
  · exact ⟨Option.some.inj (hm.symm.trans (middleOf_of_middle hmiddle)), hmiddle⟩
  · rcases target_eq htarget with ⟨r, -, rfl⟩ | ⟨l, -, rfl⟩ <;> cases hm

/-- A literal vertex that a triple needs is its own. -/
theorem literal_of_needs (h : e.Needs t C (.literal u)) :
    u = t ∧ ∃ l, e.form t = .quad (.literal l) := by
  rcases unkeyed_needs h (by simp) with hmiddle | htarget
  · cases middleOf_of_middle hmiddle
  · rcases target_eq htarget with ⟨r, -, heq⟩ | ⟨l, hform, heq⟩
    · cases heq
    · exact ⟨Part.literal.inj heq, l, hform⟩

/-- What identifies a vertex is no value under a predicate. -/
theorem not_has_text (hv : v.Valid) {predicate : Uri} {x : String} :
    ¬(v.identity p).Has ⟨predicate.text, x⟩ := fun h =>
  hv.text_ne predicate (Vocabulary.has_mem_words h) rfl

theorem legible_depiction (hv : e.vocabulary.Valid) :
    Legible e.vocabulary (e.depiction t C) where
  grounded _ hf := hf.grounded
  settled :=
    { facts := fun _ hp _ hf => .identity (depicts_vertex.1 hp) hf
      key := fun _ _ h => (depicts_key.1 h).2 }
  bond b hb := by
    rcases depicts_bond.1 hb with ⟨r, hr, rfl⟩ | ⟨m, hm, rfl⟩ | ⟨m, o, hm, ho, rfl⟩ |
      ⟨o, ho, c, -, rfl⟩
    · exact .strand (.relation (object_of_form hr))
    · exact .strand (.entering (middleOf_of_middle hm))
    · exact .strand (.leaving (middleOf_of_middle hm) (target_of_middle hm ▸ ho))
    · exact .context (t := t) rfl c
  property p entry h := by
    rcases depicts_property.1 h with ⟨-, hhas⟩ | ⟨l, -, rfl, rfl | ⟨c, -, rfl⟩⟩ |
      ⟨o, -, hm, c, -, rfl⟩
    · exact .identity hhas
    · exact .value _ _ _
    · exact .valueContext _ _ _ _
    · exact .record (middleOf_of_middle hm) c
  edgeProperty b entry h := by
    obtain ⟨r, -, -, c, -, rfl⟩ := depicts_edgeProperty.1 h
    exact ⟨c, rfl⟩
  entering m u hm h := by
    obtain ⟨rfl, hmiddle⟩ := middle_of_needs (depicts_vertex.1 h) hm
    exact .entering hmiddle
  leaving m u o hm ho h := by
    obtain ⟨rfl, hmiddle⟩ := middle_of_needs (depicts_vertex.1 h) hm
    exact .leaving hmiddle ((target_of_middle hmiddle).trans ho)
  middle u h := by
    obtain ⟨rfl, l, hform⟩ := literal_of_needs (depicts_vertex.1 h)
    exact depicts_vertex.2 (.middle (by simp only [middle?, hform]))
  value s p l h := by
    obtain ⟨l', hform, hs, -, hl⟩ := (depicts_value hv p.not_isInternal).1 h
    rw [hs, hl]
    exact .propertyIndex hform
  held u p hp h := by
    rcases hp with rfl | rfl
    · obtain ⟨rfl, l, hform⟩ := literal_of_needs (depicts_vertex.1 h)
      exact ⟨l, object_of_form hform, .literalIndex hform⟩
    · obtain ⟨rfl, hmiddle⟩ := middle_of_needs (u := u) (depicts_vertex.1 h) rfl
      rcases middle_eq hmiddle with ⟨-, heq⟩ | ⟨-, heq⟩ | ⟨⟨l, hform⟩, -⟩
      · cases heq
      · cases heq
      · exact ⟨l, object_of_form hform, .holderIndex hform⟩

theorem legible_spare (hv : e.vocabulary.Valid) : Legible e.vocabulary (e.spare R) where
  grounded := imageWith_none (e := e) ▸ imageWith_grounded
  settled := imageWith_none (e := e) ▸ settled
  bond := by
    rintro b ⟨r, -, hb⟩
    exact absurd hb Identity.bond_mem
  property := by
    rintro p entry ⟨r, -, hp⟩
    obtain ⟨rfl, hhas⟩ := Identity.property_mem.1 hp
    exact .identity hhas
  edgeProperty := by
    rintro b entry ⟨r, -, hb⟩
    exact absurd hb Identity.edgeProperty_mem
  entering := by
    rintro m t hm ⟨r, -, hp⟩
    exact absurd (Identity.vertex_mem.1 hp) (Part.ne_resource_of_middleOf hm)
  leaving := by
    rintro m t o hm - ⟨r, -, hp⟩
    exact absurd (Identity.vertex_mem.1 hp) (Part.ne_resource_of_middleOf hm)
  middle := by
    rintro t ⟨r, -, hp⟩
    cases Identity.vertex_mem.1 hp
  value := by
    rintro s p l ⟨r, -, hp⟩
    exact absurd (Identity.property_mem.1 hp).2 (not_has_text hv)
  held := by
    rintro t p hp ⟨r, -, hvertex⟩
    obtain rfl := Identity.vertex_mem.1 hvertex
    rcases hp with hp | hp <;> cases hp

/-- What is said of a dataset, and of resources beside it, can be read. -/
theorem legible_imageWith (hv : e.vocabulary.Valid) : Legible e.vocabulary (e.imageWith M R) := by
  have himage : e.image M = ⋃₀ {F | ∃ t A, M[t]? = some A ∧ e.depiction t A = F} := by
    ext f
    simp only [image, depiction, Set.mem_ofPred_eq, Set.mem_sUnion]
    constructor
    · rintro ⟨t, A, hA, hf⟩
      exact ⟨_, ⟨t, A, hA, rfl⟩, hf⟩
    · rintro ⟨_, ⟨t, A, hA, rfl⟩, hf⟩
      exact ⟨t, A, hA, hf⟩
  rw [imageWith, himage]
  refine (Legible.sUnion ?_).union (legible_spare hv)
  rintro _ ⟨t, A, -, rfl⟩
  exact legible_depiction hv

/-- The unkeyed vertices of a triple are there together. -/
theorem unkeyed_vertex_iff (hF : Legible e.vocabulary F) (hm : e.middle? t = some m)
    (hp : e.Needs t C p) (hne : ∀ r, p ≠ .resource r) : .vertex p ∈ F ↔ .vertex m ∈ F := by
  rcases unkeyed_needs hp hne with hmiddle | htarget
  · rw [Option.some.inj (hmiddle.symm.trans hm)]
  · constructor
    · intro hvertex
      rcases target_eq htarget with ⟨r, -, rfl⟩ | ⟨l, hform, rfl⟩
      · exact absurd rfl (hne r)
      · simp only [middle?, hform, Option.some.injEq] at hm
        exact hm ▸ hF.middle t hvertex
    · intro hvertex
      have hbond := hF.leaving m t p (middleOf_of_middle hm)
        ((target_of_middle hm).symm.trans htarget) hvertex
      exact (hF.grounded _ hbond).2.2

end Encoder

end QuadStore
