import Mathlib
import QuadStore.Proofs.Encoder.Middles
/-!
# What the graph tells of one triple

Each kind of edge and each key is used for one purpose, so what is said there tells the triple that
it is said of. The edge or the value that stands for a triple is there exactly if the triple is
stored, and what lists named graphs lists those that the triple is asserted in.
-/

namespace QuadStore

namespace Encoder

variable {e : Encoder} {M : Dataset} {R : Set Resource} {t u : Triple} {A C : UriSet} {m p q : Part}
  {r s : Resource} {l : Literal} {o : Value} {x key : String} {entry : Entry} {predicate : Uri}

/-! ## One triple -/

/-- An edge under a predicate between two resources is a relation. -/
theorem depicts_relation :
    e.Depicts t C (.bond ⟨.resource s, predicate.text, .resource r⟩) ↔
      e.form t = .relation r ∧ t.subject = s ∧ t.predicate = predicate := by
  constructor
  · intro h
    rcases depicts_bond.1 h with ⟨r', hform, heq⟩ | ⟨m, hm, heq⟩ | ⟨m, o, hm, -, heq⟩ |
      ⟨o, -, c, -, heq⟩ <;> obtain ⟨hs, hp, hr⟩ := Bond.mk.inj heq
    · rw [← Part.resource.inj hr] at hform
      exact ⟨hform, (Part.resource.inj hs).symm, (Uri.ext hp).symm⟩
    · exact absurd hr.symm (middle_ne_resource hm)
    · exact absurd hs.symm (middle_ne_resource hm)
    · cases hs
  · rintro ⟨hform, rfl, rfl⟩
    exact .relation hform

theorem depicts_relationContext :
    e.Depicts t C (.edgeProperty ⟨.resource s, predicate.text, .resource r⟩ entry) ↔
      (e.form t = .relation r ∧ t.subject = s ∧ t.predicate = predicate) ∧
        ∃ c ∈ C, entry = ⟨e.vocabulary.contextsKey, c.text⟩ := by
  rw [depicts_edgeProperty]
  constructor
  · rintro ⟨r', hform, heq, hc⟩
    obtain ⟨hs, hp, hr⟩ := Bond.mk.inj heq
    rw [← Part.resource.inj hr] at hform
    exact ⟨⟨hform, (Part.resource.inj hs).symm, (Uri.ext hp).symm⟩, hc⟩
  · rintro ⟨⟨hform, rfl, rfl⟩, hc⟩
    exact ⟨r, hform, rfl, hc⟩

/-- A value under a predicate is a dense literal. -/
theorem depicts_value (hv : e.vocabulary.Valid) (hkey : isInternal key = false) :
    e.Depicts t C (.property q ⟨key, x⟩) ↔ ∃ l, e.form t = .property l ∧
      q = .resource t.subject ∧ key = t.predicate.text ∧ x = l.encode := by
  have hne : ∀ {name}, isInternal name → key ≠ name := ne_of_isInternal hkey
  constructor
  · intro h
    rcases depicts_property.1 h with ⟨-, hhas⟩ | ⟨l, hform, hq, heq | ⟨c, -, heq⟩⟩ |
      ⟨o, -, -, c, -, heq⟩
    · exact absurd rfl (hne (hv.internal _ (Vocabulary.has_mem_words hhas)))
    · obtain ⟨hp, hx⟩ := Entry.mk.inj heq
      exact ⟨l, hform, hq, hp, hx⟩
    · exact absurd (Entry.mk.inj heq).1 (hne (hv.isInternal_contextsKeyOf _ _))
    · exact absurd (Entry.mk.inj heq).1 (hne (hv.internal _ (Vocabulary.contextsKey_mem _)))
  · rintro ⟨l, hform, rfl, rfl, rfl⟩
    exact .property hform

theorem depicts_valueContext (hv : e.vocabulary.Valid) :
    e.Depicts t C (.property q ⟨e.vocabulary.contextsKeyOf predicate l.encode, x⟩) ↔
      (e.form t = .property l ∧ q = .resource t.subject ∧ t.predicate = predicate) ∧
        ∃ c ∈ C, x = c.text := by
  constructor
  · intro h
    rcases depicts_property.1 h with ⟨-, hhas⟩ | ⟨l', hform, hq, heq | ⟨c, hc, heq⟩⟩ |
      ⟨o, -, -, c, -, heq⟩
    · exact absurd rfl (hv.contextsKeyOf_ne _ _ (Vocabulary.has_mem_words hhas))
    · exact absurd (Entry.mk.inj heq).1.symm
        (ne_of_isInternal t.predicate.not_isInternal (hv.isInternal_contextsKeyOf _ _))
    · obtain ⟨hkey, hx⟩ := Entry.mk.inj heq
      obtain ⟨hp, rfl⟩ := Vocabulary.contextsKeyOf_injective hkey
      exact ⟨⟨hform, hq, hp.symm⟩, c, hc, hx⟩
    · exact absurd (Entry.mk.inj heq).1 (hv.contextsKeyOf_ne _ _ (Vocabulary.contextsKey_mem _))
  · rintro ⟨⟨hform, rfl, rfl⟩, c, hc, rfl⟩
    exact .propertyContext hform hc

/-- An edge to a named graph starts at a middle vertex. -/
theorem depicts_context (hv : e.vocabulary.Valid) :
    e.Depicts t C (.bond ⟨p, e.vocabulary.contextEdgeLabel, q⟩) ↔
      ∃ o, e.form t = .quad o ∧ p = .middle t ∧ ∃ c ∈ C, q = .resource (.uri c) := by
  have hlabel : e.vocabulary.contextEdgeLabel ≠ t.predicate.text :=
    (hv.text_ne _ (Vocabulary.contextEdgeLabel_mem _)).symm
  constructor
  · intro h
    rcases depicts_bond.1 h with ⟨r, -, heq⟩ | ⟨m, -, heq⟩ | ⟨m, o, -, -, heq⟩ |
      ⟨o, ho, c, hc, heq⟩ <;> obtain ⟨hp, heq, hq⟩ := Bond.mk.inj heq
    · exact absurd heq hlabel
    · exact absurd heq hlabel
    · exact absurd heq hlabel
    · exact ⟨o, ho, hp, c, hc, hq⟩
  · rintro ⟨o, ho, rfl, c, hc, rfl⟩
    exact .context ho hc

/-- A vertex that lists named graphs is a middle vertex. -/
theorem depicts_record (hv : e.vocabulary.Valid) :
    e.Depicts t C (.property p ⟨e.vocabulary.contextsKey, x⟩) ↔
      ∃ o, e.form t = .recording o ∧ e.middle? t = some p ∧ ∃ c ∈ C, x = c.text := by
  have hword := Vocabulary.contextsKey_mem e.vocabulary
  constructor
  · intro h
    rcases depicts_property.1 h with ⟨-, hhas⟩ | ⟨l, -, -, heq | ⟨c, -, heq⟩⟩ |
      ⟨o, ho, hm, c, hc, heq⟩
    · exact absurd (Vocabulary.has_identityKey hhas) hv.contextsKey_notMem
    · exact absurd (Entry.mk.inj heq).1.symm (hv.text_ne _ hword)
    · exact absurd (Entry.mk.inj heq).1.symm (hv.contextsKeyOf_ne _ _ hword)
    · exact ⟨o, ho, hm, c, hc, (Entry.mk.inj heq).2⟩
  · rintro ⟨o, ho, hm, c, hc, rfl⟩
    exact .record ho hm hc

/-! ## Relations -/

theorem triple_of_relation (h : e.form t = .relation r) (h' : e.form u = .relation r)
    (hs : u.subject = t.subject) (hp : u.predicate = t.predicate) : u = t :=
  Triple.ext hs hp ((object_of_form h').trans (object_of_form h).symm)

theorem relation_bond (h : e.form t = .relation r) :
    .bond ⟨.resource t.subject, t.predicate.text, .resource r⟩ ∈ e.imageWith M R ↔
      ∃ A, M[t]? = some A := by
  simp only [bond_mem_imageWith, depicts_relation]
  constructor
  · rintro ⟨u, A, hA, hu, hs, hp⟩
    rw [triple_of_relation h hu hs hp] at hA
    exact ⟨A, hA⟩
  · rintro ⟨A, hA⟩
    exact ⟨t, A, hA, h, rfl, rfl⟩

theorem relation_context (h : e.form t = .relation r) :
    .edgeProperty ⟨.resource t.subject, t.predicate.text, .resource r⟩ entry ∈ e.imageWith M R ↔
      ∃ A, M[t]? = some A ∧ ∃ c ∈ A, entry = ⟨e.vocabulary.contextsKey, c.text⟩ := by
  simp only [edgeProperty_mem_imageWith, depicts_relationContext]
  constructor
  · rintro ⟨u, A, hA, ⟨hu, hs, hp⟩, hc⟩
    rw [triple_of_relation h hu hs hp] at hA
    exact ⟨A, hA, hc⟩
  · rintro ⟨A, hA, hc⟩
    exact ⟨t, A, hA, ⟨h, rfl, rfl⟩, hc⟩

/-! ## Values -/

theorem triple_of_property (h : e.form t = .property l) (h' : e.form u = .property l)
    (hs : u.subject = t.subject) (hp : u.predicate = t.predicate) : u = t :=
  Triple.ext hs hp ((object_of_form h').trans (object_of_form h).symm)

theorem property_value (hv : e.vocabulary.Valid) (h : e.form t = .property l) :
    .property (.resource t.subject) ⟨t.predicate.text, l.encode⟩ ∈ e.imageWith M R ↔
      ∃ A, M[t]? = some A := by
  rw [property_mem_imageWith_iff fun hkey =>
    hv.text_ne _ (Vocabulary.identityKeys_subset hkey) rfl]
  simp only [depicts_value hv t.predicate.not_isInternal]
  constructor
  · rintro ⟨u, A, hA, l', hu, hs, hp, hl⟩
    obtain rfl := Literal.encode_injective hl
    rw [triple_of_property h hu (Part.resource.inj hs).symm (Uri.ext hp).symm] at hA
    exact ⟨A, hA⟩
  · rintro ⟨A, hA⟩
    exact ⟨t, A, hA, l, h, rfl, rfl, rfl⟩

theorem property_context (hv : e.vocabulary.Valid) (h : e.form t = .property l) :
    .property (.resource t.subject) ⟨e.vocabulary.contextsKeyOf t.predicate l.encode, x⟩ ∈
        e.imageWith M R ↔
      ∃ A, M[t]? = some A ∧ ∃ c ∈ A, x = c.text := by
  rw [property_mem_imageWith_iff fun hkey =>
    hv.contextsKeyOf_ne _ _ (Vocabulary.identityKeys_subset hkey) rfl]
  simp only [depicts_valueContext hv]
  constructor
  · rintro ⟨u, A, hA, ⟨hu, hs, hp⟩, hc⟩
    rw [triple_of_property h hu (Part.resource.inj hs).symm hp] at hA
    exact ⟨A, hA, hc⟩
  · rintro ⟨A, hA, hc⟩
    exact ⟨t, A, hA, ⟨h, rfl, rfl⟩, hc⟩

/-! ## Middle vertices -/

theorem context_bond (hv : e.vocabulary.Valid) :
    .bond ⟨p, e.vocabulary.contextEdgeLabel, q⟩ ∈ e.imageWith M R ↔
      ∃ t A o, M[t]? = some A ∧ e.form t = .quad o ∧ p = .middle t ∧
        ∃ c ∈ A, q = .resource (.uri c) := by
  simp only [bond_mem_imageWith, depicts_context hv, exists_and_left]

theorem record_context (hv : e.vocabulary.Valid) :
    .property p ⟨e.vocabulary.contextsKey, x⟩ ∈ e.imageWith M R ↔
      ∃ t A o, M[t]? = some A ∧ e.form t = .recording o ∧ e.middle? t = some p ∧
        ∃ c ∈ A, x = c.text := by
  rw [property_mem_imageWith_iff fun hkey => hv.contextsKey_notMem hkey]
  simp only [depicts_record hv, exists_and_left]

/-- The edges from the middle vertex of a stored triple to named graphs. -/
theorem middle_context (hv : e.vocabulary.Valid) (hA : M[t]? = some A)
    (hm : e.middle? t = some m) :
    .bond ⟨m, e.vocabulary.contextEdgeLabel, q⟩ ∈ e.imageWith M R ↔
      (∃ o, e.form t = .quad o) ∧ ∃ c ∈ A, q = .resource (.uri c) := by
  rw [context_bond hv]
  constructor
  · rintro ⟨u, B, o, hB, ho, rfl, hc⟩
    obtain rfl : u = t := middle_injective (by simp only [middle?, ho]) hm
    rw [hA] at hB
    cases hB
    exact ⟨⟨o, ho⟩, hc⟩
  · rintro ⟨⟨o, ho⟩, hc⟩
    simp only [middle?, ho, Option.some.injEq] at hm
    exact ⟨t, A, o, hA, ho, hm.symm, hc⟩

/-- The named graphs that the middle vertex of a stored triple lists. -/
theorem middle_record (hv : e.vocabulary.Valid) (hA : M[t]? = some A) (hm : e.middle? t = some m) :
    .property m ⟨e.vocabulary.contextsKey, x⟩ ∈ e.imageWith M R ↔
      (∃ o, e.form t = .recording o) ∧ ∃ c ∈ A, x = c.text := by
  rw [record_context hv]
  constructor
  · rintro ⟨u, B, o, hB, ho, hm', hc⟩
    obtain rfl : u = t := middle_injective hm' hm
    rw [hA] at hB
    cases hB
    exact ⟨⟨o, ho⟩, hc⟩
  · rintro ⟨⟨o, ho⟩, hc⟩
    exact ⟨t, A, o, hA, ho, hm, hc⟩

end Encoder

end QuadStore
