import Mathlib
import QuadStore.Proofs.Encoder.Image
/-!
# What the facts of an image tell

Each kind of fact is said for a few reasons only. While a statement is written or removed there may
also be vertices of resources that no triple needs.
-/

namespace QuadStore

namespace Identity

variable {p q : Part} {entry : Entry} {identity : Identity}

/-- The identity asks for the property. -/
def Has (entry : Entry) : Identity → Prop
  | keyed other => entry = other
  | unkeyed properties => (entry.key, some entry.value) ∈ properties

@[simp] theorem vertex_mem : .vertex q ∈ identity.facts p ↔ q = p := by
  cases identity <;> simp [facts]

@[simp] theorem property_mem :
    .property q entry ∈ identity.facts p ↔ q = p ∧ identity.Has entry := by
  cases identity with
  | keyed other => simp [facts, Has]
  | unkeyed properties =>
    simp only [facts, Has, Set.mem_ofPred_eq, reduceCtorEq, false_or, Fact.property.injEq]
    constructor
    · rintro ⟨key, value, hmem, rfl, rfl⟩
      exact ⟨rfl, hmem⟩
    · rintro ⟨rfl, hmem⟩
      exact ⟨_, _, hmem, rfl, rfl⟩

@[simp] theorem key_mem : .key q entry ∈ identity.facts p ↔ q = p ∧ identity = .keyed entry := by
  cases identity <;> simp [facts, eq_comm]

@[simp] theorem indexed_mem : .indexed q entry ∉ identity.facts p := by
  cases identity <;> simp [facts]

@[simp] theorem edge_mem {b : Bond Part} {label : String} {r : Part} :
    .edge b q label r ∉ identity.facts p := by
  cases identity <;> simp [facts]

@[simp] theorem bond_mem {b : Bond Part} : .bond b ∉ identity.facts p := edge_mem

@[simp] theorem edgeProperty_mem {b : Bond Part} : .edgeProperty b entry ∉ identity.facts p := by
  cases identity <;> simp [facts]

/-- The facts of an identity speak of its own vertex. -/
theorem grounded {F : Facts Part} {f : Fact Part (Bond Part)} (hf : f ∈ identity.facts p)
    (hp : .vertex p ∈ F) : f.Grounded F := by
  cases f with
  | vertex q => trivial
  | property q entry =>
    obtain ⟨rfl, -⟩ := property_mem.1 hf
    exact hp
  | key q entry =>
    obtain ⟨rfl, -⟩ := key_mem.1 hf
    exact hp
  | indexed q entry => exact absurd hf indexed_mem
  | edge b s l o => exact absurd hf edge_mem
  | edgeProperty b entry => exact absurd hf edgeProperty_mem

theorem dependsOn_iff {F : Facts Part} {f : Fact Part (Bond Part)} (hf : f ∈ identity.facts p) :
    f.DependsOn F q ↔ p = q := by
  cases f with
  | vertex r | property r entry | key r entry =>
    simp only [vertex_mem, property_mem, key_mem] at hf
    simp [Fact.DependsOn, hf]
  | indexed r entry => exact absurd hf indexed_mem
  | edge b s l o => exact absurd hf edge_mem
  | edgeProperty b entry => exact absurd hf edgeProperty_mem

end Identity

namespace Vocabulary

variable {v : Vocabulary} {kind : String} {l : Option Literal} {key : String} {o : Option String}

/-- The keys that identities use. -/
def identityKeys (v : Vocabulary) : List String :=
  [v.uriKey, v.blankKey, v.kindKey, v.literalValueKey, v.literalDatatypeKey, v.literalLanguageKey]

theorem identityKeys_subset (h : key ∈ v.identityKeys) : key ∈ v.words := by
  simp only [identityKeys, List.mem_cons, List.not_mem_nil, or_false] at h
  simp only [words, names, List.map_cons, List.map_nil, List.mem_cons]
  tauto

theorem fst_mem_identityKeys (h : (key, o) ∈ v.identityProperties kind l) :
    key ∈ v.identityKeys := by
  have hmem := List.mem_map_of_mem (f := Prod.fst) h
  simp only [identityProperties, List.map_cons, List.map_nil, List.mem_cons, List.not_mem_nil,
    or_false] at hmem
  simp only [identityKeys, List.mem_cons]
  tauto

theorem has_identityKey {p : Part} {entry : Entry} (h : (v.identity p).Has entry) :
    entry.key ∈ v.identityKeys := by
  cases p with
  | resource r =>
    rw [show entry = v.resourceEntry r from h]
    cases r <;> simp [resourceEntry, identityKeys]
  | middle t | literal t | holder t => exact fst_mem_identityKeys h

theorem has_mem_words {p : Part} {entry : Entry} (h : (v.identity p).Has entry) :
    entry.key ∈ v.words :=
  identityKeys_subset (has_identityKey h)

theorem Valid.nodup_keys (hv : v.Valid) : (v.contextsKey :: v.identityKeys).Nodup := by
  have hsub : ([v.uriKey, v.blankKey, v.kindKey] ++ v.contextsKey :: [v.literalValueKey,
      v.literalDatatypeKey, v.literalLanguageKey]).Sublist v.words := by
    simp [words, names]
  exact List.perm_middle.nodup (hv.distinct.sublist hsub)

theorem Valid.contextsKey_notMem (hv : v.Valid) : v.contextsKey ∉ v.identityKeys :=
  (List.nodup_cons.1 hv.nodup_keys).1

/-- Each key of an identity has one value or none. -/
theorem Valid.identityProperties_unique (hv : v.Valid)
    (h : (key, o) ∈ v.identityProperties kind l) {o' : Option String}
    (h' : (key, o') ∈ v.identityProperties kind l) : o = o' := by
  have hnodup := (List.nodup_cons.1 hv.nodup_keys).2
  simp only [identityKeys, List.nodup_cons, List.mem_cons, not_or, List.not_mem_nil] at hnodup
  simp only [identityProperties, List.mem_cons, Prod.mk.injEq, List.not_mem_nil, or_false] at h h'
  grind

theorem Valid.resourceKey_ne (hv : v.Valid) (r : Resource)
    (h : (key, o) ∈ v.identityProperties kind l) : (v.resourceEntry r).key ≠ key := by
  have hnodup := (List.nodup_cons.1 hv.nodup_keys).2
  simp only [identityKeys, List.nodup_cons, List.mem_cons, not_or, List.not_mem_nil] at hnodup
  simp only [identityProperties, List.mem_cons, Prod.mk.injEq, List.not_mem_nil, or_false] at h
  cases r <;> simp only [resourceEntry] <;> grind

end Vocabulary

namespace Encoder

variable {e : Encoder} {t : Triple} {M : Dataset} {A C : UriSet} {R : Set Resource}
  {p : Part} {entry : Entry} {b : Bond Part}

/-! ## One triple -/

theorem depicts_vertex : e.Depicts t C (.vertex p) ↔ e.Needs t C p := by
  constructor
  · intro h
    cases h with
    | identity h hf =>
      obtain rfl := Identity.vertex_mem.1 hf
      exact h
  · exact fun h => .identity h (Identity.vertex_mem.2 rfl)

theorem depicts_key :
    e.Depicts t C (.key p entry) ↔ e.Needs t C p ∧ e.vocabulary.identity p = .keyed entry := by
  constructor
  · intro h
    cases h with
    | identity h hf =>
      obtain ⟨rfl, hkeyed⟩ := Identity.key_mem.1 hf
      exact ⟨h, hkeyed⟩
  · exact fun h => .identity h.1 (Identity.key_mem.2 ⟨rfl, h.2⟩)

theorem depicts_property :
    e.Depicts t C (.property p entry) ↔
      (e.Needs t C p ∧ (e.vocabulary.identity p).Has entry) ∨
      (∃ l, e.form t = .property l ∧ p = .resource t.subject ∧
        (entry = ⟨t.predicate.text, l.encode⟩ ∨
          ∃ c ∈ C, entry = ⟨e.vocabulary.contextsKeyOf t.predicate l.encode, c.text⟩)) ∨
      ∃ o, e.form t = .recording o ∧ e.middle? t = some p ∧
        ∃ c ∈ C, entry = ⟨e.vocabulary.contextsKey, c.text⟩ := by
  constructor
  · intro h
    cases h with
    | identity h hf =>
      obtain ⟨rfl, hhas⟩ := Identity.property_mem.1 hf
      exact .inl ⟨h, hhas⟩
    | property h => exact .inr (.inl ⟨_, h, rfl, .inl rfl⟩)
    | propertyContext h hc => exact .inr (.inl ⟨_, h, rfl, .inr ⟨_, hc, rfl⟩⟩)
    | record h hm hc => exact .inr (.inr ⟨_, h, hm, _, hc, rfl⟩)
  · rintro (⟨h, hhas⟩ | ⟨l, h, rfl, rfl | ⟨c, hc, rfl⟩⟩ | ⟨o, h, hm, c, hc, rfl⟩)
    · exact .identity h (Identity.property_mem.2 ⟨rfl, hhas⟩)
    · exact .property h
    · exact .propertyContext h hc
    · exact .record h hm hc

theorem depicts_indexed :
    e.Depicts t C (.indexed p entry) ↔
      (∃ r, e.form t = .relation r ∧ e.policy.findsByContext ∧ p = .resource t.subject ∧
        ∃ c ∈ C, entry = ⟨e.vocabulary.contextIndexKey, c.text⟩) ∨
      (∃ l, e.form t = .property l ∧ p = .resource t.subject ∧
        entry = ⟨e.vocabulary.literalIndexKey, l.encode⟩) ∨
      (∃ o, e.form t = .recording o ∧ e.middle? t = some p ∧
        ∃ c ∈ C, entry = ⟨e.vocabulary.contextIndexKey, c.text⟩) ∨
      ∃ l, t.object = .literal l ∧ entry = ⟨e.vocabulary.literalIndexKey, l.encode⟩ ∧
        ((e.form t = .quad (.literal l) ∧ p = .literal t) ∨
          e.form t = .recording (.literal l) ∧ p = .holder t) := by
  constructor
  · intro h
    cases h with
    | identity h hf => exact absurd hf Identity.indexed_mem
    | relationIndex h hfinds hc => exact .inl ⟨_, h, hfinds, rfl, _, hc, rfl⟩
    | propertyIndex h => exact .inr (.inl ⟨_, h, rfl, rfl⟩)
    | recordIndex h hm hc => exact .inr (.inr (.inl ⟨_, h, hm, _, hc, rfl⟩))
    | literalIndex h => exact .inr (.inr (.inr ⟨_, object_of_form h, rfl, .inl ⟨h, rfl⟩⟩))
    | holderIndex h => exact .inr (.inr (.inr ⟨_, object_of_form h, rfl, .inr ⟨h, rfl⟩⟩))
  · rintro (⟨r, h, hfinds, rfl, c, hc, rfl⟩ | ⟨l, h, rfl, rfl⟩ | ⟨o, h, hm, c, hc, rfl⟩ |
      ⟨l, -, rfl, ⟨h, rfl⟩ | ⟨h, rfl⟩⟩)
    · exact .relationIndex h hfinds hc
    · exact .propertyIndex h
    · exact .recordIndex h hm hc
    · exact .literalIndex h
    · exact .holderIndex h

theorem depicts_bond :
    e.Depicts t C (.bond b) ↔
      (∃ r, e.form t = .relation r ∧ b = ⟨.resource t.subject, t.predicate.text, .resource r⟩) ∨
      (∃ m, e.middle? t = some m ∧ b = ⟨.resource t.subject, t.predicate.text, m⟩) ∨
      (∃ m o, e.middle? t = some m ∧ e.target? t = some o ∧ b = ⟨m, t.predicate.text, o⟩) ∨
      ∃ o, e.form t = .quad o ∧
        ∃ c ∈ C, b = ⟨.middle t, e.vocabulary.contextEdgeLabel, .resource (.uri c)⟩ := by
  constructor
  · intro h
    generalize hf : Fact.bond b = f at h
    cases h with
    | identity h hmem => exact absurd (hf ▸ hmem) Identity.bond_mem
    | relation h => exact .inl ⟨_, h, (Fact.edge.inj hf).1⟩
    | entering hm => exact .inr (.inl ⟨_, hm, (Fact.edge.inj hf).1⟩)
    | leaving hm ho => exact .inr (.inr (.inl ⟨_, _, hm, ho, (Fact.edge.inj hf).1⟩))
    | context h hc => exact .inr (.inr (.inr ⟨_, h, _, hc, (Fact.edge.inj hf).1⟩))
    | _ => cases hf
  · rintro (⟨r, h, rfl⟩ | ⟨m, hm, rfl⟩ | ⟨m, o, hm, ho, rfl⟩ | ⟨o, h, c, hc, rfl⟩)
    · exact .relation h
    · exact .entering hm
    · exact .leaving hm ho
    · exact .context h hc

theorem depicts_edgeProperty :
    e.Depicts t C (.edgeProperty b entry) ↔
      ∃ r, e.form t = .relation r ∧ b = ⟨.resource t.subject, t.predicate.text, .resource r⟩ ∧
        ∃ c ∈ C, entry = ⟨e.vocabulary.contextsKey, c.text⟩ := by
  constructor
  · intro h
    cases h with
    | identity h hf => exact absurd hf Identity.edgeProperty_mem
    | relationContext h hc => exact ⟨_, h, rfl, _, hc, rfl⟩
  · rintro ⟨r, h, rfl, c, hc, rfl⟩
    exact .relationContext h hc

/-- What a triple's facts speak of is said of it too. -/
theorem Depicts.grounded {f : Fact Part (Bond Part)} (h : e.Depicts t C f) :
    f.Grounded (e.depiction t C) := by
  have hvertex : ∀ {p}, e.Needs t C p → .vertex p ∈ e.depiction t C := depicts_vertex.2
  cases h with
  | identity h hf => exact Identity.grounded hf (hvertex h)
  | relation h => exact ⟨rfl, hvertex .subject, hvertex (.object (object_of_form h))⟩
  | relationContext h hc => exact .relation h
  | relationIndex h hfinds hc => exact hvertex .subject
  | property h => exact hvertex .subject
  | propertyContext h hc => exact hvertex .subject
  | propertyIndex h => exact hvertex .subject
  | entering hm => exact ⟨rfl, hvertex .subject, hvertex (.middle hm)⟩
  | leaving hm ho => exact ⟨rfl, hvertex (.middle hm), hvertex (.target ho)⟩
  | context h hc =>
    exact ⟨rfl, hvertex (.middle (by simp only [middle?, h])), hvertex (.context h hc)⟩
  | record h hm hc => exact hvertex (.middle hm)
  | recordIndex h hm hc => exact hvertex (.middle hm)
  | literalIndex h => exact hvertex (.target (by simp only [target?, h]))
  | holderIndex h => exact hvertex (.middle (by simp only [middle?, h]))

/-! ## An image with spare resources -/

/-- What is said of resources for themselves. -/
def spare (e : Encoder) (R : Set Resource) : Facts Part :=
  {f | ∃ r ∈ R, f ∈ (e.vocabulary.identity (.resource r)).facts (.resource r)}

/-- What the graph of a dataset says, and these resources beside it. -/
def imageWith (e : Encoder) (M : Dataset) (R : Set Resource) : Facts Part := e.image M ∪ e.spare R

theorem imageWith_empty : e.imageWith M ∅ = e.image M := by
  simp [imageWith, spare]

theorem imageWith_none : e.imageWith ∅ R = e.spare R := by
  rw [imageWith, image_empty, Set.empty_union]

theorem vertex_mem_imageWith :
    .vertex p ∈ e.imageWith M R ↔
      (∃ t A, M[t]? = some A ∧ e.Needs t A p) ∨ ∃ r ∈ R, p = .resource r := by
  simp only [imageWith, image, spare, Set.mem_union, Set.mem_ofPred_eq, depicts_vertex,
    Identity.vertex_mem]

theorem key_mem_imageWith :
    .key p entry ∈ e.imageWith M R ↔
      .vertex p ∈ e.imageWith M R ∧ e.vocabulary.identity p = .keyed entry := by
  simp only [vertex_mem_imageWith]
  simp only [imageWith, image, spare, Set.mem_union, Set.mem_ofPred_eq, depicts_key,
    Identity.key_mem, or_and_right]
  grind

theorem property_mem_imageWith :
    .property p entry ∈ e.imageWith M R ↔
      (.vertex p ∈ e.imageWith M R ∧ (e.vocabulary.identity p).Has entry) ∨
      (∃ t A l, M[t]? = some A ∧ e.form t = .property l ∧ p = .resource t.subject ∧
        (entry = ⟨t.predicate.text, l.encode⟩ ∨
          ∃ c ∈ A, entry = ⟨e.vocabulary.contextsKeyOf t.predicate l.encode, c.text⟩)) ∨
      ∃ t A o, M[t]? = some A ∧ e.form t = .recording o ∧ e.middle? t = some p ∧
        ∃ c ∈ A, entry = ⟨e.vocabulary.contextsKey, c.text⟩ := by
  simp only [vertex_mem_imageWith]
  simp only [imageWith, image, spare, Set.mem_union, Set.mem_ofPred_eq, depicts_property,
    Identity.property_mem]
  constructor
  · rintro (⟨t, A, hA, ⟨h, hhas⟩ | ⟨l, h, rfl, hentry⟩ | ⟨o, h, hm, hentry⟩⟩ | ⟨r, hr, rfl, hhas⟩)
    · exact .inl ⟨.inl ⟨t, A, hA, h⟩, hhas⟩
    · exact .inr (.inl ⟨t, A, l, hA, h, rfl, hentry⟩)
    · exact .inr (.inr ⟨t, A, o, hA, h, hm, hentry⟩)
    · exact .inl ⟨.inr ⟨r, hr, rfl⟩, hhas⟩
  · rintro (⟨⟨t, A, hA, h⟩ | ⟨r, hr, rfl⟩, hhas⟩ | ⟨t, A, l, hA, h, rfl, hentry⟩ |
      ⟨t, A, o, hA, h, hm, hentry⟩)
    · exact .inl ⟨t, A, hA, .inl ⟨h, hhas⟩⟩
    · exact .inr ⟨r, hr, rfl, hhas⟩
    · exact .inl ⟨t, A, hA, .inr (.inl ⟨l, h, rfl, hentry⟩)⟩
    · exact .inl ⟨t, A, hA, .inr (.inr ⟨o, h, hm, hentry⟩)⟩

/-- Under a key that no identity uses, what is said is said of a triple. -/
theorem property_mem_imageWith_iff (h : entry.key ∉ e.vocabulary.identityKeys) :
    .property p entry ∈ e.imageWith M R ↔
      ∃ t A, M[t]? = some A ∧ e.Depicts t A (.property p entry) := by
  refine or_iff_left ?_
  rintro ⟨r, -, hp⟩
  exact h (Vocabulary.has_identityKey (Identity.property_mem.1 hp).2)

theorem indexed_mem_imageWith :
    .indexed p entry ∈ e.imageWith M R ↔
      ∃ t A, M[t]? = some A ∧ e.Depicts t A (.indexed p entry) := by
  simp [imageWith, image, spare]

theorem bond_mem_imageWith :
    .bond b ∈ e.imageWith M R ↔ ∃ t A, M[t]? = some A ∧ e.Depicts t A (.bond b) := by
  simp [imageWith, image, spare]

theorem edgeProperty_mem_imageWith :
    .edgeProperty b entry ∈ e.imageWith M R ↔
      ∃ t A, M[t]? = some A ∧ e.Depicts t A (.edgeProperty b entry) := by
  simp [imageWith, image, spare]

theorem imageWith_grounded : ∀ f ∈ e.imageWith M R, f.Grounded (e.imageWith M R) := by
  rintro f (⟨t, A, hA, hf⟩ | ⟨r, hr, hf⟩)
  · exact hf.grounded.mono fun x hx => .inl ⟨t, A, hA, hx⟩
  · exact Identity.grounded hf (vertex_mem_imageWith.2 (.inr ⟨r, hr, rfl⟩))

theorem image_grounded : ∀ f ∈ e.image M, f.Grounded (e.image M) := by
  rw [← imageWith_empty]
  exact imageWith_grounded

/-- Every vertex is known by its identity. -/
theorem settled : Settled e.vocabulary.identity (e.imageWith M R) where
  facts p hp f hf := by
    obtain ⟨t, A, hA, h⟩ | ⟨r, hr, rfl⟩ := vertex_mem_imageWith.1 hp
    · exact .inl ⟨t, A, hA, .identity h hf⟩
    · exact .inr ⟨r, hr, hf⟩
  key p entry h := (key_mem_imageWith.1 h).2

end Encoder

end QuadStore
