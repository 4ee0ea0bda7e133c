import Mathlib
import QuadStore.Encoder.Layout
import QuadStore.Proofs.Encoder.Names
import QuadStore.Proofs.Fragment.Merging
import QuadStore.Proofs.Store.Dataset
/-!
# The image of a dataset

What the graph of a store is to say: for every stored triple a handful of facts about the parts of
the graph that stand for it, and nothing else.
-/

namespace QuadStore

/-- What a vertex stands for. -/
inductive Part where
  | resource (r : Resource)
  /-- The middle vertex of a triple whose object is elsewhere. -/
  | middle (t : Triple)
  /-- The literal vertex of a triple. -/
  | literal (t : Triple)
  /-- The middle vertex of a triple that holds the triple's literal. -/
  | holder (t : Triple)
deriving DecidableEq

/-- How a triple is laid out: as an edge, as a property, around a middle vertex with an edge to each
named graph, or around one that records the named graphs. -/
inductive Form where
  | relation (object : Resource)
  | property (literal : Literal)
  | quad (object : Value)
  | recording (object : Value)
deriving DecidableEq

namespace Form

def object : Form → Value
  | relation r => .resource r
  | property l => .literal l
  | quad o | recording o => o

end Form

namespace Vocabulary

/-- By whose it is that a vertex is known. -/
def identity (v : Vocabulary) : Part → Identity
  | .resource r => .keyed (v.resourceEntry r)
  | .middle _ => .unkeyed (v.identityProperties middleKind none)
  | .literal t => .unkeyed (v.identityProperties literalKind t.object.literal?)
  | .holder t => .unkeyed (v.identityProperties middleKind t.object.literal?)

theorem Valid.resourceEntry_injective {v : Vocabulary} (hv : v.Valid) {r s : Resource}
    (h : v.resourceEntry r = v.resourceEntry s) : r = s := by
  have hne : v.uriKey ≠ v.blankKey := hv.ne (i := 0) (j := 1) rfl rfl (by decide)
  cases r <;> cases s <;> simp only [resourceEntry, Entry.mk.injEq] at h
  case uri.uri u w => rw [Uri.ext h.2]
  case uri.blank => exact absurd h.1 hne
  case blank.uri => exact absurd h.1.symm hne
  case blank.blank a b => rw [BlankNode.ext h.2]

/-- No two resources share a key. -/
theorem Valid.keyedOnce {v : Vocabulary} (hv : v.Valid) : KeyedOnce v.identity := by
  intro p q entry hp hq
  cases p <;> cases q <;> simp only [identity, Identity.keyed.injEq, reduceCtorEq] at hp hq
  rw [hv.resourceEntry_injective (hp.trans hq.symm)]

end Vocabulary

namespace Encoder

/-- The form of a triple whose object is as it is stored. -/
def form (e : Encoder) (t : Triple) : Form :=
  match t.object with
  | .resource r =>
    if t.predicate = e.vocabulary.typePredicate then .relation r
    else
      match e.policy with
      | .dense => .relation r
      | .verboseQuad => .quad (.resource r)
      | .alwaysMiddle => .recording (.resource r)
  | .literal l =>
    match e.policy with
    | .dense => .property l
    | .verboseQuad => .quad (.literal l)
    | .alwaysMiddle => .recording (.literal l)

/-- The middle vertex of a triple. -/
def middle? (e : Encoder) (t : Triple) : Option Part :=
  match e.form t with
  | .quad _ | .recording (.resource _) => some (.middle t)
  | .recording (.literal _) => some (.holder t)
  | _ => none

/-- Where the edge out of the middle vertex leads. -/
def target? (e : Encoder) (t : Triple) : Option Part :=
  match e.form t with
  | .quad (.resource r) | .recording (.resource r) => some (.resource r)
  | .quad (.literal _) => some (.literal t)
  | _ => none

/-- The parts that a triple in these named graphs needs. -/
inductive Needs (e : Encoder) (t : Triple) (C : UriSet) : Part → Prop where
  | subject : Needs e t C (.resource t.subject)
  | object {r : Resource} (h : t.object = .resource r) : Needs e t C (.resource r)
  | middle {m : Part} (h : e.middle? t = some m) : Needs e t C m
  | target {o : Part} (h : e.target? t = some o) : Needs e t C o
  | context {o : Value} {c : Uri} (h : e.form t = .quad o) (hc : c ∈ C) :
    Needs e t C (.resource (.uri c))

/-- What the graph says of a triple in these named graphs. -/
inductive Depicts (e : Encoder) (t : Triple) (C : UriSet) : Fact Part (Bond Part) → Prop where
  /-- Every part is known by its identity. -/
  | identity {p : Part} {f : Fact Part (Bond Part)} (h : e.Needs t C p)
    (hf : f ∈ (e.vocabulary.identity p).facts p) : Depicts e t C f
  /-- A relation is an edge that lists the named graphs. -/
  | relation {r : Resource} (h : e.form t = .relation r) :
    Depicts e t C (.bond ⟨.resource t.subject, t.predicate.text, .resource r⟩)
  | relationContext {r : Resource} {c : Uri} (h : e.form t = .relation r) (hc : c ∈ C) :
    Depicts e t C (.edgeProperty ⟨.resource t.subject, t.predicate.text, .resource r⟩
      ⟨e.vocabulary.contextsKey, c.text⟩)
  /-- Where statements are found from a context alone, the subject of a relation is indexed. -/
  | relationIndex {r : Resource} {c : Uri} (h : e.form t = .relation r)
    (hfinds : e.policy.findsByContext) (hc : c ∈ C) :
    Depicts e t C (.indexed (.resource t.subject) ⟨e.vocabulary.contextIndexKey, c.text⟩)
  /-- A dense literal is a property beside one that lists the named graphs. -/
  | property {l : Literal} (h : e.form t = .property l) :
    Depicts e t C (.property (.resource t.subject) ⟨t.predicate.text, l.encode⟩)
  | propertyContext {l : Literal} {c : Uri} (h : e.form t = .property l) (hc : c ∈ C) :
    Depicts e t C (.property (.resource t.subject)
      ⟨e.vocabulary.contextsKeyOf t.predicate l.encode, c.text⟩)
  | propertyIndex {l : Literal} (h : e.form t = .property l) :
    Depicts e t C (.indexed (.resource t.subject) ⟨e.vocabulary.literalIndexKey, l.encode⟩)
  /-- An edge leads from the subject to the middle vertex, and one on to the object. -/
  | entering {m : Part} (h : e.middle? t = some m) :
    Depicts e t C (.bond ⟨.resource t.subject, t.predicate.text, m⟩)
  | leaving {m o : Part} (h : e.middle? t = some m) (ho : e.target? t = some o) :
    Depicts e t C (.bond ⟨m, t.predicate.text, o⟩)
  /-- An edge leads from the middle vertex to each named graph, or it lists them. -/
  | context {o : Value} {c : Uri} (h : e.form t = .quad o) (hc : c ∈ C) :
    Depicts e t C (.bond ⟨.middle t, e.vocabulary.contextEdgeLabel, .resource (.uri c)⟩)
  | record {o : Value} {m : Part} {c : Uri} (h : e.form t = .recording o)
    (hm : e.middle? t = some m) (hc : c ∈ C) :
    Depicts e t C (.property m ⟨e.vocabulary.contextsKey, c.text⟩)
  | recordIndex {o : Value} {m : Part} {c : Uri} (h : e.form t = .recording o)
    (hm : e.middle? t = some m) (hc : c ∈ C) :
    Depicts e t C (.indexed m ⟨e.vocabulary.contextIndexKey, c.text⟩)
  /-- The vertex that holds the literal is indexed by it. -/
  | literalIndex {l : Literal} (h : e.form t = .quad (.literal l)) :
    Depicts e t C (.indexed (.literal t) ⟨e.vocabulary.literalIndexKey, l.encode⟩)
  | holderIndex {l : Literal} (h : e.form t = .recording (.literal l)) :
    Depicts e t C (.indexed (.holder t) ⟨e.vocabulary.literalIndexKey, l.encode⟩)

/-- What the graph says of one triple. -/
def depiction (e : Encoder) (t : Triple) (C : UriSet) : Facts Part := {f | e.Depicts t C f}

/-- What the graph of a dataset says. -/
def image (e : Encoder) (M : Dataset) : Facts Part :=
  {f | ∃ t C, M[t]? = some C ∧ e.Depicts t C f}

theorem form_object {e : Encoder} {t : Triple} : (e.form t).object = t.object := by
  unfold form
  cases t.object with
  | resource r =>
    simp only
    split
    · rfl
    · cases e.policy <;> rfl
  | literal l => cases e.policy <;> rfl

theorem object_of_form {e : Encoder} {t : Triple} {x : Form} (h : e.form t = x) :
    t.object = x.object :=
  h ▸ form_object.symm

variable {e : Encoder} {t : Triple} {M : Dataset} {A C : UriSet} {f : Fact Part (Bond Part)}

theorem needs_iff {p : Part} :
    e.Needs t C p ↔ p = .resource t.subject ∨ (∃ r, t.object = .resource r ∧ p = .resource r) ∨
      e.middle? t = some p ∨ e.target? t = some p ∨
      ∃ c ∈ C, (∃ o, e.form t = .quad o) ∧ p = .resource (.uri c) := by
  constructor
  · intro h
    cases h with
    | subject => exact .inl rfl
    | object h => exact .inr (.inl ⟨_, h, rfl⟩)
    | middle h => exact .inr (.inr (.inl h))
    | target h => exact .inr (.inr (.inr (.inl h)))
    | context h hc => exact .inr (.inr (.inr (.inr ⟨_, hc, ⟨_, h⟩, rfl⟩)))
  · rintro (rfl | ⟨r, h, rfl⟩ | h | h | ⟨c, hc, ⟨o, h⟩, rfl⟩)
    · exact .subject
    · exact .object h
    · exact .middle h
    · exact .target h
    · exact .context h hc

/-! ## More named graphs -/

theorem Needs.mono {p : Part} (h : e.Needs t A p) (hsub : ∀ c ∈ A, c ∈ C) : e.Needs t C p := by
  cases h with
  | subject => exact .subject
  | object h => exact .object h
  | middle h => exact .middle h
  | target h => exact .target h
  | context h hc => exact .context h (hsub _ hc)

theorem Depicts.mono (h : e.Depicts t A f) (hsub : ∀ c ∈ A, c ∈ C) : e.Depicts t C f := by
  cases h with
  | identity h hf => exact .identity (h.mono hsub) hf
  | relation h => exact .relation h
  | relationContext h hc => exact .relationContext h (hsub _ hc)
  | relationIndex h hfinds hc => exact .relationIndex h hfinds (hsub _ hc)
  | property h => exact .property h
  | propertyContext h hc => exact .propertyContext h (hsub _ hc)
  | propertyIndex h => exact .propertyIndex h
  | entering h => exact .entering h
  | leaving h ho => exact .leaving h ho
  | context h hc => exact .context h (hsub _ hc)
  | record h hm hc => exact .record h hm (hsub _ hc)
  | recordIndex h hm hc => exact .recordIndex h hm (hsub _ hc)
  | literalIndex h => exact .literalIndex h
  | holderIndex h => exact .holderIndex h

/-- A fact of one triple is about no named graph or about one of them. -/
theorem Needs.of_union {p : Part} (h : e.Needs t (A ∪ C) p) : e.Needs t A p ∨ e.Needs t C p := by
  cases h with
  | subject => exact .inl .subject
  | object h => exact .inl (.object h)
  | middle h => exact .inl (.middle h)
  | target h => exact .inl (.target h)
  | context h hc => exact (Std.ExtTreeSet.mem_union_iff.1 hc).imp (.context h) (.context h)

theorem Depicts.of_union (h : e.Depicts t (A ∪ C) f) : e.Depicts t A f ∨ e.Depicts t C f := by
  cases h with
  | identity h hf => exact h.of_union.imp (.identity · hf) (.identity · hf)
  | relation h => exact .inl (.relation h)
  | relationContext h hc =>
    exact (Std.ExtTreeSet.mem_union_iff.1 hc).imp (.relationContext h) (.relationContext h)
  | relationIndex h hfinds hc =>
    exact (Std.ExtTreeSet.mem_union_iff.1 hc).imp (.relationIndex h hfinds) (.relationIndex h hfinds)
  | property h => exact .inl (.property h)
  | propertyContext h hc =>
    exact (Std.ExtTreeSet.mem_union_iff.1 hc).imp (.propertyContext h) (.propertyContext h)
  | propertyIndex h => exact .inl (.propertyIndex h)
  | entering h => exact .inl (.entering h)
  | leaving h ho => exact .inl (.leaving h ho)
  | context h hc => exact (Std.ExtTreeSet.mem_union_iff.1 hc).imp (.context h) (.context h)
  | record h hm hc => exact (Std.ExtTreeSet.mem_union_iff.1 hc).imp (.record h hm) (.record h hm)
  | recordIndex h hm hc =>
    exact (Std.ExtTreeSet.mem_union_iff.1 hc).imp (.recordIndex h hm) (.recordIndex h hm)
  | literalIndex h => exact .inl (.literalIndex h)
  | holderIndex h => exact .inl (.holderIndex h)

theorem depiction_union : e.depiction t (A ∪ C) = e.depiction t A ∪ e.depiction t C := by
  ext f
  constructor
  · exact Depicts.of_union
  · rintro (h | h)
    · exact h.mono fun c hc => Std.ExtTreeSet.mem_union_of_left hc
    · exact h.mono fun c hc => Std.ExtTreeSet.mem_union_of_right hc

/-! ## Images of changed datasets -/

theorem image_insert : e.image (M.insert t A) = e.image (M.erase t) ∪ e.depiction t A := by
  ext f
  simp only [image, Std.ExtTreeMap.getElem?_insert, Std.ExtTreeMap.getElem?_erase,
    Std.compare_eq_iff_eq, Set.mem_union, Set.mem_ofPred_eq]
  constructor
  · rintro ⟨u, B, hB, hf⟩
    split at hB
    · subst_vars
      cases hB
      exact .inr hf
    · rename_i hne
      exact .inl ⟨u, B, by rw [if_neg hne, hB], hf⟩
  · rintro (⟨u, B, hB, hf⟩ | hf)
    · split at hB
      · cases hB
      · rename_i hne
        exact ⟨u, B, by rw [if_neg hne, hB], hf⟩
    · exact ⟨t, A, by simp, hf⟩

theorem image_of_some (h : M[t]? = some A) :
    e.image M = e.image (M.erase t) ∪ e.depiction t A := by
  rw [← image_insert, Dataset.insert_self h]

/-- What is added to the image with a triple. -/
theorem image_add : e.image (M.add t C) = e.image M ∪ e.depiction t C := by
  rw [Dataset.add, image_insert]
  cases h : M[t]? with
  | none =>
    rw [Option.getD_none, Dataset.erase_of_none h]
    congr 2
    ext c
    simp
  | some A => rw [Option.getD_some, depiction_union, image_of_some h, Set.union_assoc]

theorem image_empty : e.image ∅ = ∅ := by
  ext f
  simp [image]

end Encoder

end QuadStore
