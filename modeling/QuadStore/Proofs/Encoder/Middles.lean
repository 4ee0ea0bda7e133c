import Mathlib
import QuadStore.Proofs.Encoder.Inversion
/-!
# Middle vertices

A middle vertex stands for one triple, and the subject, the predicate and what the middle vertex
leads to determine the triple.
-/

namespace QuadStore

namespace Part

/-- The triple that an unkeyed vertex stands for. -/
def triple? : Part → Option Triple
  | resource _ => none
  | middle t | literal t | holder t => some t

/-- The kind of an unkeyed vertex and the literal it holds. -/
def shape : Part → Option (String × Option Literal)
  | resource _ => none
  | middle _ => some (middleKind, none)
  | literal t => some (literalKind, t.object.literal?)
  | holder t => some (middleKind, t.object.literal?)

theorem shape_eq_none {p : Part} : p.shape = none ↔ ∃ r, p = resource r := by
  cases p <;> simp [shape]

/-- The triple that a middle vertex stands for. -/
def middleOf? : Part → Option Triple
  | middle t | holder t => some t
  | _ => none

/-- Where the edge out of a middle vertex leads, unless it holds the literal itself. -/
def onward? : Part → Option Part
  | middle t =>
    match t.object with
    | .resource r => some (resource r)
    | .literal _ => some (literal t)
  | _ => none

theorem middleOf_eq {m : Part} {t : Triple} (h : m.middleOf? = some t) :
    m = middle t ∨ m = holder t := by
  cases m <;> simp only [middleOf?, Option.some.injEq, reduceCtorEq] at h <;> simp [h]

theorem ne_resource_of_middleOf {m : Part} {t : Triple} {r : Resource}
    (h : m.middleOf? = some t) : m ≠ resource r := by
  rintro rfl
  cases h

theorem onward_resource {t : Triple} {r : Resource} :
    (middle t).onward? = some (resource r) ↔ t.object = .resource r := by
  cases h : t.object <;> simp [onward?, h]

theorem onward_literal {t u : Triple} :
    (middle t).onward? = some (literal u) ↔ t = u ∧ ∃ l, t.object = .literal l := by
  cases h : t.object <;> simp [onward?, h]

theorem exists_onward (t : Triple) : ∃ o, (middle t).onward? = some o := by
  cases h : t.object <;> simp [onward?, h]

theorem onward_eq {m o : Part} (h : m.onward? = some o) :
    ∃ t, m = middle t ∧ ((∃ r, t.object = .resource r ∧ o = resource r) ∨
      ∃ l, t.object = .literal l ∧ o = literal t) := by
  cases m <;> simp only [onward?, reduceCtorEq] at h
  split at h <;> cases h
  · exact ⟨_, rfl, .inl ⟨_, ‹_›, rfl⟩⟩
  · exact ⟨_, rfl, .inr ⟨_, ‹_›, rfl⟩⟩

theorem middleOf_of_onward {m o : Part} (h : m.onward? = some o) : o.middleOf? = none := by
  obtain ⟨t, -, ⟨r, -, rfl⟩ | ⟨l, -, rfl⟩⟩ := onward_eq h <;> rfl

end Part

namespace Encoder

variable {e : Encoder} {M : Dataset} {R : Set Resource} {t u : Triple} {m m' o p q : Part}
  {predicate : Uri} {A : UriSet} {label : String} {l : Literal}

theorem middle_eq (h : e.middle? t = some m) :
    ((∃ o, e.form t = .quad o) ∧ m = .middle t) ∨
      ((∃ r, e.form t = .recording (.resource r)) ∧ m = .middle t) ∨
      ((∃ l, e.form t = .recording (.literal l)) ∧ m = .holder t) := by
  unfold middle? at h
  split at h <;> simp_all

/-- A triple is an edge or a value, or has a middle vertex. -/
theorem form_cases (e : Encoder) (t : Triple) :
    (∃ r, e.form t = .relation r) ∨ (∃ l, e.form t = .property l) ∨ ∃ m, e.middle? t = some m := by
  cases hform : e.form t with
  | relation r => exact .inl ⟨r, rfl⟩
  | property l => exact .inr (.inl ⟨l, rfl⟩)
  | quad o => exact .inr (.inr ⟨.middle t, by simp only [middle?, hform]⟩)
  | recording o =>
    cases o with
    | resource r => exact .inr (.inr ⟨.middle t, by simp only [middle?, hform]⟩)
    | literal l => exact .inr (.inr ⟨.holder t, by simp only [middle?, hform]⟩)

theorem quad_of_middle (hpolicy : e.policy = .verboseQuad)
    (hm : e.middle? t = some m) : ∃ o, e.form t = .quad o := by
  unfold middle? at hm
  unfold form at hm ⊢
  simp only [hpolicy] at hm ⊢
  cases ho : t.object with
  | resource r =>
    simp only [ho] at hm ⊢
    split
    · rename_i htype
      rw [if_pos htype] at hm
      cases hm
    · exact ⟨_, rfl⟩
  | literal l => exact ⟨_, rfl⟩

theorem target_eq (h : e.target? t = some o) :
    (∃ r, t.object = .resource r ∧ o = .resource r) ∨
      ∃ l, e.form t = .quad (.literal l) ∧ o = .literal t := by
  unfold target? at h
  split at h
  · rename_i r hform
    exact .inl ⟨r, object_of_form hform, (Option.some.inj h).symm⟩
  · rename_i r hform
    exact .inl ⟨r, object_of_form hform, (Option.some.inj h).symm⟩
  · rename_i l hform
    exact .inr ⟨l, hform, (Option.some.inj h).symm⟩
  · cases h

theorem middleOf_of_middle (h : e.middle? t = some m) : m.middleOf? = some t := by
  obtain ⟨-, rfl⟩ | ⟨-, rfl⟩ | ⟨-, rfl⟩ := middle_eq h <;> rfl

/-- The middle vertex tells where the edge out of it leads. -/
theorem target_of_middle (h : e.middle? t = some m) : e.target? t = m.onward? := by
  unfold target?
  obtain ⟨⟨o, hform⟩, rfl⟩ | ⟨⟨r, hform⟩, rfl⟩ | ⟨⟨l, hform⟩, rfl⟩ := middle_eq h
  · have hobject : t.object = o := object_of_form hform
    cases o <;> simp only [hform, Part.onward?, hobject]
  · have hobject : t.object = .resource r := object_of_form hform
    simp only [hform, Part.onward?, hobject]
  · simp only [hform, Part.onward?]

/-- The vertex that holds the literal of a triple. -/
def literalVertex? (e : Encoder) (t : Triple) : Option Part :=
  match e.form t with
  | .property _ => some (.resource t.subject)
  | .quad (.literal _) => some (.literal t)
  | .recording (.literal _) => some (.holder t)
  | _ => none

theorem literalVertex?_eq_some :
    e.literalVertex? t = some p ↔ (∃ l, e.form t = .property l ∧ p = .resource t.subject) ∨
      (∃ l, e.form t = .quad (.literal l) ∧ p = .literal t) ∨
      ∃ l, e.form t = .recording (.literal l) ∧ p = .holder t := by
  unfold literalVertex?
  split <;> simp_all [eq_comm]

theorem literal_of_literalVertex (h : e.literalVertex? t = some p) : ∃ l, t.object = .literal l := by
  rcases literalVertex?_eq_some.1 h with ⟨l, hform, -⟩ | ⟨l, hform, -⟩ | ⟨l, hform, -⟩
  all_goals exact ⟨l, object_of_form hform⟩

theorem target_of_direct (h : e.middle? t = none) : e.target? t = none := by
  unfold middle? at h
  unfold target?
  split at h <;> simp_all

theorem triple_of_middle (h : e.middle? t = some m) : m.triple? = some t := by
  obtain ⟨-, rfl⟩ | ⟨-, rfl⟩ | ⟨-, rfl⟩ := middle_eq h <;> rfl

theorem middle_injective (h : e.middle? t = some m) (h' : e.middle? u = some m) : t = u :=
  Option.some.inj ((triple_of_middle h).symm.trans (triple_of_middle h'))

theorem middle_ne_resource {r : Resource} (h : e.middle? t = some m) : m ≠ .resource r := by
  rintro rfl
  have := triple_of_middle h
  cases this

theorem middle_ne_target (h : e.middle? t = some m) (ho : e.target? u = some o) : m ≠ o := by
  obtain ⟨-, rfl⟩ | ⟨-, rfl⟩ | ⟨-, rfl⟩ := middle_eq h <;>
    obtain ⟨r, -, rfl⟩ | ⟨l, -, rfl⟩ := target_eq ho <;> simp

/-- What a triple needs beside vertices of resources is its middle vertex and what that leads to. -/
theorem unkeyed_needs (h : e.Needs t A p) (hne : ∀ r, p ≠ .resource r) :
    e.middle? t = some p ∨ e.target? t = some p := by
  obtain heq | ⟨r, -, heq⟩ | heq | heq | ⟨c, -, -, heq⟩ := needs_iff.1 h
  · exact absurd heq (hne _)
  · exact absurd heq (hne _)
  · exact .inl heq
  · exact .inr heq
  · exact absurd heq (hne _)

/-- Triples with a literal are the same if subject, predicate and literal are. -/
theorem triple_eq_of_literal (hs : u.subject = t.subject) (hp : u.predicate = t.predicate)
    (ht : t.object = .literal l) (hu : u.object.literal? = t.object.literal?) : u = t := by
  refine Triple.ext hs hp ?_
  rw [ht, Value.literal?] at hu
  cases ho : u.object with
  | resource r => simp [ho, Value.literal?] at hu
  | literal l' =>
    rw [ho, Value.literal?, Option.some.injEq] at hu
    rw [ht, hu]

/-- What a middle vertex leads to tells its triple. -/
theorem middle_of_onward {o' : Part} (hq : q.middleOf? = some u) (hs : u.subject = t.subject)
    (hp : u.predicate = t.predicate) (ho : (Part.middle t).onward? = some o)
    (ho' : q.onward? = some o') (halike : o' = o ∨ o.shape ≠ none ∧ o'.shape = o.shape) :
    q = .middle t := by
  obtain ⟨_, rfl, hu⟩ := Part.onward_eq ho'
  obtain rfl := Option.some.inj hq
  obtain ⟨_, heq, ht⟩ := Part.onward_eq ho
  obtain rfl := Part.middle.inj heq
  rcases ht with ⟨r, hr, rfl⟩ | ⟨l, hl, rfl⟩
  · obtain rfl := halike.resolve_right fun h => h.1 rfl
    rcases hu with ⟨r', hr', heq⟩ | ⟨l, -, heq⟩
    · rw [Triple.ext hs hp (hr'.trans (Part.resource.inj heq ▸ hr.symm))]
    · cases heq
  · rcases hu with ⟨r, -, rfl⟩ | ⟨l', -, rfl⟩
    · rcases halike with h | ⟨-, h⟩ <;> cases h
    · rcases halike with h | ⟨-, h⟩
      · rw [Part.literal.inj h]
      · rw [triple_eq_of_literal hs hp hl (Prod.mk.inj (Option.some.inj h)).2]

/-- A middle vertex is the one of a triple if it has the same shape, is about the same subject and
predicate and leads to a vertex alike. -/
theorem middle_unique (hm : e.middle? t = some m) (hq : q.middleOf? = some u)
    (hs : u.subject = t.subject) (hp : u.predicate = t.predicate) (hshape : q.shape = m.shape)
    (honward : ∀ o, m.onward? = some o →
      ∃ o', q.onward? = some o' ∧ (o' = o ∨ o.shape ≠ none ∧ o'.shape = o.shape)) : q = m := by
  rcases Part.middleOf_eq (middleOf_of_middle hm) with rfl | rfl
  · obtain ⟨o, ho⟩ := Part.exists_onward t
    obtain ⟨o', ho', halike⟩ := honward o ho
    exact middle_of_onward hq hs hp ho ho' halike
  · rcases middle_eq hm with ⟨-, heq⟩ | ⟨-, heq⟩ | ⟨⟨l, hform⟩, -⟩
    · cases heq
    · cases heq
    · have hobject : t.object = .literal l := object_of_form hform
      rcases Part.middleOf_eq hq with rfl | rfl
      · simp [Part.shape, hobject, Value.literal?] at hshape
      · have hliteral := (Prod.mk.inj (Option.some.inj hshape)).2
        rw [triple_eq_of_literal hs hp hobject hliteral]

theorem triple_of_needs (h : e.Needs t A p) (hne : ∀ r, p ≠ .resource r) : p.triple? = some t := by
  obtain heq | heq := unkeyed_needs h hne
  · exact triple_of_middle heq
  · obtain ⟨r, -, rfl⟩ | ⟨l, -, rfl⟩ := target_eq heq
    · exact absurd rfl (hne r)
    · rfl

/-- An unkeyed vertex is there only if its triple is stored. -/
theorem stored_of_vertex (h : .vertex p ∈ e.imageWith M R) (hp : p.triple? = some t) :
    ∃ A, M[t]? = some A := by
  have hne : ∀ r, p ≠ .resource r := by
    rintro r rfl
    cases hp
  obtain ⟨u, A, hA, hneeds⟩ | ⟨r, -, rfl⟩ := vertex_mem_imageWith.1 h
  · obtain rfl := Option.some.inj ((triple_of_needs hneeds hne).symm.trans hp)
    exact ⟨A, hA⟩
  · exact absurd rfl (hne r)

end Encoder

end QuadStore
