import Mathlib
import QuadStore.Proofs.Encoder.Casting
import QuadStore.Proofs.Encoder.Middles
import QuadStore.Proofs.Fragment.Clearing
/-!
# Texts of triples

A literal under a predicate that is indexed by word is a text of the vertex that holds it. The nodes
of a fragment carry the texts of its triple, and a write to the graph hands them on to the text
index.
-/

namespace QuadStore

namespace Encoder

/-- The texts of a triple, with the vertex that has them. -/
def texts (e : Encoder) (t : Triple) : Set (Part × FulltextEntry) :=
  {y | ∃ l, t.object = .literal l ∧ e.fulltext.covers t.predicate ∧ e.literalVertex? t = some y.1 ∧
    y.2 = ⟨t.predicate.text, l.value⟩}

variable {e : Encoder} {t u : Triple} {C : UriSet} {f : Fragment} {parts : List Part}
  {P : Placement Part} {a : Assignment} {p : Part} {x : FulltextEntry} {y : Part × FulltextEntry}

theorem mem_texts : (p, x) ∈ e.texts t ↔ ∃ l, t.object = .literal l ∧ e.fulltext.covers t.predicate ∧
    e.literalVertex? t = some p ∧ x = ⟨t.predicate.text, l.value⟩ := Iff.rfl

theorem texts_of_relation {r : Resource} (hform : e.form t = .relation r) : (p, x) ∉ e.texts t := by
  rintro ⟨l, hl, -⟩
  rw [object_of_form hform] at hl
  cases hl

theorem mem_layoutTexts {l : Layout} {literal : Literal} {indexed : Bool} :
    x ∈ l.fulltext literal indexed ↔ indexed ∧ x = ⟨l.label, literal.value⟩ := by
  cases indexed <;> simp [Layout.fulltext]

/-- The node of the vertex that holds the literal carries the text of the literal. -/
theorem fulltext_of_literalVertex {l : Literal} (hl : t.object = .literal l)
    (hp : e.literalVertex? t = some p) : (e.contentOf t C p).fulltext =
      (e.layoutOf t C).fulltext l (e.fulltext.covers t.predicate) := by
  have hsame : ∀ {x : Form}, e.form t = x → x.object = .literal l := fun hform =>
    (object_of_form hform).symm.trans hl
  rcases literalVertex?_eq_some.1 hp with ⟨m, hform, rfl⟩ | ⟨m, hform, rfl⟩ | ⟨m, hform, rfl⟩
  · obtain rfl := Value.literal.inj (hsame hform)
    simp only [contentOf, hform, if_true]
    rfl
  · obtain rfl := Value.literal.inj (hsame hform)
    simp only [contentOf, hform, if_true]
    rfl
  · obtain rfl := Value.literal.inj (hsame hform)
    simp only [contentOf, hform, middle?, if_true]
    rfl

/-- No other node carries texts. -/
theorem fulltext_of_other (h : e.literalVertex? t ≠ some p) : (e.contentOf t C p).fulltext = [] := by
  unfold contentOf
  split
  · split <;> rfl
  · rename_i l hform
    have hne : p ≠ .resource t.subject := fun hp =>
      h (literalVertex?_eq_some.2 (.inl ⟨l, hform, hp⟩))
    rw [if_neg hne]
  · rename_i o hform
    cases o with
    | resource r => split <;> rfl
    | literal l =>
      have hne : p ≠ .literal t := fun hp =>
        h (literalVertex?_eq_some.2 (.inr (.inl ⟨l, hform, hp⟩)))
      rw [if_neg hne]
  · rename_i o hform
    cases o with
    | resource r => split <;> rfl
    | literal l =>
      have hne : e.middle? t ≠ some p := fun hp => by
        simp only [middle?, hform, Option.some.injEq] at hp
        exact h (literalVertex?_eq_some.2 (.inr (.inr ⟨l, hform, hp.symm⟩)))
      rw [if_neg hne]

/-- The node of a part carries the texts that the part has. -/
theorem mem_fulltext : x ∈ (e.contentOf t C p).fulltext ↔ (p, x) ∈ e.texts t := by
  by_cases hp : e.literalVertex? t = some p
  · obtain ⟨l, hl⟩ := literal_of_literalVertex hp
    simp only [fulltext_of_literalVertex hl hp, mem_layoutTexts, mem_texts, hl, hp,
      Value.literal.injEq, exists_eq_left', true_and]
    rfl
  · rw [fulltext_of_other hp]
    refine iff_of_false List.not_mem_nil ?_
    rintro ⟨_, _, _, hvertex, _⟩
    exact hp hvertex

/-- The vertex with the text of a triple is one that the triple needs. -/
theorem needs_of_texts (h : (p, x) ∈ e.texts t) : e.Needs t C p := by
  obtain ⟨l, -, -, hp, -⟩ := h
  rcases literalVertex?_eq_some.1 hp with ⟨l, -, rfl⟩ | ⟨l, hl, rfl⟩ | ⟨l, hl, rfl⟩
  · exact .subject
  · exact .target (by simp only [target?, hl])
  · exact .middle (by simp only [middle?, hl])

/-! ## Texts in common -/

theorem dense_of_property {l : Literal} (h : e.form t = .property l) : e.policy = .dense := by
  unfold form at h
  cases hpolicy : e.policy with
  | dense => rfl
  | verboseQuad | alwaysMiddle =>
    simp only [hpolicy] at h
    split at h
    · split at h <;> cases h
    · cases h

/-- A vertex that holds a literal is the subject's, or tells the triple. -/
theorem literalVertex_tells (h : e.literalVertex? t = some p) :
    (∃ l, e.form t = .property l) ∨ p.triple? = some t := by
  rcases literalVertex?_eq_some.1 h with ⟨l, hform, -⟩ | ⟨l, -, rfl⟩ | ⟨l, -, rfl⟩
  · exact .inl ⟨l, hform⟩
  · exact .inr rfl
  · exact .inr rfl

/-- Only where literals are properties do two triples have a text in common. -/
theorem dense_of_texts (ht : y ∈ e.texts t) (hu : y ∈ e.texts u) (hne : t ≠ u) :
    e.policy = .dense := by
  obtain ⟨-, -, -, ht, -⟩ := ht
  obtain ⟨-, -, -, hu, -⟩ := hu
  obtain ⟨l, hform⟩ | ht := literalVertex_tells ht
  · exact dense_of_property hform
  obtain ⟨l, hform⟩ | hu := literalVertex_tells hu
  · exact dense_of_property hform
  exact absurd (Option.some.inj (ht.symm.trans hu)) hne

/-- Where literals are properties, those of one subject and predicate have the text in common if
they have the words in common. -/
theorem texts_of_twin {l m : Literal} (hpolicy : e.policy = .dense) (ht : t.object = .literal l)
    (hu : u.object = .literal m) (hsubject : t.subject = u.subject)
    (hpredicate : t.predicate = u.predicate) (hvalue : l.value = m.value) :
    e.texts t = e.texts u := by
  have hvertex : ∀ {t : Triple} {l : Literal}, t.object = .literal l →
      e.literalVertex? t = some (.resource t.subject) := fun {_ l} hl =>
    literalVertex?_eq_some.2 (.inl ⟨l, by simp only [form, hl, hpolicy], rfl⟩)
  ext ⟨p, x⟩
  simp only [mem_texts, ht, hu, Value.literal.injEq, exists_eq_left', hvertex ht, hvertex hu,
    hsubject, hpredicate, hvalue]

end Encoder

/-- The entry of a text index for a text of a vertex. -/
def Placement.text {ν : Type} (P : Placement ν) (y : ν × FulltextEntry) : TextEntry :=
  ⟨P.vertex y.1, y.2.predicate, y.2.text⟩

namespace Encoder

variable {e : Encoder} {t : Triple} {C : UriSet} {f : Fragment} {parts : List Part}
  {P : Placement Part} {a : Assignment} {c : TextChange} {r : Removal}

namespace Sketches

/-- A node carries the texts of its role. -/
theorem mem_role (h : e.Sketches t C f parts) {i : Nat} {n : Node} {x : FulltextEntry}
    (hn : f.nodes[i]? = some n) : x ∈ n.fulltext ↔ (role t parts i, x) ∈ e.texts t := by
  rw [← mem_fulltext (C := C), ← (h.standsFor hn).content]
  rfl

/-- What holds for a text at a node holds for a text of the triple. -/
theorem exists_text (h : e.Sketches t C f parts) {Q : Nat → FulltextEntry → Prop}
    {S : Part × FulltextEntry → Prop} (hQ : ∀ i n x, f.nodes[i]? = some n → x ∈ n.fulltext →
      (Q i x ↔ S (role t parts i, x))) :
    (∃ i n x, f.nodes[i]? = some n ∧ x ∈ n.fulltext ∧ Q i x) ↔ ∃ y ∈ e.texts t, S y := by
  constructor
  · rintro ⟨i, n, x, hn, hx, hq⟩
    exact ⟨_, (h.mem_role hn).1 hx, (hQ i n x hn hx).1 hq⟩
  · rintro ⟨⟨p, x⟩, hy, hq⟩
    obtain ⟨i, n, hn, rfl⟩ := h.player (C := C) (needs_of_texts hy)
    have hx := (h.mem_role hn).2 hy
    exact ⟨i, n, x, hn, hx, (hQ i n x hn hx).2 hq⟩

/-- Merging hands on the texts of the triple. -/
theorem mem_mergedTexts (h : e.Sketches t C f parts)
    (ha : ∀ (i : Nat) (n : Node), f.nodes[i]? = some n → a[i]? = some (P.vertex (role t parts i))) :
    c ∈ f.mergedTexts a ↔ ∃ y ∈ e.texts t, c = .insert (P.text y) := by
  have hlisted : c ∈ f.mergedTexts a ↔ ∃ i n x, f.nodes[i]? = some n ∧ x ∈ n.fulltext ∧
      c = .insert (P.text (role t parts i, x)) := by
    simp only [Fragment.mergedTexts, List.mem_flatMap, Prod.exists, List.mem_zipIdx_iff_getElem?]
    constructor
    · rintro ⟨n, i, hn, hc⟩
      rw [ha i n hn, Option.elim_some, Fragment.textEntries, List.map_map] at hc
      obtain ⟨x, hx, rfl⟩ := List.mem_map.1 hc
      exact ⟨i, n, x, hn, hx, rfl⟩
    · rintro ⟨i, n, x, hn, hx, rfl⟩
      refine ⟨n, i, hn, ?_⟩
      rw [ha i n hn, Option.elim_some, Fragment.textEntries, List.map_map]
      exact List.mem_map_of_mem hx
  rw [hlisted]
  exact h.exists_text fun _ _ _ _ _ => Iff.rfl

/-- Removal takes back the texts of the triple if it marked them. -/
theorem mem_removedTexts {F : Facts Part} {goes : Prop} (h : e.Sketches t C f parts)
    (ha : f.Placed (role t parts) P F a) (hthere : goes → ∀ y ∈ e.texts t, .vertex y.1 ∈ F)
    (hmarked : ∀ (i : Nat) (n : Node) (x : FulltextEntry), f.nodes[i]? = some n →
      x ∈ n.fulltext →
        (P.vertex (role t parts i) ∈ r.dead ∨ (i, x.predicate) ∈ r.released ↔ goes)) :
    c ∈ f.removedTexts a r ↔ goes ∧ ∃ y ∈ e.texts t, c = .erase (P.text y) := by
  have hlisted : c ∈ f.removedTexts a r ↔ ∃ i n x, f.nodes[i]? = some n ∧ x ∈ n.fulltext ∧
      (goes ∧ c = .erase (P.text (role t parts i, x))) := by
    simp only [Fragment.removedTexts, List.mem_flatMap, Prod.exists, List.mem_zipIdx_iff_getElem?]
    constructor
    · rintro ⟨n, i, hn, hc⟩
      split at hc
      · cases hc
      · rename_i v hv
        obtain ⟨-, -, rfl⟩ := (ha _ _).1 hv
        obtain ⟨x, hx, rfl⟩ := List.mem_map.1 hc
        rw [List.mem_filter, Bool.or_eq_true, List.contains_iff_mem, List.contains_iff_mem] at hx
        exact ⟨i, n, x, hn, hx.1, (hmarked i n x hn hx.1).1 hx.2, rfl⟩
    · rintro ⟨i, n, x, hn, hx, hgoes, rfl⟩
      have hassigned : a[i]? = some (P.vertex (role t parts i)) :=
        ha.assigned hn rfl (hthere hgoes _ ((h.mem_role hn).1 hx))
      refine ⟨n, i, hn, ?_⟩
      rw [hassigned]
      refine List.mem_map.2 ⟨x, ?_, rfl⟩
      rw [List.mem_filter, Bool.or_eq_true, List.contains_iff_mem, List.contains_iff_mem]
      exact ⟨hx, (hmarked i n x hn hx).2 hgoes⟩
  rw [hlisted, h.exists_text (S := fun y => goes ∧ c = .erase (P.text y)) fun _ _ _ _ _ => Iff.rfl]
  constructor
  · rintro ⟨y, hy, hgoes, rfl⟩
    exact ⟨hgoes, y, hy, rfl⟩
  · rintro ⟨hgoes, y, hy, rfl⟩
    exact ⟨y, hy, hgoes, rfl⟩

end Sketches

end Encoder

end QuadStore
