import Mathlib
import QuadStore.Proofs.Encoder.Sketch
/-!
# The cast of a statement

The nodes of a statement's fragment play the parts of its triple, and then the fragment says what
the graph is to say of the triple.
-/

namespace QuadStore

namespace Content

variable {c : Content} {p : Part}

/-- What is said of the vertex that has the content. -/
def facts (c : Content) (p : Part) : Facts Part :=
  {f | (∃ entry ∈ c.properties, f = .property p entry) ∨
    (∃ x ∈ c.guarded, f = .property p x.entry) ∨ ∃ x ∈ c.index, f = .indexed p x.entry}

theorem facts_empty : facts {} p = ∅ := by
  simp [facts]

end Content

namespace Stroke

def facts (s : Stroke) : Facts Part :=
  {f | f = .bond s.bond ∨ ∃ entry ∈ s.properties, f = .edgeProperty s.bond entry}

end Stroke

namespace Layout

variable {l : Layout} {key : String} {entry : Entry}

theorem mem_graphSet : entry ∈ l.graphSet key ↔ ∃ c ∈ l.graphs, entry = ⟨key, c.text⟩ := by
  simp [graphSet, graphEntries, Std.ExtTreeSet.mem_insertMany_list, eq_comm]

theorem mem_contextIndex {x : IndexEntry} {release : Release} :
    x ∈ l.contextIndex release ↔
      ∃ c ∈ l.graphs, x = ⟨⟨l.vocabulary.contextIndexKey, c.text⟩, release⟩ := by
  simp [contextIndex, eq_comm]

theorem mem_literalIndex {x : IndexEntry} {literal : Literal} {release : Release} :
    x ∈ l.literalIndex literal release ↔
      x = ⟨⟨l.vocabulary.literalIndexKey, literal.encode⟩, release⟩ := by
  simp [literalIndex]

theorem mem_heldIndex {x : IndexEntry} {object : Value} :
    x ∈ l.heldIndex object ↔ ∃ literal, object = .literal literal ∧
      x = ⟨⟨l.vocabulary.literalIndexKey, literal.encode⟩, .withVertex⟩ := by
  cases object <;> simp [heldIndex, Value.literal?, mem_literalIndex]

variable {p : Part} {x : Fact Part (Bond Part)}

theorem mem_relationContent {policy : Policy} :
    x ∈ (l.relationContent policy).facts p ↔ policy.findsByContext ∧
      ∃ c ∈ l.graphs, x = .indexed p ⟨l.vocabulary.contextIndexKey, c.text⟩ := by
  unfold relationContent Content.facts
  split
  · rename_i hfinds
    simp only [Std.ExtTreeSet.not_mem_empty, false_and, exists_false, List.not_mem_nil, false_or,
      mem_contextIndex, Set.mem_ofPred_eq, hfinds, true_and]
    constructor
    · rintro ⟨y, ⟨c, hc, rfl⟩, rfl⟩
      exact ⟨c, hc, rfl⟩
    · rintro ⟨c, hc, rfl⟩
      exact ⟨_, ⟨c, hc, rfl⟩, rfl⟩
  · simp [*]

theorem mem_propertyContent {literal : Literal} {indexed : Bool} :
    x ∈ (l.propertyContent literal indexed).facts p ↔
      (∃ c ∈ l.graphs,
        x = .property p ⟨l.vocabulary.contextsKeyOf l.predicate literal.encode, c.text⟩) ∨
      x = .property p ⟨l.label, literal.encode⟩ ∨
      x = .indexed p ⟨l.vocabulary.literalIndexKey, literal.encode⟩ := by
  simp only [propertyContent, Content.facts, mem_graphSet, List.mem_singleton, mem_literalIndex,
    exists_eq_left, Set.mem_ofPred_eq]
  refine or_congr_left ?_
  constructor
  · rintro ⟨y, ⟨c, hc, rfl⟩, rfl⟩
    exact ⟨c, hc, rfl⟩
  · rintro ⟨c, hc, rfl⟩
    exact ⟨_, ⟨c, hc, rfl⟩, rfl⟩

theorem mem_heldContent {object : Value} {indexed : Bool} :
    x ∈ (l.heldContent object indexed).facts p ↔ ∃ literal, object = .literal literal ∧
      x = .indexed p ⟨l.vocabulary.literalIndexKey, literal.encode⟩ := by
  simp only [heldContent, Content.facts, mem_heldIndex, Std.ExtTreeSet.not_mem_empty, false_and, exists_false,
    List.not_mem_nil, false_or, Set.mem_ofPred_eq]
  constructor
  · rintro ⟨y, ⟨literal, hl, rfl⟩, rfl⟩
    exact ⟨literal, hl, rfl⟩
  · rintro ⟨literal, hl, rfl⟩
    exact ⟨_, ⟨literal, hl, rfl⟩, rfl⟩

theorem mem_recordingContent {object : Value} {indexed : Bool} :
    x ∈ (l.recordingContent object indexed).facts p ↔
      (∃ c ∈ l.graphs, x = .property p ⟨l.vocabulary.contextsKey, c.text⟩) ∨
      (∃ c ∈ l.graphs, x = .indexed p ⟨l.vocabulary.contextIndexKey, c.text⟩) ∨
      ∃ literal, object = .literal literal ∧
        x = .indexed p ⟨l.vocabulary.literalIndexKey, literal.encode⟩ := by
  simp only [recordingContent, Content.facts, mem_graphSet, List.mem_append, mem_contextIndex,
    mem_heldIndex, List.not_mem_nil, false_and, exists_false, false_or, Set.mem_ofPred_eq]
  constructor
  · rintro (⟨y, ⟨c, hc, rfl⟩, rfl⟩ | ⟨y, ⟨c, hc, rfl⟩ | ⟨literal, hl, rfl⟩, rfl⟩)
    · exact .inl ⟨c, hc, rfl⟩
    · exact .inr (.inl ⟨c, hc, rfl⟩)
    · exact .inr (.inr ⟨literal, hl, rfl⟩)
  · rintro (⟨c, hc, rfl⟩ | ⟨c, hc, rfl⟩ | ⟨literal, hl, rfl⟩)
    · exact .inl ⟨_, ⟨c, hc, rfl⟩, rfl⟩
    · exact .inr ⟨_, .inl ⟨c, hc, rfl⟩, rfl⟩
    · exact .inr ⟨_, .inr ⟨literal, hl, rfl⟩, rfl⟩

end Layout

namespace Encoder

variable {e : Encoder} {t : Triple} {C : UriSet} {f : Fragment} {parts : List Part}
  {x : Fact Part (Bond Part)}

theorem mem_layoutOf {c : Uri} : c ∈ (e.layoutOf t C).graphs ↔ c ∈ C :=
  Std.ExtTreeSet.mem_toList

/-- What a triple's parts hold is said of the triple. -/
theorem Depicts.of_content {p : Part} (h : x ∈ (e.contentOf t C p).facts p) : e.Depicts t C x := by
  unfold contentOf at h
  split at h
  · rename_i r hform
    split at h
    · subst_vars
      obtain ⟨hfinds, c, hc, rfl⟩ := Layout.mem_relationContent.1 h
      exact .relationIndex hform hfinds (mem_layoutOf.1 hc)
    · simp [Content.facts_empty] at h
  · rename_i l hform
    split at h
    · subst_vars
      obtain ⟨c, hc, rfl⟩ | rfl | rfl := Layout.mem_propertyContent.1 h
      · exact .propertyContext hform (mem_layoutOf.1 hc)
      · exact .property hform
      · exact .propertyIndex hform
    · simp [Content.facts_empty] at h
  · rename_i o hform
    split at h
    · subst_vars
      obtain ⟨l, rfl, rfl⟩ := Layout.mem_heldContent.1 h
      exact .literalIndex hform
    · simp [Content.facts_empty] at h
  · rename_i o hform
    split at h
    · rename_i hm
      obtain ⟨c, hc, rfl⟩ | ⟨c, hc, rfl⟩ | ⟨l, rfl, rfl⟩ := Layout.mem_recordingContent.1 h
      · exact .record hform hm (mem_layoutOf.1 hc)
      · exact .recordIndex hform hm (mem_layoutOf.1 hc)
      · simp only [middle?, hform, Option.some.injEq] at hm
        subst hm
        exact .holderIndex hform
    · simp [Content.facts_empty] at h

theorem Depicts.of_stroke {s : Stroke} (hs : s ∈ e.strokesOf t C) (h : x ∈ s.facts) :
    e.Depicts t C x := by
  have hthrough : s ∈ e.throughStrokes t C → e.Depicts t C x := by
    intro hs
    simp only [throughStrokes, List.mem_flatMap, Option.mem_toList, List.mem_cons,
      List.mem_map] at hs
    obtain ⟨m, hm, rfl | ⟨o, ho, rfl⟩⟩ := hs <;>
      simp only [Stroke.facts, Layout.structuralStroke, Std.ExtTreeSet.not_mem_empty, false_and,
        exists_false, or_false, Set.mem_ofPred_eq] at h
    · rw [h]
      exact .entering hm
    · rw [h]
      exact .leaving hm ho
  unfold strokesOf at hs
  split at hs
  · rename_i r hform
    rw [List.mem_singleton] at hs
    subst hs
    obtain rfl | ⟨entry, hentry, rfl⟩ := h
    · exact .relation hform
    · obtain ⟨c, hc, rfl⟩ := Layout.mem_graphSet.1 hentry
      exact .relationContext hform (mem_layoutOf.1 hc)
  · cases hs
  · rename_i o hform
    obtain hs | hs := List.mem_append.1 hs
    · exact hthrough hs
    · obtain ⟨c, hc, rfl⟩ := List.mem_map.1 hs
      simp only [Stroke.facts, Vocabulary.contextStroke, Std.ExtTreeSet.not_mem_empty, false_and,
        exists_false, or_false, Set.mem_ofPred_eq] at h
      rw [h]
      exact .context hform (Std.ExtTreeSet.mem_toList.1 hc)
  · exact hthrough hs

theorem relation_mem {r : Resource} (h : e.form t = .relation r) :
    ⟨⟨.resource t.subject, t.predicate.text, .resource r⟩, .relation,
      (e.layoutOf t C).graphSet e.vocabulary.contextsKey⟩ ∈ e.strokesOf t C := by
  simp only [strokesOf, h]
  exact List.mem_singleton_self _

theorem entering_mem {m : Part} (hm : e.middle? t = some m) :
    (e.layoutOf t C).structuralStroke (.resource t.subject) m ∈ e.throughStrokes t C := by
  simp [throughStrokes, hm]

theorem leaving_mem {m o : Part} (hm : e.middle? t = some m) (ho : e.target? t = some o) :
    (e.layoutOf t C).structuralStroke m o ∈ e.throughStrokes t C := by
  simp [throughStrokes, hm, ho]

theorem throughStrokes_subset {s : Stroke} (h : s ∈ e.throughStrokes t C) : s ∈ e.strokesOf t C := by
  have hmiddle : (e.middle? t).isSome := by
    simp only [throughStrokes, List.mem_flatMap, Option.mem_toList] at h
    obtain ⟨m, hm, -⟩ := h
    exact Option.isSome_iff_exists.2 ⟨m, hm⟩
  unfold strokesOf
  split
  · rename_i hform
    simp [middle?, hform] at hmiddle
  · rename_i hform
    simp [middle?, hform] at hmiddle
  · exact List.mem_append_left _ h
  · exact h

/-- What is said of a triple is said by whose its parts are, what they hold and its strokes. -/
theorem Depicts.cast (h : e.Depicts t C x) :
    (∃ p, e.Needs t C p ∧ x ∈ (e.vocabulary.identity p).facts p) ∨
      (∃ p, e.Needs t C p ∧ x ∈ (e.contentOf t C p).facts p) ∨
      ∃ s ∈ e.strokesOf t C, x ∈ s.facts := by
  cases h with
  | identity h hf => exact .inl ⟨_, h, hf⟩
  | relation h => exact .inr (.inr ⟨_, relation_mem h, .inl rfl⟩)
  | relationContext h hc =>
    exact .inr (.inr ⟨_, relation_mem h,
      .inr ⟨_, Layout.mem_graphSet.2 ⟨_, mem_layoutOf.2 hc, rfl⟩, rfl⟩⟩)
  | relationIndex h hfinds hc =>
    refine .inr (.inl ⟨_, .subject, ?_⟩)
    simp only [contentOf, h, if_true]
    exact Layout.mem_relationContent.2 ⟨hfinds, _, mem_layoutOf.2 hc, rfl⟩
  | property h =>
    refine .inr (.inl ⟨_, .subject, ?_⟩)
    simp only [contentOf, h, if_true]
    exact Layout.mem_propertyContent.2 (.inr (.inl rfl))
  | propertyContext h hc =>
    refine .inr (.inl ⟨_, .subject, ?_⟩)
    simp only [contentOf, h, if_true]
    exact Layout.mem_propertyContent.2 (.inl ⟨_, mem_layoutOf.2 hc, rfl⟩)
  | propertyIndex h =>
    refine .inr (.inl ⟨_, .subject, ?_⟩)
    simp only [contentOf, h, if_true]
    exact Layout.mem_propertyContent.2 (.inr (.inr rfl))
  | entering hm => exact .inr (.inr ⟨_, throughStrokes_subset (entering_mem hm), .inl rfl⟩)
  | leaving hm ho => exact .inr (.inr ⟨_, throughStrokes_subset (leaving_mem hm ho), .inl rfl⟩)
  | @context o c h hc =>
    refine .inr (.inr ⟨e.vocabulary.contextStroke (.middle t) c, ?_, .inl rfl⟩)
    simp only [strokesOf, h]
    exact List.mem_append_right _ (List.mem_map_of_mem (Std.ExtTreeSet.mem_toList.2 hc))
  | record h hm hc =>
    refine .inr (.inl ⟨_, .middle hm, ?_⟩)
    simp only [contentOf, h, hm, if_true]
    exact Layout.mem_recordingContent.2 (.inl ⟨_, mem_layoutOf.2 hc, rfl⟩)
  | recordIndex h hm hc =>
    refine .inr (.inl ⟨_, .middle hm, ?_⟩)
    simp only [contentOf, h, hm, if_true]
    exact Layout.mem_recordingContent.2 (.inr (.inl ⟨_, mem_layoutOf.2 hc, rfl⟩))
  | literalIndex h =>
    refine .inr (.inl ⟨.literal t, .target (by simp only [target?, h]), ?_⟩)
    simp only [contentOf, h, if_true]
    exact Layout.mem_heldContent.2 ⟨_, rfl, rfl⟩
  | holderIndex h =>
    have hm : e.middle? t = some (.holder t) := by simp only [middle?, h]
    refine .inr (.inl ⟨.holder t, .middle hm, ?_⟩)
    simp only [contentOf, h, hm, if_true]
    exact Layout.mem_recordingContent.2 (.inr (.inr ⟨_, rfl, rfl⟩))

/-! ## The cast of a fragment -/

/-- The part that a node plays. -/
def role (t : Triple) (parts : List Part) (i : Nat) : Part := parts.getD i (.resource t.subject)

namespace Sketches

theorem part (h : e.Sketches t C f parts) {i : Nat} (hi : i < f.nodes.length) :
    parts[i]? = some (role t parts i) := by
  rw [h.draws.length] at hi
  simp [role, List.getElem?_eq_getElem hi]

theorem standsFor (h : e.Sketches t C f parts) {i : Nat} {n : Node} (hn : f.nodes[i]? = some n) :
    Fragment.StandsFor e.vocabulary t (e.contentOf t C) (role t parts i) n :=
  h.draws.node i n _ hn (h.part (List.getElem?_eq_some_iff.1 hn).1)

theorem needs_role (h : e.Sketches t C f parts) {i : Nat} (hi : i < f.nodes.length) :
    e.Needs t C (role t parts i) :=
  (h.needs _).1 (List.mem_of_getElem? (h.part hi))

/-- Every part that the triple needs is played. -/
theorem player (h : e.Sketches t C f parts) {p : Part} (hp : e.Needs t C p) :
    ∃ i n, f.nodes[i]? = some n ∧ role t parts i = p := by
  obtain ⟨i, hi⟩ := List.mem_iff_getElem?.1 ((h.needs p).2 hp)
  have hlt : i < f.nodes.length := by
    rw [h.draws.length]
    exact (List.getElem?_eq_some_iff.1 hi).1
  exact ⟨i, _, List.getElem?_eq_getElem hlt, Option.some.inj ((h.part hlt).symm.trans hi)⟩

theorem casts (h : e.Sketches t C f parts) : f.Casts e.vocabulary.identity (role t parts) where
  identity i n hn := (h.standsFor hn).identity
  injective i j hi hj heq := by
    have hparts : parts[i]? = parts[j]? := by rw [h.part hi, h.part hj, heq]
    exact (List.getElem?_inj (by rwa [← h.draws.length]) h.draws.nodup).1 hparts
  ends := h.draws.ends

/-- The fragment says of its parts what the graph is to say of the triple. -/
theorem facts (h : e.Sketches t C f parts) : f.facts (role t parts) = e.depiction t C := by
  have hstrokes : ∀ s, s ∈ e.strokesOf t C ↔ ∃ y ∈ f.edges, Fragment.stroke (role t parts) y = s :=
    fun s => by
      rw [← h.draws.strokes, List.mem_map]
      rfl
  ext x
  simp only [Fragment.facts, Fragment.identityFacts, Fragment.contentFacts, Fragment.edgeFacts,
    Prod.exists, List.mem_zipIdx_iff_getElem?, Set.mem_union, Set.mem_ofPred_eq, or_assoc]
  constructor
  · rintro (⟨n, i, hn, hx⟩ | ⟨n, i, hn, hx⟩ | ⟨y, hy, hx⟩)
    · have hlt := (List.getElem?_eq_some_iff.1 hn).1
      rw [(h.standsFor hn).identity] at hx
      exact .identity (h.needs_role hlt) hx
    · refine Depicts.of_content (p := role t parts i) ?_
      rw [← (h.standsFor hn).content]
      exact hx
    · exact Depicts.of_stroke ((hstrokes _).2 ⟨y, hy, rfl⟩) hx
  · intro hx
    obtain ⟨p, hp, hx⟩ | ⟨p, hp, hx⟩ | ⟨s, hs, hx⟩ := Depicts.cast hx
    · obtain ⟨i, n, hn, rfl⟩ := h.player hp
      exact .inl ⟨n, i, hn, (h.standsFor hn).identity ▸ hx⟩
    · obtain ⟨i, n, hn, rfl⟩ := h.player hp
      refine .inr (.inl ⟨n, i, hn, ?_⟩)
      rw [← (h.standsFor hn).content] at hx
      exact hx
    · obtain ⟨y, hy, rfl⟩ := (hstrokes s).1 hs
      exact .inr (.inr ⟨y, hy, hx⟩)

end Sketches

end Encoder

end QuadStore
