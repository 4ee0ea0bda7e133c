import Mathlib
import QuadStore.Proofs.Encoder.Dropping
import QuadStore.Proofs.View.Statements
/-!
# Access paths

In a graph that can be read each way to look for statements with a subject, with a resource or with
a literal as object lists what can be read of them, and nothing else. In the graph of a dataset so
does the way to look for the statements in a named graph.
-/

namespace QuadStore

namespace Reads

variable {v : Vocabulary} {F : Facts Part} {σ : Site} {y : Statement} {r s : Resource} {t : Triple}

/-- Edges under a predicate lead away from the subject, unless the statement is a value. -/
theorem exists_outgoing (hF : Legible v F) (h : Reads v F σ y) :
    (∃ b, .bond b ∈ F ∧ Strand y.triple σ b ∧ b.Meets (.resource s) .outgoing) ↔
      y.subject = s ∧ σ ≠ .value := by
  constructor
  · rintro ⟨b, -, hstrand, hmeets⟩
    have hsource : b.source = .resource s := hmeets
    cases hstrand with
    | relation => exact ⟨Part.resource.inj hsource, by simp⟩
    | entering => exact ⟨Part.resource.inj hsource, by simp⟩
    | leaving hm => exact absurd hsource (Part.ne_resource_of_middleOf hm)
  · rintro ⟨rfl, hne⟩
    obtain ⟨f, hf, hstates⟩ := h.states
    cases hstates with
    | relation ho => exact ⟨_, hf, .relation ho, rfl⟩
    | value => exact absurd rfl hne
    | around hm => exact ⟨_, hF.entering _ _ hm hf, .entering hm, rfl⟩

/-- An edge under a predicate leads to the object, if that is a resource. -/
theorem exists_incoming (hF : Legible v F) (h : Reads v F σ y) :
    (∃ b, .bond b ∈ F ∧ Strand y.triple σ b ∧ b.Meets (.resource r) .incoming) ↔
      y.object = .resource r := by
  constructor
  · rintro ⟨b, -, hstrand, hmeets⟩
    have htarget : b.target = .resource r := hmeets
    cases hstrand with
    | relation ho =>
      rw [← Part.resource.inj htarget]
      exact ho
    | entering hm => exact absurd htarget (Part.ne_resource_of_middleOf hm)
    | @leaving m o hm ho =>
      obtain rfl : o = .resource r := htarget
      obtain rfl | rfl := Part.middleOf_eq hm
      · exact Part.onward_resource.1 ho
      · cases ho
  · intro hobject
    obtain ⟨f, hf, hstates⟩ := h.states
    cases hstates with
    | relation ho =>
      cases hobject.symm.trans ho
      exact ⟨_, hf, .relation ho, rfl⟩
    | value ho => cases hobject.symm.trans ho
    | around hm =>
      obtain rfl | rfl := Part.middleOf_eq hm
      · have ho := Part.onward_resource.2 hobject
        exact ⟨_, hF.leaving _ _ _ hm ho hf, .leaving hm ho, rfl⟩
      · obtain ⟨l, hl, -⟩ := hF.held _ _ (.inr rfl) hf
        cases hobject.symm.trans hl

/-- The subject of a statement that can be read has a vertex. -/
theorem subject_mem (hF : Legible v F) (h : Reads v F σ y) :
    .vertex (.resource y.subject) ∈ F := by
  obtain ⟨f, hf, hstates⟩ := h.states
  cases hstates with
  | relation => exact (hF.grounded _ hf).2.1
  | value => exact hF.grounded _ hf
  | around hm => exact (hF.grounded _ (hF.entering _ _ hm hf)).2.1

/-- So does its object, if that is a resource. -/
theorem object_mem (hF : Legible v F) (h : Reads v F σ y) (hr : y.object = .resource r) :
    .vertex (.resource r) ∈ F := by
  obtain ⟨b, hb, -, htarget⟩ := (h.exists_incoming hF).2 hr
  obtain ⟨-, -, hthere⟩ := hF.grounded _ hb
  rwa [show b.target = .resource r from htarget] at hthere

/-- An edge under a predicate leads to a literal vertex from the middle vertex of its triple. -/
theorem exists_incoming_literal (hF : Legible v F) (ht : .vertex (.literal t) ∈ F) :
    (∃ b, .bond b ∈ F ∧ Strand y.triple σ b ∧ b.Meets (.literal t) .incoming) ↔
      y.triple = t ∧ σ = .around (.middle t) := by
  constructor
  · rintro ⟨b, -, hstrand, hmeets⟩
    have htarget : b.target = .literal t := hmeets
    cases hstrand with
    | relation => cases htarget
    | @entering m hm =>
      obtain rfl : m = .literal t := htarget
      cases hm
    | @leaving m o hm ho =>
      obtain rfl : o = .literal t := htarget
      obtain rfl | rfl := Part.middleOf_eq hm
      · obtain ⟨rfl, -⟩ := Part.onward_literal.1 ho
        exact ⟨rfl, rfl⟩
      · cases ho
  · rintro ⟨rfl, rfl⟩
    obtain ⟨l, hl, -⟩ := hF.held _ _ (.inl rfl) ht
    have ho := Part.onward_literal.2 ⟨rfl, l, hl⟩
    exact ⟨_, hF.leaving _ _ _ rfl ho (hF.middle _ ht), .leaving rfl ho, rfl⟩

end Reads

/-- The vertex at which a triple is found from its literal. -/
inductive FoundAt (t : Triple) : Site → Part → Prop where
  | value : FoundAt t .value (.resource t.subject)
  | literal : FoundAt t (.around (.middle t)) (.literal t)
  | middle {m : Part} (h : m.middleOf? = some t) : FoundAt t (.around m) m

theorem Legible.value_tells {v : Vocabulary} {F : Facts Part} {p : Part} {key x : String}
    (hF : Legible v F) (hv : v.Valid) (h : .property p ⟨key, x⟩ ∈ F)
    (hkey : isInternal key = false) : ∃ (u : Uri) (l : Literal), key = u.text ∧ x = l.encode := by
  have hne : ∀ {name}, isInternal name → key ≠ name := ne_of_isInternal hkey
  generalize hentry : (⟨key, x⟩ : Entry) = entry at h
  cases hF.property _ _ h with
  | identity hhas =>
    have hword := Vocabulary.has_mem_words hhas
    rw [← hentry] at hword
    exact absurd rfl (hne (hv.internal _ hword))
  | value s u l => exact ⟨u, l, (Entry.mk.inj hentry).1, (Entry.mk.inj hentry).2⟩
  | valueContext s u l c =>
    exact absurd (Entry.mk.inj hentry).1 (hne (hv.isInternal_contextsKeyOf _ _))
  | record hm c =>
    exact absurd (Entry.mk.inj hentry).1 (hne (hv.internal _ (Vocabulary.contextsKey_mem v)))

namespace Encoder

section Readable

variable {e : Encoder} {F : Facts Part} {g : Graph} {P : Placement Part} {t u : Triple}
  {m p : Part} {r s : Resource} {l : Literal} {y : Statement} {σ : Site}
  (hv : e.vocabulary.Valid) (hF : Legible e.vocabulary F) (hg : g.Shows P F)

omit hv in
theorem vertexFor_ok (hF : Legible e.vocabulary F) (hg : g.Shows P F)
    (hr : .vertex (.resource r) ∈ F) :
    (e.view g).vertexFor r = some (P.vertex (.resource r)) :=
  hg.lookup?_eq_some.2 ⟨_, hF.settled.key_mem hr rfl, rfl⟩

include hv hF hg

theorem vertexFor_eq_none (hr : .vertex (.resource r) ∉ F) : (e.view g).vertexFor r = none := by
  refine hg.lookup?_eq_none.2 fun p hp => ?_
  have hvertex : .vertex p ∈ F := hF.grounded _ hp
  rw [hv.keyedOnce p (.resource r) _ (hF.settled.key p _ hp) rfl] at hvertex
  exact hr hvertex

/-! ## Edges -/

/-- A reading that tells the statement of each edge lists those that have an edge here. -/
theorem edges_list (hp : .vertex p ∈ F) (predicate : Option Uri) {direction : Direction}
    {f : EdgeId × Edge → Except Error (Option Statement)}
    (h : ∀ t σ b, .bond b ∈ F → Strand t σ b → b.Meets p direction →
      ∃ C, f (P.edgeOf g b) = .ok (some ⟨t, C⟩) ∧ Reads e.vocabulary F σ ⟨t, C⟩) :
    Lists (((g.edgesAt (P.vertex p) (predicate.map (·.text)) direction).filter
        View.underPredicate).filterMapM f) fun y =>
      (∀ u ∈ predicate, u = y.predicate) ∧ ∃ σ, Reads e.vocabulary F σ y ∧
        ∃ b, .bond b ∈ F ∧ Strand y.triple σ b ∧ b.Meets p direction := by
  refine (Lists.keptEdges (R := fun b y => ∃ σ, Reads e.vocabulary F σ y ∧ Strand y.triple σ b)
    hg hp ?_).congr ?_
  · intro b hb hmeets hlabel hkeep
    obtain ⟨t, σ, hstrand⟩ := hF.strand_of_bond hv hb (View.underPredicate_iff.1 hkeep)
    obtain ⟨C, hread, hreads⟩ := h t σ b hb hstrand hmeets
    refine ⟨some ⟨t, C⟩, hread, fun y => ?_⟩
    rw [Option.some.injEq]
    constructor
    · rintro rfl
      exact ⟨σ, hreads, hstrand⟩
    · rintro ⟨τ, hy, hyb⟩
      obtain ⟨ht, rfl⟩ := hstrand.unique hyb
      exact hreads.unique hy ht
  · intro y
    have hlabel : ∀ {σ : Site} {b : Bond Part}, Strand y.triple σ b →
        ((∀ l ∈ predicate.map (·.text), l = b.label) ↔ ∀ u ∈ predicate, u = y.predicate) := by
      intro σ b hb
      simp only [Option.mem_def, Option.map_eq_some_iff, forall_exists_index, and_imp,
        forall_apply_eq_imp_iff₂, hb.label_eq]
      exact forall₂_congr fun u _ => ⟨fun h => Uri.ext h, congrArg Uri.text⟩
    constructor
    · rintro ⟨b, ⟨hb, hmeets, hb'⟩, -, σ, hy, hyb⟩
      exact ⟨(hlabel hyb).1 hb', σ, hy, b, hb, hyb, hmeets⟩
    · rintro ⟨hpredicate, σ, hy, b, hb, hyb, hmeets⟩
      refine ⟨b, ⟨hb, hmeets, (hlabel hyb).2 hpredicate⟩, ?_, σ, hy, hyb⟩
      rw [View.underPredicate_iff, hyb.label_eq]
      exact y.triple.predicate.not_isInternal

theorem statementOfEdge_middle (hm : m.middleOf? = some t) (hp : .vertex m ∈ F)
    (d : EdgeId × Edge) :
    ∃ C, (e.view g).statementOfEdge d (P.vertex m) = .ok (some ⟨t, C⟩) ∧
      Reads e.vocabulary F (.around m) ⟨t, C⟩ := by
  simp only [View.statementOfEdge, isMiddle_ok hv hF hg hp, Part.ofKind_of_middleOf hm, ok_bind,
    if_true]
  exact middleStatement_reads hv hF hg hm hp

theorem statementOfEdge_relation (ho : t.object = .resource r)
    (hb : .bond ⟨.resource t.subject, t.predicate.text, .resource r⟩ ∈ F)
    (hs : .vertex (.resource s) ∈ F) :
    ∃ C, (e.view g).statementOfEdge (P.edgeOf g ⟨.resource t.subject, t.predicate.text,
        .resource r⟩) (P.vertex (.resource s)) = .ok (some ⟨t, C⟩) ∧
      Reads e.vocabulary F .relation ⟨t, C⟩ := by
  have hkind : (Part.resource s).ofKind middleKind = false := rfl
  simp only [View.statementOfEdge, isMiddle_ok hv hF hg hs, hkind, ok_bind, Bool.false_eq_true,
    if_false]
  exact edgeStatement_reads hv hF hg ho hb

/-- The edges to the vertex of a resource are of the statements with it as object. -/
theorem statementsTo_lists (hr : .vertex (.resource r) ∈ F) (predicate : Option Uri) :
    Lists ((e.view g).statementsTo (P.vertex (.resource r)) predicate) fun y =>
      (∃ σ, Reads e.vocabulary F σ y) ∧ (∀ u ∈ predicate, u = y.predicate) ∧
        y.object = .resource r := by
  simp only [View.statementsTo, Graph.findEdges_ok (hg.vertex_mem hr), View.stored, ok_bind]
  refine (edges_list hv hF hg hr predicate fun t σ b hb hstrand hmeets => ?_).congr fun y => ?_
  · have htarget : b.target = .resource r := hmeets
    cases hstrand with
    | relation ho =>
      exact statementOfEdge_relation hv hF hg ho hb (hF.grounded _ hb).2.1
    | entering hm => exact absurd htarget (Part.ne_resource_of_middleOf hm)
    | leaving hm ho => exact statementOfEdge_middle hv hF hg hm (hF.grounded _ hb).2.1 _
  · constructor
    · rintro ⟨hpredicate, σ, hy, hb⟩
      exact ⟨⟨σ, hy⟩, hpredicate, (hy.exists_incoming hF).1 hb⟩
    · rintro ⟨⟨σ, hy⟩, hpredicate, hobject⟩
      exact ⟨hpredicate, σ, hy, (hy.exists_incoming hF).2 hobject⟩

/-! ## Values -/

/-- The values of one predicate. -/
theorem predicateValues_list (hs : .vertex (.resource s) ∈ F) (predicate : Uri) :
    Lists (((g.propertiesOf (P.vertex (.resource s))).values predicate.text).mapM
        ((e.view g).propertyStatement (P.vertex (.resource s)) s predicate)) fun y =>
      Reads e.vocabulary F .value y ∧ y.subject = s ∧ y.predicate = predicate := by
  have hvalue : ∀ x, x ∈ (g.propertiesOf (P.vertex (.resource s))).values predicate.text ↔
      .property (.resource s) ⟨predicate.text, x⟩ ∈ F := fun x => by
    rw [EntrySet.mem_values, hg.mem_propertiesOf hs]
  refine (Lists.mapM (R := fun x y => Reads e.vocabulary F .value y ∧ y.subject = s ∧
    y.predicate = predicate ∧ ∃ l, y.object = .literal l ∧ x = l.encode) ?_).congr fun y => ?_
  · intro x hx
    have hx := (hvalue x).1 hx
    obtain ⟨-, l, -, rfl⟩ := hF.value_tells hv hx predicate.not_isInternal
    obtain ⟨C, hread, hreads⟩ :=
      propertyStatement_reads (t := ⟨s, predicate, .literal l⟩) hv hF hg rfl hx
    refine ⟨_, hread, fun y => ?_⟩
    constructor
    · rintro ⟨hy, hs, hp, l', hl, heq⟩
      refine hy.unique hreads (Triple.ext hs hp ?_)
      rw [Literal.encode_injective heq]
      exact hl
    · rintro rfl
      exact ⟨hreads, rfl, rfl, l, rfl, rfl⟩
  · constructor
    · rintro ⟨x, -, hy, hsub, hp, -⟩
      exact ⟨hy, hsub, hp⟩
    · rintro ⟨hy, rfl, rfl⟩
      obtain ⟨f, hf, hstates⟩ := hy.states
      cases hstates with
      | value hl => exact ⟨_, (hvalue _).2 hf, hy, rfl, rfl, _, hl, rfl⟩

/-- The values of some predicates, which are those of the keys. -/
theorem keyValues_list (hs : .vertex (.resource s) ∈ F) {predicate : Option Uri}
    {keys : List String} (hkeys : ∀ key, key ∈ keys ↔ (∃ x, .property (.resource s) ⟨key, x⟩ ∈ F) ∧
      isInternal key = false ∧ ∀ u ∈ predicate, u.text = key) :
    Lists (do
      return (← keys.mapM fun key => do
        let predicate ← View.readUri key
        (← View.stored (g.property (P.vertex (.resource s)) key)).mapM
          ((e.view g).propertyStatement (P.vertex (.resource s)) s predicate)).flatten) fun y =>
      Reads e.vocabulary F .value y ∧ (∀ u ∈ predicate, u = y.predicate) ∧ y.subject = s := by
  refine (Lists.flatMapM (R := fun key y => Reads e.vocabulary F .value y ∧ y.subject = s ∧
    y.predicate.text = key) ?_).congr fun y => ?_
  · intro key hkey
    obtain ⟨⟨x, hx⟩, hinternal, -⟩ := (hkeys key).1 hkey
    obtain ⟨u, -, rfl, -⟩ := hF.value_tells hv hx hinternal
    rw [readUri_text, ok_bind, Graph.property_ok (hg.vertex_mem hs), View.stored, ok_bind]
    exact (predicateValues_list hv hF hg hs u).congr fun y => by
      rw [show y.predicate = u ↔ y.predicate.text = u.text from ⟨congrArg _, Uri.ext⟩]
  · constructor
    · rintro ⟨key, hkey, hy, hsub, rfl⟩
      obtain ⟨-, -, hp⟩ := (hkeys _).1 hkey
      exact ⟨hy, fun u hu => Uri.ext (hp u hu), hsub⟩
    · rintro ⟨hy, hp, rfl⟩
      obtain ⟨f, hf, hstates⟩ := hy.states
      cases hstates with
      | value hl =>
        exact ⟨_, (hkeys _).2 ⟨⟨_, hf⟩, y.triple.predicate.not_isInternal,
          fun u hu => congrArg Uri.text (hp u hu)⟩, hy, rfl, rfl⟩

theorem propertyStatements_lists (hs : .vertex (.resource s) ∈ F) (predicate : Option Uri) :
    Lists ((e.view g).propertyStatements (P.vertex (.resource s)) predicate) fun y =>
      Reads e.vocabulary F .value y ∧ (∀ u ∈ predicate, u = y.predicate) ∧ y.subject = s := by
  have hkeys : ∀ key, key ∈ ((g.propertiesOf (P.vertex (.resource s))).keys.filter fun key =>
      !isInternal key && predicate.all fun p => p.text == key) ↔
      (∃ x, .property (.resource s) ⟨key, x⟩ ∈ F) ∧ isInternal key = false ∧
        ∀ u ∈ predicate, u.text = key := by
    intro key
    rw [List.mem_filter, Bool.and_eq_true, Bool.not_eq_true', EntrySet.mem_keys]
    simp only [hg.mem_propertiesOf hs, Option.all_eq_true, beq_iff_eq, Option.mem_def]
  have hlist := keyValues_list hv hF hg hs hkeys
  simp only [View.propertyStatements, Graph.propertyKeys_ok (hg.vertex_mem hs), View.stored,
    ok_bind]
  -- without a key the subject is not read, and there is no value either
  cases hcase : (g.propertiesOf (P.vertex (.resource s))).keys.filter fun key =>
      !isInternal key && predicate.all fun p => p.text == key with
  | nil =>
    rw [hcase] at hlist
    exact hlist
  | cons key rest =>
    rw [hcase] at hlist
    simp only [List.isEmpty_cons, Bool.false_eq_true, if_false, resource_ok hv hF hg hs,
      Part.resource?, ok_bind]
    exact hlist

/-- The statements with a resource as subject. -/
theorem statementsFrom_lists (hs : .vertex (.resource s) ∈ F) (predicate : Option Uri) :
    Lists ((e.view g).statementsFrom (P.vertex (.resource s)) predicate) fun y =>
      (∃ σ, Reads e.vocabulary F σ y) ∧ (∀ u ∈ predicate, u = y.predicate) ∧ y.subject = s := by
  simp only [View.statementsFrom, Graph.findEdges_ok (hg.vertex_mem hs), View.stored, ok_bind]
  refine (Lists.append (edges_list hv hF hg hs predicate fun t σ b hb hstrand hmeets => ?_)
    (propertyStatements_lists hv hF hg hs predicate)).congr fun y => ?_
  · have hsource : b.source = .resource s := hmeets
    have htarget := (hF.grounded _ hb).2.2
    cases hstrand with
    | relation ho => exact statementOfEdge_relation hv hF hg ho hb htarget
    | entering hm => exact statementOfEdge_middle hv hF hg hm htarget _
    | leaving hm => exact absurd hsource (Part.ne_resource_of_middleOf hm)
  · constructor
    · rintro (⟨hpredicate, σ, hy, hb⟩ | ⟨hy, hpredicate, hsub⟩)
      · exact ⟨⟨σ, hy⟩, hpredicate, ((hy.exists_outgoing hF).1 hb).1⟩
      · exact ⟨⟨_, hy⟩, hpredicate, hsub⟩
    · rintro ⟨⟨σ, hy⟩, hpredicate, hsub⟩
      by_cases hσ : σ = .value
      · exact .inr ⟨hσ ▸ hy, hpredicate, hsub⟩
      · exact .inl ⟨hpredicate, σ, hy, (hy.exists_outgoing hF).2 ⟨hsub, hσ⟩⟩

/-! ## Literals -/

theorem middleVertex_lists (hm : m.middleOf? = some t) (hp : .vertex m ∈ F) :
    Lists (do return (← (e.view g).middleStatement (P.vertex m)).toList) fun y =>
      ∃ σ, Reads e.vocabulary F σ y ∧ FoundAt y.triple σ m := by
  obtain ⟨C, hread, hreads⟩ := middleStatement_reads hv hF hg hm hp
  rw [hread, ok_bind]
  refine Lists.option fun y => ?_
  rw [Option.some.injEq]
  constructor
  · rintro rfl
    exact ⟨_, hreads, .middle hm⟩
  · rintro ⟨σ, hy, hfound⟩
    cases hfound with
    | value => cases hm
    | literal => cases hm
    | middle hm' => exact hreads.unique hy (Option.some.inj (hm.symm.trans hm'))

/-- An edge under a predicate to a literal vertex starts at a middle vertex. -/
theorem edgeToLiteral_reads {b : Bond Part} (hb : .bond b ∈ F) (hstrand : Strand t σ b)
    (htarget : b.target = .literal u) :
    ∃ C, (do if ← (e.view g).isMiddle (P.edgeOf g b).2.source
        then (e.view g).middleStatement (P.edgeOf g b).2.source else return none) =
      Except.ok (some ⟨t, C⟩) ∧ Reads e.vocabulary F σ ⟨t, C⟩ := by
  cases hstrand with
  | relation => cases htarget
  | @entering m hm =>
    obtain rfl : m = .literal u := htarget
    cases hm
  | @leaving m o hm ho =>
    have hsource := (hF.grounded _ hb).2.1
    simp only [Placement.edgeOf, isMiddle_ok hv hF hg hsource, Part.ofKind_of_middleOf hm,
      ok_bind, if_true]
    exact middleStatement_reads hv hF hg hm hsource

theorem literalVertex_lists (hp : .vertex (.literal t) ∈ F) :
    Lists ((e.view g).aboutLiteral (P.vertex (.literal t))) fun y =>
      ∃ σ, Reads e.vocabulary F σ y ∧ FoundAt y.triple σ (.literal t) := by
  have hkinds : (Part.literal t).ofKind middleKind = false ∧
      (Part.literal t).ofKind literalKind := by
    simp [Part.ofKind, Part.shape, middleKind, literalKind]
  simp only [View.aboutLiteral, isMiddle_ok hv hF hg hp, isLiteral_ok hv hF hg hp, hkinds,
    Bool.false_eq_true, if_false, if_true, Graph.findEdges_ok (hg.vertex_mem hp), View.stored,
    ok_bind]
  have hread : ∀ u σ b, .bond b ∈ F → Strand u σ b → b.Meets (.literal t) .incoming → _ :=
    fun _ _ _ hb hstrand hmeets => edgeToLiteral_reads hv hF hg hb hstrand hmeets
  refine (edges_list hv hF hg hp none hread).congr fun y => ?_
  constructor
  · rintro ⟨-, σ, hy, hb⟩
    obtain ⟨rfl, rfl⟩ := (Reads.exists_incoming_literal hF hp).1 hb
    exact ⟨_, hy, .literal⟩
  · rintro ⟨σ, hy, hfound⟩
    cases hfound with
    | literal => exact ⟨by simp, _, hy, (Reads.exists_incoming_literal hF hp).2 ⟨rfl, rfl⟩⟩
    | middle hm => cases hm

/-- The statements of a vertex that is found from a literal. -/
theorem aboutLiteral_lists (hp : .vertex p ∈ F) :
    Lists ((e.view g).aboutLiteral (P.vertex p)) fun y =>
      ∃ σ, Reads e.vocabulary F σ y ∧ FoundAt y.triple σ p := by
  have hmiddle : ∀ {m t}, m.middleOf? = some t → .vertex m ∈ F →
      Lists ((e.view g).aboutLiteral (P.vertex m)) fun y =>
        ∃ σ, Reads e.vocabulary F σ y ∧ FoundAt y.triple σ m := by
    intro m t hm hvertex
    simp only [View.aboutLiteral, isMiddle_ok hv hF hg hvertex, Part.ofKind_of_middleOf hm, ok_bind,
      if_true]
    exact middleVertex_lists hv hF hg hm hvertex
  cases p with
  | resource s =>
    have hkinds : (Part.resource s).ofKind middleKind = false ∧
        (Part.resource s).ofKind literalKind = false := ⟨rfl, rfl⟩
    simp only [View.aboutLiteral, isMiddle_ok hv hF hg hp, isLiteral_ok hv hF hg hp, hkinds,
      ok_bind, Bool.false_eq_true, if_false]
    refine (propertyStatements_lists hv hF hg hp none).congr fun y => ?_
    constructor
    · rintro ⟨hy, -, rfl⟩
      exact ⟨_, hy, .value⟩
    · rintro ⟨σ, hy, hfound⟩
      cases hfound with
      | value => exact ⟨hy, by simp, rfl⟩
      | middle hm => cases hm
  | middle t => exact hmiddle rfl hp
  | holder t => exact hmiddle rfl hp
  | literal t => exact literalVertex_lists hv hF hg hp

omit hv hg in
/-- A statement with a literal is found from it. -/
theorem exists_indexed (hy : Reads e.vocabulary F σ y) (hl : y.object = .literal l) :
    ∃ p, .indexed p ⟨e.vocabulary.literalIndexKey, l.encode⟩ ∈ F ∧ FoundAt y.triple σ p := by
  have hheld : ∀ p, p = .literal y.triple ∨ p = .holder y.triple → .vertex p ∈ F →
      .indexed p ⟨e.vocabulary.literalIndexKey, l.encode⟩ ∈ F := by
    intro p hp hvertex
    obtain ⟨l', hl', hindexed⟩ := hF.held _ p hp hvertex
    cases hl.symm.trans hl'
    exact hindexed
  obtain ⟨f, hf, hstates⟩ := hy.states
  cases hstates with
  | relation ho => cases hl.symm.trans ho
  | value hl' =>
    cases hl.symm.trans hl'
    exact ⟨_, hF.value _ _ _ hf, .value⟩
  | around hm =>
    obtain rfl | rfl := Part.middleOf_eq hm
    · have ho := Part.onward_literal.2 ⟨rfl, l, hl⟩
      have htarget := (hF.grounded _ (hF.leaving _ _ _ hm ho hf)).2.2
      exact ⟨_, hheld _ (.inl rfl) htarget, .literal⟩
    · exact ⟨_, hheld _ (.inr rfl) hf, .middle hm⟩

/-- The statements with a literal as object. -/
theorem statementsOfLiteral_lists (l : Literal) :
    Lists ((e.view g).statementsOfLiteral l) fun y =>
      (∃ σ, Reads e.vocabulary F σ y) ∧ y.object = .literal l := by
  have hfound : ∀ v, v ∈ g.lookupValue ⟨e.vocabulary.literalIndexKey, l.encode⟩ ↔
      ∃ p, .indexed p ⟨e.vocabulary.literalIndexKey, l.encode⟩ ∈ F ∧ P.vertex p = v :=
    fun v => hg.mem_lookupValue
  have hread : Lists (do
      return (← (g.lookupValue ⟨e.vocabulary.literalIndexKey, l.encode⟩).mapM
        (e.view g).aboutLiteral).flatten) fun y =>
      ∃ v ∈ g.lookupValue ⟨e.vocabulary.literalIndexKey, l.encode⟩,
        ∃ p, .vertex p ∈ F ∧ P.vertex p = v ∧
          ∃ σ, Reads e.vocabulary F σ y ∧ FoundAt y.triple σ p := by
    refine Lists.flatMapM fun v hmem => ?_
    obtain ⟨p, hp, rfl⟩ := (hfound v).1 hmem
    have hvertex : .vertex p ∈ F := hF.grounded _ hp
    refine (aboutLiteral_lists hv hF hg hvertex).congr fun y => ?_
    constructor
    · exact fun hy => ⟨p, hvertex, rfl, hy⟩
    · rintro ⟨q, hq, heq, hy⟩
      rwa [hg.injective q p hq hvertex heq] at hy
  have hpath : (e.view g).statementsOfLiteral l = (do
      let found ← (do
        return (← (g.lookupValue ⟨e.vocabulary.literalIndexKey, l.encode⟩).mapM
          (e.view g).aboutLiteral).flatten)
      return found.filter fun s => s.object == .literal l) := by
    simp only [View.statementsOfLiteral, bind_assoc, pure_bind]
  rw [hpath]
  refine hread.filter.congr fun y => ?_
  rw [beq_iff_eq]
  constructor
  · rintro ⟨⟨v, -, p, -, -, σ, hy, -⟩, hobject⟩
    exact ⟨⟨σ, hy⟩, hobject⟩
  · rintro ⟨⟨σ, hy⟩, hobject⟩
    obtain ⟨p, hp, hfoundAt⟩ := exists_indexed hF hy hobject
    exact ⟨⟨_, (hfound _).2 ⟨p, hp, rfl⟩, p, hF.grounded _ hp, rfl, σ, hy, hfoundAt⟩, hobject⟩

/-- The statements of the edges under the type predicate that lead away from a resource. -/
theorem typeStatements_list (hs : .vertex (.resource s) ∈ F) :
    Lists ((g.edgesAt (P.vertex (.resource s)) (some e.vocabulary.typePredicate.text)
        .outgoing).filterMapM (e.view g).edgeStatement) fun y =>
      Reads e.vocabulary F .relation y ∧ y.subject = s ∧
        y.predicate = e.vocabulary.typePredicate := by
  refine (Lists.edges (R := fun b y => Reads e.vocabulary F .relation y ∧
    Strand y.triple .relation b) hg hs ?_).congr fun y => ?_
  · intro b hb hmeets hlabel
    have hinternal : isInternal b.label = false := by
      rw [← hlabel _ rfl]
      exact e.vocabulary.typePredicate.not_isInternal
    have hsource : b.source = .resource s := hmeets
    obtain ⟨t, σ, hstrand⟩ := hF.strand_of_bond hv hb hinternal
    have hunique : ∀ {y : Statement}, Strand y.triple .relation b → t = y.triple ∧ σ = .relation :=
      fun hy => hstrand.unique hy
    have hstrand' := hstrand
    cases hstrand with
    | relation ho =>
      obtain ⟨C, hread, hreads⟩ := edgeStatement_reads hv hF hg ho hb
      refine ⟨_, hread, fun y => ?_⟩
      rw [Option.some.injEq]
      constructor
      · rintro rfl
        exact ⟨hreads, hstrand'⟩
      · rintro ⟨hy, hyb⟩
        exact hreads.unique hy (hunique hyb).1
    | entering hm =>
      refine ⟨none, edgeStatement_entering hv hF hg hm (hF.grounded _ hb).2.2, fun y => ?_⟩
      simp only [reduceCtorEq, false_iff, not_and]
      intro _ hyb
      cases (hunique hyb).2
    | leaving hm => exact absurd hsource (Part.ne_resource_of_middleOf hm)
  · constructor
    · rintro ⟨b, ⟨-, hmeets, hlabel⟩, hy, hyb⟩
      have hpredicate := hyb.label_eq.symm.trans (hlabel _ rfl).symm
      cases hyb with
      | relation => exact ⟨hy, Part.resource.inj hmeets, Uri.ext hpredicate⟩
    · rintro ⟨hy, rfl, hpredicate⟩
      obtain ⟨f, hf, hstates⟩ := hy.states
      cases hstates with
      | relation ho =>
        refine ⟨_, ⟨hf, rfl, fun l hl => ?_⟩, hy, .relation ho⟩
        rw [← Option.mem_some.1 hl, ← hpredicate]
        rfl

end Readable

section Shown

variable {e : Encoder} {M : Dataset} {R : Set Resource} {g : Graph} {P : Placement Part}
  {t : Triple} {A : UriSet} {m p : Part} {r s : Resource} {l : Literal} {c : Uri} {y : Statement}

/-- Only a dense literal is a value. -/
theorem form_ne_property (hfinds : e.policy.findsByContext) : e.form t ≠ .property l := by
  intro hform
  unfold form at hform
  cases ho : t.object <;> cases hp : e.policy <;>
    simp only [ho, hp, Policy.findsByContext, Bool.false_eq_true, reduceCtorEq] at hform hfinds
  all_goals
    split at hform
    · cases hform
    · cases hform

theorem site_eq_relation : e.site t = .relation ↔ ∃ r, e.form t = .relation r := by
  constructor
  · intro h
    unfold site at h
    split at h <;> first | exact ⟨_, ‹_›⟩ | cases h
  · rintro ⟨r, hr⟩
    exact site_of_relation hr

variable (hv : e.vocabulary.Valid) (hg : g.Shows P (e.imageWith M R))

include hv hg

/-! ## Named graphs -/

/-- The statements whose middle vertex has an edge to a named graph. -/
theorem aboutContextVertex_lists (hc : .vertex (.resource (.uri c)) ∈ e.imageWith M R) :
    Lists ((e.view g).aboutContextVertex (P.vertex (.resource (.uri c)))) fun y =>
      M.Holds y ∧ c ∈ y.contexts ∧ ∃ o, e.form y.triple = .quad o := by
  simp only [View.aboutContextVertex, Graph.findEdges_ok (hg.vertex_mem hc), View.stored, ok_bind]
  refine (Lists.edges (R := fun b y => M.Holds y ∧ b.source = .middle y.triple ∧ c ∈ y.contexts ∧
    ∃ o, e.form y.triple = .quad o) hg hc ?_).congr fun y => ?_
  · rintro ⟨s, label, q⟩ hb hmeets hlabel
    obtain rfl : q = .resource (.uri c) := hmeets
    obtain rfl : e.vocabulary.contextEdgeLabel = label := hlabel _ rfl
    obtain ⟨t, A, o, hA, hform, rfl, d, hd, heq⟩ := (context_bond hv).1 hb
    cases heq
    have hm : e.middle? t = some (.middle t) := by simp only [middle?, hform]
    refine ⟨some ⟨t, A⟩, middleStatement_ok hv hg hA hm, fun y => ?_⟩
    rw [Option.some.injEq]
    constructor
    · rintro rfl
      exact ⟨hA, rfl, hd, o, hform⟩
    · rintro ⟨hy, heq, -⟩
      exact hy.eq (Part.middle.inj heq).symm hA
  · constructor
    · rintro ⟨b, -, hy, -, hcontext, hform⟩
      exact ⟨hy, hcontext, hform⟩
    · rintro ⟨hy, hcontext, o, hform⟩
      refine ⟨⟨.middle y.triple, e.vocabulary.contextEdgeLabel, .resource (.uri c)⟩,
        ⟨(context_bond hv).2 ⟨_, _, o, hy, hform, rfl, c, hcontext, rfl⟩, rfl, ?_⟩, hy, rfl, hcontext,
        o, hform⟩
      exact fun l hl => (Option.mem_some.1 hl).symm

/-- The statements of a vertex that is indexed by a context: its own if it is a middle vertex, else
the type statements that it is the subject of. -/
theorem aboutContext_lists (hfinds : e.policy.findsByContext)
    (hp : .indexed p ⟨e.vocabulary.contextIndexKey, c.text⟩ ∈ e.imageWith M R) :
    Lists ((e.view g).aboutContext (P.vertex p)) fun y => M.Holds y ∧
      ((∃ r, e.form y.triple = .relation r) ∧ p = .resource y.subject ∨
        e.middle? y.triple = some p) := by
  obtain ⟨t, A, hA, ht⟩ := indexed_mem_imageWith.1 hp
  have hvertex : .vertex p ∈ e.imageWith M R := imageWith_grounded _ hp
  simp only [View.aboutContext, isMiddle_ok hv (legible_imageWith hv) hg hvertex, ok_bind]
  rcases depicts_indexed.1 ht with ⟨r, hr, -, rfl, -⟩ | ⟨l, -, -, heq⟩ | ⟨o, -, hm, -⟩ |
    ⟨l, -, heq, -⟩
  · have hkind : (Part.resource t.subject).ofKind middleKind = false := rfl
    simp only [hkind, Bool.false_eq_true, if_false, Graph.findEdges_ok (hg.vertex_mem hvertex),
      View.stored, ok_bind]
    refine (typeStatements_list hv (legible_imageWith hv) hg hvertex).congr fun y => ?_
    rw [reads_imageWith hv]
    constructor
    · rintro ⟨⟨hy, hsite⟩, hsub, -⟩
      exact ⟨hy, .inl ⟨site_eq_relation.1 hsite.symm, congrArg _ hsub.symm⟩⟩
    · rintro ⟨hy, ⟨⟨r, hr⟩, hsub⟩ | hm⟩
      · exact ⟨⟨hy, (site_of_relation hr).symm⟩, (Part.resource.inj hsub).symm,
          typePredicate_of_relation hfinds hr⟩
      · exact absurd rfl (middle_ne_resource hm)
  · exact absurd (Entry.mk.inj heq).1 (indexKeys_ne hv)
  · simp only [Part.ofKind_of_middleOf (middleOf_of_middle hm), if_true,
      middleStatement_ok hv hg hA hm, ok_bind]
    refine Lists.option fun y => ?_
    rw [Option.some.injEq]
    constructor
    · rintro rfl
      exact ⟨hA, .inr hm⟩
    · rintro ⟨hy, ⟨-, rfl⟩ | hm'⟩
      · exact absurd rfl (middle_ne_resource hm)
      · exact hy.eq (middle_injective hm' hm) hA
  · exact absurd (Entry.mk.inj heq).1 (indexKeys_ne hv)

/-- The statements that the vertex of a context leads to, beside those of vertices indexed by it. -/
theorem exists_linked (c : Uri) :
    ∃ linked, (∀ y, y ∈ linked ↔ M.Holds y ∧ c ∈ y.contexts ∧ ∃ o, e.form y.triple = .quad o) ∧
      (e.view g).statementsOfContext c = (do
        let listed ← (g.lookupValue ⟨e.vocabulary.contextIndexKey, c.text⟩).mapM
          (e.view g).aboutContext
        return (linked ++ listed.flatten).filter fun s => s.contexts.contains c) := by
  by_cases hc : .vertex (.resource (.uri c)) ∈ e.imageWith M R
  · obtain ⟨linked, hlinked, hmem⟩ := aboutContextVertex_lists hv hg hc
    refine ⟨linked, hmem, ?_⟩
    simp only [View.statementsOfContext, vertexFor_ok (legible_imageWith hv) hg hc, hlinked, ok_bind]
  · refine ⟨[], fun y => iff_of_false List.not_mem_nil ?_, ?_⟩
    · rintro ⟨hy, hcontext, o, hform⟩
      exact hc (vertex_stored hy (.context hform hcontext))
    · simp only [View.statementsOfContext, vertexFor_eq_none hv (legible_imageWith hv) hg hc, pure_bind]

theorem listed_lists (hfinds : e.policy.findsByContext) (c : Uri) :
    Lists (do
      return (← (g.lookupValue ⟨e.vocabulary.contextIndexKey, c.text⟩).mapM
        (e.view g).aboutContext).flatten) fun y =>
      ∃ v ∈ g.lookupValue ⟨e.vocabulary.contextIndexKey, c.text⟩,
        ∃ p, .vertex p ∈ e.imageWith M R ∧ P.vertex p = v ∧ M.Holds y ∧
          ((∃ r, e.form y.triple = .relation r) ∧ p = .resource y.subject ∨
            e.middle? y.triple = some p) := by
  refine Lists.flatMapM fun v hmem => ?_
  obtain ⟨p, hp, rfl⟩ := hg.mem_lookupValue.1 hmem
  have hvertex : .vertex p ∈ e.imageWith M R := imageWith_grounded _ hp
  refine (aboutContext_lists hv hg hfinds hp).congr fun y => ?_
  constructor
  · rintro ⟨hy, hyp⟩
    exact ⟨p, hvertex, rfl, hy, hyp⟩
  · rintro ⟨q, hq, heq, hy, hyp⟩
    rw [hg.injective q p hq hvertex heq] at hyp
    exact ⟨hy, hyp⟩

/-- Where statements are found from a context alone, those in a named graph. -/
theorem statementsOfContext_lists (hfinds : e.policy.findsByContext) (c : Uri) :
    Lists ((e.view g).statementsOfContext c) fun y => M.Holds y ∧ c ∈ y.contexts := by
  obtain ⟨linked, hlinked, hpath⟩ := exists_linked hv hg c
  have hlists := (Lists.append ⟨linked, rfl, hlinked⟩ (listed_lists hv hg hfinds c)).filter
    (p := fun s => s.contexts.contains c)
  simp only [ok_bind, bind_assoc, pure_bind] at hlists
  rw [hpath]
  refine hlists.congr fun y => ?_
  rw [Std.ExtTreeSet.contains_iff_mem]
  constructor
  · rintro ⟨⟨hy, -⟩ | ⟨v, -, p, -, -, hy, -⟩, hcontext⟩
    · exact ⟨hy, hcontext⟩
    · exact ⟨hy, hcontext⟩
  · rintro ⟨hy, hcontext⟩
    refine ⟨?_, hcontext⟩
    have hfound : ∀ p, e.Depicts y.triple y.contexts
          (.indexed p ⟨e.vocabulary.contextIndexKey, c.text⟩) →
        P.vertex p ∈ g.lookupValue ⟨e.vocabulary.contextIndexKey, c.text⟩ ∧
          .vertex p ∈ e.imageWith M R := fun p hp =>
      have hindexed : .indexed p _ ∈ e.imageWith M R := indexed_mem_imageWith.2 ⟨_, _, hy, hp⟩
      ⟨hg.mem_lookupValue.2 ⟨p, hindexed, rfl⟩, imageWith_grounded _ hindexed⟩
    cases hform : e.form y.triple with
    | relation r =>
      obtain ⟨hmem, hvertex⟩ := hfound _ (.relationIndex hform hfinds hcontext)
      exact .inr ⟨_, hmem, _, hvertex, rfl, hy, .inl ⟨⟨r, rfl⟩, rfl⟩⟩
    | property l => exact absurd hform (form_ne_property hfinds)
    | quad o => exact .inl ⟨hy, hcontext, o, rfl⟩
    | recording o =>
      rcases form_cases e y.triple with ⟨r, hr⟩ | ⟨l, hl⟩ | ⟨m, hm⟩
      · exact absurd (hform.symm.trans hr) (by simp)
      · exact absurd (hform.symm.trans hl) (by simp)
      · obtain ⟨hmem, hvertex⟩ := hfound m (.recordIndex hform hm hcontext)
        exact .inr ⟨_, hmem, _, hvertex, rfl, hy, .inr hm⟩

end Shown

end Encoder

end QuadStore
