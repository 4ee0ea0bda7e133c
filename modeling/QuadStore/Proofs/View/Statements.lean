import Mathlib
import QuadStore.Proofs.View.Lists
import QuadStore.Proofs.View.Sites
import QuadStore.Proofs.View.Vertices
/-!
# Reading statements

In a graph that can be read a middle vertex, an edge or a value reads as the triple that it stands
for in the graphs that are listed there. In the graph of a dataset these are the graphs that the
triple is asserted in.
-/

namespace QuadStore

namespace View

/-- The texts of named graphs read as the named graphs. -/
theorem readGraphs_ok {texts : List String} (h : ∀ x ∈ texts, ∃ c : Uri, x = c.text) :
    ∃ C, readGraphs texts = .ok C ∧ ∀ c, c ∈ C ↔ c.text ∈ texts := by
  have hread : Lists (texts.mapM readUri) fun c => ∃ x ∈ texts, x = c.text :=
    Lists.mapM fun x hx => by
      obtain ⟨c, rfl⟩ := h x hx
      exact ⟨c, Encoder.readUri_text c, fun d => ⟨fun heq => Uri.ext heq.symm, by rintro rfl; rfl⟩⟩
  obtain ⟨us, hus, hmem⟩ := hread
  refine ⟨Std.ExtTreeSet.ofList us, ?_, fun c => ?_⟩
  · rw [readGraphs, hus]
    rfl
  · rw [Std.ExtTreeSet.mem_ofList, List.contains_iff_mem]
    exact (hmem c).trans exists_eq_right

theorem underPredicate_iff {b : Bond Part} {P : Placement Part} {g : Graph} :
    underPredicate (P.edgeOf g b) ↔ isInternal b.label = false := by
  simp [underPredicate, Placement.edgeOf]

end View

namespace Graph.Shows

variable {ν : Type} {g : Graph} {P : Placement ν} {F : Facts ν} {p : ν} {b : Bond ν}

/-- The only edge at a vertex. -/
theorem edgesAt_eq_singleton (h : g.Shows P F) (hp : .vertex p ∈ F) {label : Option String}
    {direction : Direction}
    (hb : ∀ c, (.bond c ∈ F ∧ c.Meets p direction ∧ ∀ l ∈ label, l = c.label) ↔ b = c) :
    g.edgesAt (P.vertex p) label direction = [P.edgeOf g b] := by
  obtain ⟨bs, hnodup, hmap, hmem⟩ := h.edgesAt_eq hp label direction
  have hbs : bs = (some b).toList := eq_toList_of_nodup hnodup fun c => by
    rw [hmem, hb, Option.some.injEq]
  rw [← hmap, hbs]
  rfl

end Graph.Shows

namespace Legible

variable {v : Vocabulary} {F : Facts Part} {t : Triple} {m o p q : Part} {b : Bond Part}
  {x : String}

/-! ## Around a middle vertex -/

/-- One edge leads to a middle vertex. -/
theorem entering_iff (hF : Legible v F) (hm : m.middleOf? = some t) (hp : .vertex m ∈ F) :
    (.bond b ∈ F ∧ b.target = m) ↔ ⟨.resource t.subject, t.predicate.text, m⟩ = b := by
  constructor
  · rintro ⟨hb, rfl⟩
    cases hF.bond b hb with
    | strand h =>
      cases h with
      | relation => cases hm
      | entering hm' => rw [Option.some.inj (hm.symm.trans hm')]
      | leaving hm' ho => cases hm.symm.trans (Part.middleOf_of_onward ho)
    | context => cases hm
  · rintro rfl
    exact ⟨hF.entering m t hm hp, rfl⟩

/-- One edge under the predicate leads away from a middle vertex. -/
theorem leaving_iff (hF : Legible v F) (hv : v.Valid) (hm : m.middleOf? = some t)
    (ho : m.onward? = some o) (hp : .vertex m ∈ F) :
    (.bond b ∈ F ∧ b.source = m ∧ t.predicate.text = b.label) ↔
      ⟨m, t.predicate.text, o⟩ = b := by
  constructor
  · obtain ⟨s, label, q⟩ := b
    rintro ⟨hb, rfl, rfl⟩
    rw [Option.some.inj (ho.symm.trans (hF.leaving_tells hv hm hb).2)]
  · rintro rfl
    exact ⟨hF.leaving m t o hm ho hp, rfl, rfl⟩

/-- An edge to a named graph leads to the vertex of one. -/
theorem context_tells (hF : Legible v F) (hv : v.Valid)
    (h : .bond ⟨p, v.contextEdgeLabel, q⟩ ∈ F) : ∃ c, q = .resource (.uri c) := by
  generalize hb : (⟨p, v.contextEdgeLabel, q⟩ : Bond Part) = b at h
  cases hF.bond b h with
  | strand h =>
    have hlabel := h.label_eq
    rw [← hb] at hlabel
    exact absurd hlabel.symm (hv.text_ne _ (Vocabulary.contextEdgeLabel_mem v))
  | context hm c => exact ⟨c, (Bond.mk.inj hb).2.2⟩

/-- What lists named graphs beside a middle vertex lists texts of named graphs. -/
theorem record_tells (hF : Legible v F) (hv : v.Valid)
    (h : .property p ⟨v.contextsKey, x⟩ ∈ F) : ∃ c : Uri, x = c.text := by
  have hword := Vocabulary.contextsKey_mem v
  generalize hentry : (⟨v.contextsKey, x⟩ : Entry) = entry at h
  cases hF.property _ _ h with
  | identity hhas =>
    have hkey := Vocabulary.has_identityKey hhas
    rw [← hentry] at hkey
    exact absurd hkey hv.contextsKey_notMem
  | value s u l => exact absurd (Entry.mk.inj hentry).1.symm (hv.text_ne u hword)
  | valueContext s u l c =>
    exact absurd (Entry.mk.inj hentry).1.symm (hv.contextsKeyOf_ne _ _ hword)
  | record hm c => exact ⟨c, (Entry.mk.inj hentry).2⟩

/-- So does what lists them beside a value. -/
theorem valueContext_tells {predicate : Uri} {encoded : String} (hF : Legible v F) (hv : v.Valid)
    (h : .property p ⟨v.contextsKeyOf predicate encoded, x⟩ ∈ F) : ∃ c : Uri, x = c.text := by
  generalize hentry : (⟨v.contextsKeyOf predicate encoded, x⟩ : Entry) = entry at h
  cases hF.property _ _ h with
  | identity hhas =>
    have hword := Vocabulary.has_mem_words hhas
    rw [← hentry] at hword
    exact absurd rfl (hv.contextsKeyOf_ne _ _ hword)
  | value s u l =>
    exact absurd (Entry.mk.inj hentry).1.symm
      (ne_of_isInternal u.not_isInternal (hv.isInternal_contextsKeyOf _ _))
  | valueContext s u l c => exact ⟨c, (Entry.mk.inj hentry).2⟩
  | record hm c =>
    exact absurd (Entry.mk.inj hentry).1
      (hv.contextsKeyOf_ne _ _ (Vocabulary.contextsKey_mem v))

end Legible

namespace Encoder

variable {e : Encoder} {F : Facts Part} {g : Graph} {P : Placement Part} {t : Triple} {m : Part}
  {r : Resource} {l : Literal}

section Readable

variable (hv : e.vocabulary.Valid) (hF : Legible e.vocabulary F) (hg : g.Shows P F)

include hv hF hg

theorem middleObject_ok (hm : m.middleOf? = some t) (hp : .vertex m ∈ F) :
    (e.view g).middleObject (P.vertex m) t.predicate.text = .ok (some t.object) := by
  rcases Part.middleOf_eq hm with rfl | rfl
  · have hedges : ∀ o, (Part.middle t).onward? = some o → .vertex o ∈ F ∧
        g.findEdges (P.vertex (.middle t)) (some t.predicate.text) .outgoing =
          .ok [P.edgeOf g ⟨.middle t, t.predicate.text, o⟩] := by
      intro o ho
      refine ⟨(hF.grounded _ (hF.leaving _ t o hm ho hp)).2.2, ?_⟩
      rw [Graph.findEdges_ok (hg.vertex_mem hp), hg.edgesAt_eq_singleton hp fun c => ?_]
      simp only [Bond.Meets, Option.mem_def, Option.some.injEq, forall_eq']
      exact hF.leaving_iff hv hm ho hp
    have hread : ∀ o, (Part.middle t).onward? = some o →
        (e.view g).middleObject (P.vertex (.middle t)) t.predicate.text =
          .ok (if o.ofKind literalKind then o.literal?.map .literal
            else o.resource?.map .resource) := by
      intro o ho
      obtain ⟨htarget, hfound⟩ := hedges o ho
      simp only [View.middleObject, literalOf_ok hv hF hg hp, Part.literal?, Part.shape,
        Option.bind_some, hfound]
      change (do
        if ← (e.view g).isLiteral (P.vertex o) then
          return (← (e.view g).literalOf (P.vertex o)).map Value.literal
        else return (← (e.view g).resource (P.vertex o)).map Value.resource) = _
      rw [isLiteral_ok hv hF hg htarget, literalOf_ok hv hF hg htarget,
        resource_ok hv hF hg htarget]
      cases o.ofKind literalKind <;> rfl
    cases ho : t.object with
    | resource r =>
      rw [hread (.resource r) (by simp only [Part.onward?, ho])]
      rfl
    | literal l =>
      rw [hread (.literal t) (by simp only [Part.onward?, ho]), Part.literal?, Part.shape, ho]
      rfl
  · obtain ⟨l, hl, -⟩ := hF.held t _ (.inr rfl) hp
    simp only [View.middleObject, literalOf_ok hv hF hg hp]
    rw [Part.literal?, Part.shape, hl]
    rfl

theorem contextTargets_lists (hp : .vertex m ∈ F) :
    Lists ((e.view g).contextTargets (P.vertex m)) fun c =>
      .bond ⟨m, e.vocabulary.contextEdgeLabel, .resource (.uri c)⟩ ∈ F := by
  simp only [View.contextTargets, Graph.findEdges_ok (hg.vertex_mem hp), View.stored, ok_bind]
  refine (Lists.edges (R := fun b c => b.target = .resource (.uri c)) hg hp ?_).congr ?_
  · rintro ⟨s, label, q⟩ hb hmeets hlabel
    obtain rfl : s = m := hmeets
    obtain rfl : e.vocabulary.contextEdgeLabel = label := hlabel _ rfl
    obtain ⟨c, rfl⟩ := hF.context_tells hv hb
    refine ⟨some c, ?_, fun d => by simp⟩
    simp only [Placement.edgeOf, resource_ok hv hF hg (hF.grounded _ hb).2.2]
    rfl
  · intro c
    constructor
    · rintro ⟨⟨s, label, q⟩, ⟨hb, hmeets, hlabel⟩, htarget⟩
      obtain rfl : s = m := hmeets
      obtain rfl : e.vocabulary.contextEdgeLabel = label := hlabel _ rfl
      obtain rfl : q = .resource (.uri c) := htarget
      exact hb
    · intro hb
      exact ⟨_, ⟨hb, rfl, fun l hl => (Option.mem_some.1 hl).symm⟩, rfl⟩

/-- A middle vertex reads as its triple. -/
theorem middleStatement_reads (hm : m.middleOf? = some t) (hp : .vertex m ∈ F) :
    ∃ C, (e.view g).middleStatement (P.vertex m) = .ok (some ⟨t, C⟩) ∧
      Reads e.vocabulary F (.around m) ⟨t, C⟩ := by
  have hsubject := (hF.grounded _ (hF.entering m t hm hp)).2.1
  have hvalues : ∀ x, x ∈ (g.propertiesOf (P.vertex m)).values e.vocabulary.contextsKey ↔
      .property m ⟨e.vocabulary.contextsKey, x⟩ ∈ F := fun x => by
    rw [EntrySet.mem_values, hg.mem_propertiesOf hp]
  obtain ⟨targets, htargets, hmem⟩ := contextTargets_lists hv hF hg hp
  obtain ⟨listed, hlisted, hmem'⟩ :=
    View.readGraphs_ok fun x hx => hF.record_tells hv ((hvalues x).1 hx)
  have hedges : (g.edgesAt (P.vertex m) none .incoming).filter View.underPredicate =
      [P.edgeOf g ⟨.resource t.subject, t.predicate.text, m⟩] := by
    rw [hg.edgesAt_eq_singleton hp fun c => by simpa [Bond.Meets] using hF.entering_iff hm hp]
    exact List.filter_cons_of_pos (View.underPredicate_iff.2 t.predicate.not_isInternal)
  refine ⟨listed.insertMany targets, ?_, ⟨_, hp, .around hm⟩, fun c => ?_⟩
  · simp only [View.middleStatement, Graph.findEdges_ok (hg.vertex_mem hp), View.stored, ok_bind,
      hedges, Placement.edgeOf, readUri_text, resource_ok hv hF hg hsubject, Part.resource?,
      middleObject_ok hv hF hg hm hp, htargets, Graph.property_ok (hg.vertex_mem hp), hlisted]
    rfl
  · rw [Std.ExtTreeSet.mem_insertMany_list, List.contains_iff_mem, hmem, hmem', hvalues,
      exists_places_around hm, or_comm]

/-- The edge of a relation reads as its triple. -/
theorem edgeStatement_reads (ho : t.object = .resource r)
    (hb : .bond ⟨.resource t.subject, t.predicate.text, .resource r⟩ ∈ F) :
    ∃ C, (e.view g).edgeStatement (P.edgeOf g ⟨.resource t.subject, t.predicate.text,
        .resource r⟩) = .ok (some ⟨t, C⟩) ∧ Reads e.vocabulary F .relation ⟨t, C⟩ := by
  obtain ⟨-, hsubject, hobject⟩ := hF.grounded _ hb
  obtain ⟨x, hx, -⟩ := hg.edge_of_bond hb
  have hvalues : ∀ y, y ∈ (g.edgePropertiesOf (P.edge ⟨.resource t.subject, t.predicate.text,
      .resource r⟩)).values e.vocabulary.contextsKey ↔ .edgeProperty ⟨.resource t.subject,
        t.predicate.text, .resource r⟩ ⟨e.vocabulary.contextsKey, y⟩ ∈ F := fun y => by
    rw [EntrySet.mem_values, hg.mem_edgePropertiesOf hb]
  obtain ⟨C, hC, hmem⟩ := View.readGraphs_ok fun y hy => by
    obtain ⟨c, hc⟩ := hF.edgeProperty _ _ ((hvalues y).1 hy)
    exact ⟨c, (Entry.mk.inj hc).2⟩
  have htriple : (⟨t.subject, t.predicate, .resource r⟩ : Triple) = t :=
    Triple.ext rfl rfl ho.symm
  refine ⟨C, ?_, ⟨_, hb, .relation ho⟩, fun c => ?_⟩
  · simp only [View.edgeStatement, Placement.edgeOf, readUri_text, ok_bind,
      resource_ok hv hF hg hsubject, resource_ok hv hF hg hobject, Part.resource?,
      Graph.edgeProperty_ok (mem_of_getElem?_eq hx), View.stored, hC, htriple]
    rfl
  · rw [hmem, hvalues, exists_places_relation ho]

/-- The edge to a middle vertex is no relation. -/
theorem edgeStatement_entering (hm : m.middleOf? = some t) (hp : .vertex m ∈ F) :
    (e.view g).edgeStatement (P.edgeOf g ⟨.resource t.subject, t.predicate.text, m⟩) =
      .ok none := by
  have hsubject := (hF.grounded _ (hF.entering m t hm hp)).2.1
  have hnone : m.resource? = none := by
    rcases Part.middleOf_eq hm with rfl | rfl <;> rfl
  simp only [View.edgeStatement, Placement.edgeOf, readUri_text, ok_bind,
    resource_ok hv hF hg hsubject, resource_ok hv hF hg hp, hnone]
  rfl

/-- A value under a predicate reads as its triple. -/
theorem propertyStatement_reads (ho : t.object = .literal l)
    (h : .property (.resource t.subject) ⟨t.predicate.text, l.encode⟩ ∈ F) :
    ∃ C, (e.view g).propertyStatement (P.vertex (.resource t.subject)) t.subject t.predicate
        l.encode = .ok ⟨t, C⟩ ∧ Reads e.vocabulary F .value ⟨t, C⟩ := by
  have hsubject : .vertex (.resource t.subject) ∈ F := hF.grounded _ h
  have hvalues : ∀ y, y ∈ (g.propertiesOf (P.vertex (.resource t.subject))).values
      (e.vocabulary.contextsKeyOf t.predicate l.encode) ↔ .property (.resource t.subject)
        ⟨e.vocabulary.contextsKeyOf t.predicate l.encode, y⟩ ∈ F := fun y => by
    rw [EntrySet.mem_values, hg.mem_propertiesOf hsubject]
  obtain ⟨C, hC, hmem⟩ :=
    View.readGraphs_ok fun y hy => hF.valueContext_tells hv ((hvalues y).1 hy)
  have htriple : (⟨t.subject, t.predicate, .literal l⟩ : Triple) = t :=
    Triple.ext rfl rfl ho.symm
  refine ⟨C, ?_, ⟨_, h, .value ho⟩, fun c => ?_⟩
  · simp only [View.propertyStatement, Literal.decode_encode, View.decoded, ok_bind,
      Graph.property_ok (hg.vertex_mem hsubject), View.stored, hC, htriple]
    rfl
  · rw [hmem, hvalues, exists_places_value ho]

end Readable

/-! ## In the graph of a dataset -/

variable {M : Dataset} {R : Set Resource} {A : UriSet}

theorem vertex_stored {p : Part} (hA : M[t]? = some A) (h : e.Needs t A p) :
    .vertex p ∈ e.imageWith M R :=
  vertex_mem_imageWith.2 (.inl ⟨t, A, hA, h⟩)

theorem middleStatement_ok (hv : e.vocabulary.Valid) (hg : g.Shows P (e.imageWith M R))
    (hA : M[t]? = some A) (hm : e.middle? t = some m) :
    (e.view g).middleStatement (P.vertex m) = .ok (some ⟨t, A⟩) := by
  obtain ⟨C, hread, hreads⟩ := middleStatement_reads hv (legible_imageWith hv) hg
    (middleOf_of_middle hm) (vertex_stored hA (.middle hm))
  have hC : M.Holds ⟨t, C⟩ := ((reads_imageWith hv).1 hreads).1
  rw [hread, hC.eq rfl hA]

end Encoder

end QuadStore
