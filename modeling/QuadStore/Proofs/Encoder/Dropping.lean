import Mathlib
import QuadStore.Proofs.Encoder.Removing
/-!
# Dropping a statement

The rules of index entries say when the image of a dataset does not call for an entry any more, and
then removing the fragment of a statement leaves the graph of the dataset without the statement.
-/

namespace QuadStore

namespace Encoder

variable {e : Encoder} {M : Dataset} {R : Set Resource} {t : Triple} {C : UriSet} {m p : Part}
  {f : Fragment} {parts : List Part} {g : Graph} {P : Placement Part} {a : Assignment}
  {x : IndexEntry} {c : Uri} {l : Literal} {o : Value} {r : Resource}

/-! ## The rules of index entries -/

theorem typePredicate_of_relation (hfinds : e.policy.findsByContext)
    (hform : e.form t = .relation r) : t.predicate = e.vocabulary.typePredicate := by
  by_contra hne
  unfold form at hform
  cases ho : t.object with
  | literal l =>
    cases hp : e.policy <;> simp [ho, hp] at hform
  | resource s =>
    cases hp : e.policy <;> simp [ho, hp, hne, Policy.findsByContext] at hform hfinds

theorem indexKeys_ne (hv : e.vocabulary.Valid) :
    e.vocabulary.contextIndexKey ≠ e.vocabulary.literalIndexKey :=
  hv.ne (i := 10) (j := 9) rfl rfl (by decide)

theorem relation_index (hv : e.vocabulary.Valid) (hfinds : e.policy.findsByContext)
    (hform : e.form t = .relation r) :
    .indexed (.resource t.subject) ⟨e.vocabulary.contextIndexKey, c.text⟩ ∈ e.imageWith M R ↔
      ∃ q, .edgeProperty ⟨.resource t.subject, t.predicate.text, q⟩
        ⟨e.vocabulary.contextsKey, c.text⟩ ∈ e.imageWith M R := by
  simp only [indexed_mem_imageWith, edgeProperty_mem_imageWith]
  constructor
  · rintro ⟨u, B, hB, hu⟩
    rcases depicts_indexed.1 hu with ⟨s, hs, -, hsub, d, hd, heq⟩ | ⟨l, -, -, heq⟩ |
      ⟨o, -, hm, -⟩ | ⟨l, -, heq, -⟩
    · rw [Uri.ext (Entry.mk.inj heq).2, Part.resource.inj hsub,
        typePredicate_of_relation hfinds hform, ← typePredicate_of_relation hfinds hs]
      exact ⟨_, u, B, hB, .relationContext hs hd⟩
    · exact absurd (Entry.mk.inj heq).1 (indexKeys_ne hv)
    · exact absurd rfl (middle_ne_resource hm)
    · exact absurd (Entry.mk.inj heq).1 (indexKeys_ne hv)
  · rintro ⟨q, u, B, hB, hu⟩
    obtain ⟨s, hs, heq, d, hd, hentry⟩ := depicts_edgeProperty.1 hu
    rw [Uri.ext (Entry.mk.inj hentry).2, (Bond.mk.inj heq).1]
    exact ⟨u, B, hB, .relationIndex hs hfinds hd⟩

theorem property_index (hv : e.vocabulary.Valid) :
    .indexed (.resource t.subject) ⟨e.vocabulary.literalIndexKey, l.encode⟩ ∈ e.imageWith M R ↔
      ∃ key, isInternal key = false ∧
        .property (.resource t.subject) ⟨key, l.encode⟩ ∈ e.imageWith M R := by
  rw [indexed_mem_imageWith]
  constructor
  · rintro ⟨u, B, hB, hu⟩
    rcases depicts_indexed.1 hu with ⟨s, -, -, -, d, -, heq⟩ | ⟨l', hl, hsub, heq⟩ |
      ⟨o, -, hm, -⟩ | ⟨l, -, -, ⟨-, heq⟩ | ⟨-, heq⟩⟩
    · exact absurd (Entry.mk.inj heq).1.symm (indexKeys_ne hv)
    · rw [(Entry.mk.inj heq).2, hsub]
      exact ⟨_, u.predicate.not_isInternal, .inl ⟨u, B, hB, .property hl⟩⟩
    · exact absurd rfl (middle_ne_resource hm)
    · cases heq
    · cases heq
  · rintro ⟨key, hkey, hthere⟩
    have hword : key ∉ e.vocabulary.identityKeys := fun hmem =>
      ne_of_isInternal hkey (hv.internal _ (Vocabulary.identityKeys_subset hmem)) rfl
    obtain ⟨u, B, hB, hu⟩ := (property_mem_imageWith_iff hword).1 hthere
    obtain ⟨l', hform, hsub, -, hl⟩ := (depicts_value hv hkey).1 hu
    rw [hl, hsub]
    exact ⟨u, B, hB, .propertyIndex hform⟩

theorem record_index (hv : e.vocabulary.Valid) (hm : e.middle? t = some m) :
    .indexed m ⟨e.vocabulary.contextIndexKey, c.text⟩ ∈ e.imageWith M R ↔
      .property m ⟨e.vocabulary.contextsKey, c.text⟩ ∈ e.imageWith M R := by
  rw [indexed_mem_imageWith, record_context hv]
  constructor
  · rintro ⟨u, B, hB, hu⟩
    rcases depicts_indexed.1 hu with ⟨s, -, -, heq, -⟩ | ⟨l', -, heq, -⟩ |
      ⟨o, ho, hm', d, hd, heq⟩ | ⟨l, -, heq, -⟩
    · exact absurd heq (middle_ne_resource hm)
    · exact absurd heq (middle_ne_resource hm)
    · exact ⟨u, B, o, hB, ho, hm', d, hd, (Entry.mk.inj heq).2⟩
    · exact absurd (Entry.mk.inj heq).1 (indexKeys_ne hv)
  · rintro ⟨u, B, o, hB, ho, hm', d, hd, heq⟩
    rw [Uri.ext heq]
    exact ⟨u, B, hB, .recordIndex ho hm' hd⟩

/-- The rule of an index entry lets it go exactly if the image does not call for it. -/
theorem released_iff (hv : e.vocabulary.Valid) (hx : x ∈ (e.contentOf t C p).index)
    (hp : .vertex p ∈ e.imageWith M R) :
    Fragment.Released (e.imageWith M R) p x ↔ .indexed p x.entry ∉ e.imageWith M R := by
  have hheld : ∀ {object : Value}, p.triple? = some t → x ∈ (e.layoutOf t C).heldIndex object →
      (∀ literal, object = .literal literal → ∀ B, e.Depicts t B (.indexed p
        ⟨e.vocabulary.literalIndexKey, literal.encode⟩)) →
      (Fragment.Released (e.imageWith M R) p x ↔ .indexed p x.entry ∉ e.imageWith M R) := by
    intro object htriple hx hdepicts
    obtain ⟨literal, hliteral, rfl⟩ := Layout.mem_heldIndex.1 hx
    obtain ⟨B, hB⟩ := stored_of_vertex hp htriple
    exact iff_of_false id fun hnot => hnot (.inl ⟨t, B, hB, hdepicts literal hliteral B⟩)
  unfold contentOf at hx
  split at hx
  · rename_i r hform
    split at hx
    · subst_vars
      unfold Layout.relationContent at hx
      split at hx
      · rename_i hfinds
        obtain ⟨c, -, rfl⟩ := Layout.mem_contextIndex.1 hx
        exact not_exists.symm.trans (not_congr (relation_index hv hfinds hform)).symm
      · cases hx
    · cases hx
  · rename_i l hform
    split at hx
    · subst_vars
      rw [Layout.mem_literalIndex.1 hx]
      have hheldBy := not_congr (property_index (M := M) (R := R) (t := t) (l := l) hv)
      simp only [not_exists, not_and] at hheldBy
      exact hheldBy.symm
    · cases hx
  · rename_i o hform
    split at hx
    · subst_vars
      refine hheld rfl hx ?_
      rintro l rfl B
      exact .literalIndex hform
    · cases hx
  · rename_i o hform
    split at hx
    · rename_i hm
      rcases List.mem_append.1 hx with hx | hx
      · obtain ⟨c, -, rfl⟩ := Layout.mem_contextIndex.1 hx
        exact (not_congr (record_index hv hm)).symm
      · refine hheld (triple_of_middle hm) hx ?_
        rintro l rfl B
        simp only [middle?, hform, Option.some.injEq] at hm
        exact hm ▸ .holderIndex hform
    · cases hx

/-! ## The whole removal -/

namespace Sketches

/-- Whatever the form of the triple, what speaks of the graphs that the statement names is taken
out. -/
theorem clear_yields {r₀ : Removal} (h : e.Sketches t C f parts) (hv : e.vocabulary.Valid)
    (hg : g.Shows P (e.image M)) (ha : f.Placed (role t parts) P (e.image M) a)
    (hsubject : .vertex (.resource t.subject) ∈ e.image M)
    (hstored : ∀ m, e.middle? t = some m → ∃ A, M[t]? = some A)
    (hdead : r₀.dead = []) (hemptied : r₀.emptied = []) (hdetached : r₀.detached = [])
    (hreleased : r₀.released = []) :
    Yields (f.clear e.vocabulary a r₀) g fun r' g' => e.Clears M t C f parts P r₀ r' g' := by
  cases hform : e.form t with
  | relation r => exact h.clear_relation hg ha hform hdead
  | property l => exact h.clear_property hv hg ha hsubject hform hdead hemptied hreleased
  | quad o =>
    obtain ⟨A, hA⟩ := hstored (.middle t) (by simp only [middle?, hform])
    exact h.clear_quad hv hg ha hA hform hdead hemptied hdetached hreleased
  | recording o =>
    have hm : ∃ m, e.middle? t = some m := by
      cases o with
      | resource r => exact ⟨.middle t, by simp only [middle?, hform]⟩
      | literal l => exact ⟨.holder t, by simp only [middle?, hform]⟩
    obtain ⟨m, hm⟩ := hm
    obtain ⟨A, hA⟩ := hstored m hm
    exact h.clear_recording hv hg ha hA hform hdead hemptied hdetached hreleased

/-- Dropping index entries by their rules leaves nothing but vertices of resources to collect. -/
theorem releaseIndexes_yields {F : Facts Part} {r₀ : Removal} {g₀ : Graph}
    (h : e.Sketches t C f parts) (hv : e.vocabulary.Valid) (hg₀ : g₀.Shows P (e.image M))
    (ha : f.Placed (role t parts) P (e.image M) a) (hg : g.Shows P F) (hF : e.Cleared M t C F)
    (hdead : ∀ x ∈ r₀.dead, x ∉ g.vertices) :
    Yields (f.nodes.zipIdx.forM fun (n, i) => Fragment.releaseIndex a r₀ i n) g fun _ g' =>
      g'.Shows P (e.leftover M t C) := by
  have hvertex : ∀ p, .vertex p ∈ F → .vertex p ∈ e.leftover M t C := by
    intro p hp
    by_contra hgone
    obtain ⟨q, x, -, -, heq⟩ := hF.stale _ hp hgone
    cases heq
  have hindex : ∀ {i : Nat} {n : Node}, f.nodes[i]? = some n →
      n.index = (e.contentOf t C (role t parts i)).index := fun hn =>
    congrArg Content.index (h.standsFor hn).content
  refine Fragment.releaseIndexes_yields hg ha hF.subset hg₀.injective hdead hF.base ?_ ?_ hvertex
  · intro y hy hgone
    obtain ⟨p, x, hneeds, hx, rfl⟩ := hF.stale y hy hgone
    obtain ⟨i, n, hn, rfl⟩ := h.player hneeds
    have hreleased := released_iff hv hx (hvertex _ (hg.grounded _ hy))
    exact ⟨i, n, x, hn, hindex hn ▸ hx, hreleased.2 hgone, rfl⟩
  · intro i n hn x hx hp hreleased
    exact (released_iff hv (hindex hn ▸ hx) hp).1 hreleased

/-- Every resource that the statement speaks of is looked at last. -/
theorem mem_keyedVertices (h : e.Sketches t C f parts)
    (ha : f.Placed (role t parts) P (e.image M) a) (hr : r ∈ e.heldBy M t C) :
    P.vertex (.resource r) ∈ f.keyedVertices a := by
  obtain ⟨i, n, hn, hrole⟩ := h.player hr.1
  have hassigned : a[i]? = some (P.vertex (.resource r)) :=
    ha.assigned hn hrole hr.2
  refine List.mem_filterMap.2 ⟨(n, i), List.mem_filter.2 ⟨?_, ?_⟩, hassigned⟩
  · exact List.mem_zipIdx_iff_getElem?.2 hn
  · exact (h.isKeyed_iff hn).2 ⟨r, hrole⟩

theorem removeAssigned_yields (h : e.Sketches t C f parts) (hv : e.vocabulary.Valid)
    (hg : g.Shows P (e.image M)) (ha : f.Placed (role t parts) P (e.image M) a)
    (hsubject : .vertex (.resource t.subject) ∈ e.image M)
    (hstored : ∀ m, e.middle? t = some m → ∃ A, M[t]? = some A) :
    Yields (f.removeAssigned e.vocabulary a) g fun x g' =>
      g'.Shows P (e.image (M.remove t C)) ∧
      ∀ c, c ∈ x.2 ↔ M.Dropped t C ∧ ∃ y ∈ e.texts t, c = .erase (P.text y) := by
  rw [Fragment.removeAssigned_eq]
  refine (h.clear_yields hv hg ha hsubject hstored rfl rfl rfl rfl).bind ?_
  rintro r' g' ⟨⟨F, hg', hF, htouched, hdead⟩, hmarked⟩
  refine (h.releaseIndexes_yields hv hg ha hg' hF hdead).bind fun _ g'' hg'' => ?_
  refine (collectAll_yields hv hg'' fun s hs => ?_).bind fun _ g₃ hg₃ => Yields.pure ⟨hg₃, fun c => ?_⟩
  · refine Std.ExtTreeSet.mem_toList.2 (htouched _ ?_)
    exact Std.ExtTreeSet.mem_ofList.2 (List.contains_iff_mem.2 (h.mem_keyedVertices ha hs))
  · refine h.mem_removedTexts ha ?_ hmarked
    rintro ⟨⟨A, hA⟩, -⟩ ⟨p, x⟩ hy
    exact ⟨t, A, hA, depicts_vertex.2 (needs_of_texts hy)⟩

/-- Removing the fragment removes the statement, and takes back the texts of a triple that is
dropped. -/
theorem removeFrom_yields (h : e.Sketches t C f parts) (hv : e.vocabulary.Valid)
    (hg : g.Shows P (e.image M)) :
    Yields (f.removeFrom e.vocabulary) g fun x g' => g'.Shows P (e.image (M.remove t C)) ∧
      ∀ c, c ∈ x.2 ↔ M.Dropped t C ∧ ∃ y ∈ e.texts t, c = .erase (P.text y) := by
  have hg₀ : g.Shows P (e.imageWith M ∅) := imageWith_empty.symm ▸ hg
  refine Yields.graph_bind ?_
  cases hlocate : f.locate? g with
  | none =>
    have hnone : M[t]? = none := by
      rw [Option.eq_none_iff_forall_ne_some]
      intro A hA
      obtain ⟨a, ha⟩ := h.locate_stored hv hg₀ hA
      rw [hlocate] at ha
      cases ha
    refine Yields.pure ⟨(Dataset.remove_of_none hnone).symm ▸ hg, fun c => ?_⟩
    simp [Dataset.Dropped, hnone]
  | some a =>
    obtain ⟨ha, hsubject, hstored⟩ := h.locate_placed hv hg₀ hlocate
    rw [imageWith_empty] at ha hsubject
    exact h.removeAssigned_yields hv hg ha hsubject hstored

end Sketches

end Encoder

end QuadStore
