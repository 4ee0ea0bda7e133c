import Mathlib
import QuadStore.Fragment.Removal
import QuadStore.Proofs.Encoder.Shapes
import QuadStore.Proofs.Graph.Writing
/-!
# Collecting vertices of resources

A vertex of a resource that no stored triple needs has no edge and only the property it is found by,
and every other vertex has more. So what is collected is exactly what nothing is said about.
-/

namespace QuadStore

namespace EntrySet

variable {s : EntrySet} {entry : Entry}

theorem keys_singleton (h : ∀ other, other ∈ s ↔ other = entry) : s.keys = [entry.key] := by
  have hlist : s.toList = [entry] :=
    eq_toList_of_nodup (o := some entry) s.nodup_toList fun other => by
      rw [Std.ExtTreeSet.mem_toList, h, Option.some.injEq, eq_comm]
  rw [keys, hlist]
  rfl

end EntrySet

namespace Encoder

variable {e : Encoder} {M : Dataset} {R : Set Resource} {t : Triple} {A : UriSet} {p : Part}
  {s : Resource} {g : Graph} {P : Placement Part} {r : Removal} {x : VertexId}

/-- A stored triple needs the vertex of the resource. -/
def NeededIn (e : Encoder) (M : Dataset) (s : Resource) : Prop :=
  ∃ t A, M[t]? = some A ∧ e.Needs t A (.resource s)

theorem imageWith_of_needed (h : ∀ s ∈ R, e.NeededIn M s) : e.imageWith M R = e.image M := by
  refine Set.union_eq_left.2 ?_
  rintro y ⟨s, hs, hy⟩
  obtain ⟨t, A, hA, hneeds⟩ := h s hs
  exact ⟨t, A, hA, .identity hneeds hy⟩

/-- The ends of an edge are needed. -/
theorem ends_needed {b : Bond Part} (h : e.Depicts t A (.bond b)) :
    e.Needs t A b.source ∧ e.Needs t A b.target := by
  obtain ⟨r, hr, rfl⟩ | ⟨m, hm, rfl⟩ | ⟨m, o, hm, ho, rfl⟩ | ⟨o, ho, c, hc, rfl⟩ := depicts_bond.1 h
  · exact ⟨.subject, .object (object_of_form hr)⟩
  · exact ⟨.subject, .middle hm⟩
  · exact ⟨.middle hm, .target ho⟩
  · exact ⟨.middle (by simp only [middle?, ho]), .context ho hc⟩

/-- A triple that needs the vertex of a resource has an edge there or a property of its own. -/
theorem trace_of_needs (h : e.Needs t A (.resource s)) :
    (∃ b, e.Depicts t A (.bond b) ∧ (b.source = .resource s ∨ b.target = .resource s)) ∨
      ∃ l, e.Depicts t A (.property (.resource s) ⟨t.predicate.text, Literal.encode l⟩) := by
  have hsubject : (∃ b, e.Depicts t A (.bond b) ∧
      (b.source = .resource t.subject ∨ b.target = .resource t.subject)) ∨
      ∃ l, e.Depicts t A (.property (.resource t.subject) ⟨t.predicate.text, Literal.encode l⟩) := by
    cases hform : e.form t with
    | relation r => exact .inl ⟨_, .relation hform, .inl rfl⟩
    | property l => exact .inr ⟨l, .property hform⟩
    | quad o => exact .inl ⟨_, .entering (m := .middle t) (by simp only [middle?, hform]), .inl rfl⟩
    | recording o =>
      cases o with
      | resource r =>
        exact .inl ⟨_, .entering (m := .middle t) (by simp only [middle?, hform]), .inl rfl⟩
      | literal l =>
        exact .inl ⟨_, .entering (m := .holder t) (by simp only [middle?, hform]), .inl rfl⟩
  have hobject : t.object = .resource s → ∃ b, e.Depicts t A (.bond b) ∧
      (b.source = .resource s ∨ b.target = .resource s) := by
    intro ho
    cases hform : e.form t with
    | relation r =>
      rw [object_of_form hform] at ho
      cases ho
      exact ⟨_, .relation hform, .inr rfl⟩
    | property l =>
      rw [object_of_form hform] at ho
      cases ho
    | quad o | recording o =>
      rw [object_of_form hform] at ho
      obtain rfl : o = .resource s := ho
      exact ⟨_, .leaving (m := .middle t) (o := .resource s) (by simp only [middle?, hform])
        (by simp only [target?, hform]), .inr rfl⟩
  obtain heq | ⟨r, hr, heq⟩ | heq | heq | ⟨c, hc, ⟨o, ho⟩, heq⟩ := needs_iff.1 h
  · rw [heq]
    exact hsubject
  · obtain rfl := Part.resource.inj heq
    exact .inl (hobject hr)
  · exact absurd rfl (middle_ne_resource heq)
  · obtain ⟨r, hr, hrs⟩ | ⟨l, -, hrs⟩ := target_eq heq
    · exact .inl (hobject (Part.resource.inj hrs ▸ hr))
    · cases hrs
  · rw [heq]
    exact .inl ⟨_, .context ho hc, .inr rfl⟩

/-- What is said of a resource that no triple needs is whose vertex it is. -/
theorem property_of_spare (hs : ¬e.NeededIn M s) {entry : Entry}
    (h : .property (.resource s) entry ∈ e.imageWith M R) :
    entry = e.vocabulary.resourceEntry s := by
  rcases property_mem_imageWith.1 h with ⟨-, hhas⟩ | ⟨t, A, l, hA, -, heq, -⟩ |
    ⟨t, A, o, hA, -, hm, -⟩
  · exact hhas
  · exact absurd ⟨t, A, hA, heq ▸ .subject⟩ hs
  · exact absurd rfl (middle_ne_resource hm)

/-- Nothing is said of the vertex but whose it is. -/
def Idle (F : Facts Part) (v : Vocabulary) (p : Part) : Prop :=
  (∀ b, .bond b ∈ F → ¬b.Meets p .both) ∧
    ∀ entry, .property p entry ∈ F → entry.key = v.uriKey ∨ entry.key = v.blankKey

theorem idle_iff (hv : e.vocabulary.Valid) (hp : .vertex p ∈ e.imageWith M R) :
    Idle (e.imageWith M R) e.vocabulary p ↔ ∃ s, p = .resource s ∧ ¬e.NeededIn M s := by
  have hkeys := (List.nodup_cons.1 hv.nodup_keys).2
  simp only [Vocabulary.identityKeys, List.nodup_cons, List.mem_cons, not_or] at hkeys
  constructor
  · rintro ⟨hbonds, hproperties⟩
    cases hshape : p.shape with
    | some y =>
      obtain ⟨kind, l⟩ := y
      have hkind : .property p ⟨e.vocabulary.kindKey, kind⟩ ∈ e.imageWith M R := by
        refine property_mem_imageWith.2 (.inl ⟨hp, ?_⟩)
        rw [Part.identity_of_shape hshape]
        exact List.mem_cons_self ..
      obtain heq | heq := hproperties _ hkind
      · exact absurd heq.symm hkeys.1.2.1
      · exact absurd heq.symm hkeys.2.1.1
    | none =>
      obtain ⟨s, rfl⟩ := Part.shape_eq_none.1 hshape
      refine ⟨s, rfl, ?_⟩
      rintro ⟨t, A, hA, hneeds⟩
      obtain ⟨b, hb, hends⟩ | ⟨l, hl⟩ := trace_of_needs hneeds
      · exact hbonds b (.inl ⟨t, A, hA, hb⟩) hends
      · obtain heq | heq := hproperties _ (.inl ⟨t, A, hA, hl⟩)
        · exact hv.text_ne t.predicate (List.mem_of_getElem? (i := 0) rfl) heq
        · exact hv.text_ne t.predicate (List.mem_of_getElem? (i := 1) rfl) heq
  · rintro ⟨s, rfl, hnot⟩
    refine ⟨fun b hb hmeets => ?_, fun entry hentry => ?_⟩
    · obtain ⟨t, A, hA, hb⟩ := bond_mem_imageWith.1 hb
      obtain ⟨hsource, htarget⟩ := ends_needed hb
      obtain heq | heq := hmeets
      · exact hnot ⟨t, A, hA, heq ▸ hsource⟩
      · exact hnot ⟨t, A, hA, heq ▸ htarget⟩
    · rw [property_of_spare hnot hentry]
      cases s
      · exact .inl rfl
      · exact .inr rfl

/-- A vertex that no triple needs takes with it only what is said of its resource. -/
theorem spare_deleted (hs : ¬e.NeededIn M s) :
    {f ∈ e.imageWith M R | ¬f.DependsOn (e.imageWith M R) (.resource s)} =
      e.imageWith M (R \ {s}) := by
  have hown : ∀ {r : Resource} {f : Fact Part (Bond Part)},
      f ∈ (e.vocabulary.identity (.resource r)).facts (.resource r) →
        (f.DependsOn (e.imageWith M R) (.resource s) ↔ r = s) := fun hf =>
    (Identity.dependsOn_iff hf).trans ⟨Part.resource.inj, congrArg _⟩
  ext f
  constructor
  · rintro ⟨hf | ⟨r, hr, hf⟩, hnot⟩
    · exact .inl hf
    · exact .inr ⟨r, ⟨hr, mt (hown hf).2 hnot⟩, hf⟩
  · rintro (hf | ⟨r, ⟨hr, hne⟩, hf⟩)
    · refine ⟨.inl hf, fun hdepends => hs ?_⟩
      obtain ⟨t, A, hA, hneeds⟩ :=
        Fact.vertex_of_dependsOn image_grounded imageWith_grounded hf hdepends
      exact ⟨t, A, hA, depicts_vertex.1 hneeds⟩
    · exact ⟨.inr ⟨r, hr, hf⟩, mt (hown hf).1 hne⟩

theorem edgesAt_isEmpty (hg : g.Shows P (e.imageWith M R)) (hp : .vertex p ∈ e.imageWith M R) :
    (g.edgesAt (P.vertex p) none .both).isEmpty ↔
      ∀ b, .bond b ∈ e.imageWith M R → ¬b.Meets p .both := by
  obtain ⟨bs, -, hmap, hmem⟩ := hg.edgesAt_eq hp none .both
  rw [← hmap, List.isEmpty_iff, List.map_eq_nil_iff, List.eq_nil_iff_forall_not_mem]
  simp [hmem]

/-- The vertices that are collected are those of resources that no triple needs. -/
theorem collects_iff (hv : e.vocabulary.Valid) (hg : g.Shows P (e.imageWith M R))
    (hp : .vertex p ∈ e.imageWith M R) :
    (g.hasVertex (P.vertex p) && (g.edgesAt (P.vertex p) none .both).isEmpty &&
      Fragment.isBare e.vocabulary (g.propertiesOf (P.vertex p))) ↔
      ∃ s, p = .resource s ∧ ¬e.NeededIn M s := by
  have hthere : g.hasVertex (P.vertex p) := by
    rw [Graph.hasVertex, Std.ExtTreeMap.contains_iff_mem]
    exact hg.vertex_mem hp
  rw [hthere, Bool.true_and, Bool.and_eq_true, edgesAt_isEmpty hg hp]
  constructor
  · rintro ⟨hedges, hbare⟩
    refine (idle_iff hv hp).1 ⟨hedges, fun entry hentry => ?_⟩
    have hkey : entry.key ∈ (g.propertiesOf (P.vertex p)).keys :=
      EntrySet.mem_keys.2 ⟨entry.value, (hg.mem_propertiesOf hp).2 hentry⟩
    unfold Fragment.isBare at hbare
    split at hbare
    · rename_i heq
      rw [heq, List.mem_singleton] at hkey
      rw [hkey]
      simpa using hbare
    · cases hbare
  · rintro ⟨s, rfl, hs⟩
    refine ⟨((idle_iff hv hp).2 ⟨s, rfl, hs⟩).1, ?_⟩
    have hentry : ∀ other, other ∈ g.propertiesOf (P.vertex (.resource s)) ↔
        other = e.vocabulary.resourceEntry s := by
      intro other
      rw [hg.mem_propertiesOf hp]
      constructor
      · exact property_of_spare hs
      · rintro rfl
        exact property_mem_imageWith.2 (.inl ⟨hp, rfl⟩)
    rw [Fragment.isBare, EntrySet.keys_singleton hentry]
    cases s <;> simp [Vocabulary.resourceEntry]

theorem collect_yields (hv : e.vocabulary.Valid) (hg : g.Shows P (e.imageWith M R)) :
    Yields (Fragment.collect e.vocabulary r x) g fun _ g' =>
      ∃ R' ⊆ R, g'.Shows P (e.imageWith M R') ∧
        ∀ s ∈ R', P.vertex (.resource s) = x → e.NeededIn M s := by
  unfold Fragment.collect
  refine Yields.graph_bind ?_
  by_cases hx : x ∈ g.vertices
  · obtain ⟨p, hp, rfl⟩ := hg.mem_vertices.1 hx
    have hsame : ∀ s ∈ R, P.vertex (.resource s) = P.vertex p → p = .resource s := fun s hs heq =>
      hg.injective _ _ hp (vertex_mem_imageWith.2 (.inr ⟨s, hs, rfl⟩)) heq.symm
    by_cases hspare : ∃ s, p = .resource s ∧ ¬e.NeededIn M s
    · obtain ⟨s, rfl, hs⟩ := hspare
      rw [if_pos ((collects_iff hv hg hp).2 ⟨s, rfl, hs⟩)]
      refine (hg.deleteVertex hp).bind ?_
      rintro answer g' ⟨rfl, hg'⟩
      rw [spare_deleted hs] at hg'
      refine Yields.pure ⟨_, Set.sdiff_subset, hg', fun s' hs' heq => ?_⟩
      exact absurd (Part.resource.inj (hsame s' hs'.1 heq)).symm hs'.2
    · rw [if_neg (mt (collects_iff hv hg hp).1 hspare)]
      refine Yields.pure ⟨R, subset_rfl, hg, fun s hs heq => ?_⟩
      by_contra hnot
      exact hspare ⟨s, hsame s hs heq, hnot⟩
  · have hgone : g.hasVertex x = false := by
      rw [Graph.hasVertex, ← Bool.not_eq_true, Std.ExtTreeMap.contains_iff_mem]
      exact hx
    rw [hgone, Bool.false_and, Bool.false_and, if_neg Bool.false_ne_true]
    refine Yields.pure ⟨R, subset_rfl, hg, fun s hs heq => ?_⟩
    exact absurd (heq ▸ hg.vertex_mem (vertex_mem_imageWith.2 (.inr ⟨s, hs, rfl⟩))) hx

/-- Once every vertex of a resource that nothing may need any more was looked at, the graph is that
of the dataset. -/
theorem collectAll_yields {xs : List VertexId} (hv : e.vocabulary.Valid)
    (hg : g.Shows P (e.imageWith M R)) (hxs : ∀ s ∈ R, P.vertex (.resource s) ∈ xs) :
    Yields (xs.foldlM (Fragment.collect e.vocabulary) r) g fun _ g' => g'.Shows P (e.image M) := by
  let I (rest : List VertexId) (_ : Removal) (g' : Graph) : Prop :=
    ∃ R', g'.Shows P (e.imageWith M R') ∧
      ∀ s ∈ R', e.NeededIn M s ∨ P.vertex (.resource s) ∈ rest
  have hstart : I xs r g := ⟨R, hg, fun s hs => .inr (hxs s hs)⟩
  refine (Yields.foldlM (I := I) ?_ hstart).mono ?_
  · rintro x - rest r' g' ⟨R', hg', hR'⟩
    refine (collect_yields hv hg').mono ?_
    rintro _ g'' ⟨R'', hsub, hg'', hdone⟩
    refine ⟨R'', hg'', fun s hs => ?_⟩
    rcases hR' s (hsub hs) with hneeded | hmem
    · exact .inl hneeded
    · rcases List.mem_cons.1 hmem with heq | hmem
      · exact .inl (hdone s hs heq)
      · exact .inr hmem
  · rintro _ g' ⟨R', hg', hR'⟩
    rw [← imageWith_of_needed fun s hs => (hR' s hs).resolve_right List.not_mem_nil]
    exact hg'

end Encoder

end QuadStore
