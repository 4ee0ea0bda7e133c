import Mathlib
import QuadStore.Proofs.Encoder.Casting
import QuadStore.Proofs.Encoder.Collecting
import QuadStore.Proofs.Encoder.Telling
import QuadStore.Proofs.Fragment.Releasing
/-!
# What a removal takes out

Of what the graph says of a triple, a removal is to take out what speaks of the graphs that it
names, and everything else that is not about a resource once nothing of the triple is left. Index
entries go last, by their rules, and so do vertices of resources.
-/

namespace QuadStore

namespace Encoder

variable {e : Encoder} {M : Dataset} {R : Set Resource} {t : Triple} {A C : UriSet} {m p : Part}
  {r : Resource} {l : Literal} {o : Value} {y : Fact Part (Bond Part)}

/-- The resources with a vertex that the triple in these graphs needs. -/
def heldBy (e : Encoder) (M : Dataset) (t : Triple) (C : UriSet) : Set Resource :=
  {r | e.Needs t C (.resource r) ∧ .vertex (.resource r) ∈ e.image M}

/-- What is to be said while vertices of resources are still to be collected. -/
def leftover (e : Encoder) (M : Dataset) (t : Triple) (C : UriSet) : Facts Part :=
  e.imageWith (M.remove t C) (e.heldBy M t C)

theorem leftover_subset : e.leftover M t C ⊆ e.image M := by
  rintro y (⟨u, B, hB, hy⟩ | ⟨r, ⟨-, hvertex⟩, hy⟩)
  · obtain ⟨A, hA, hsub⟩ := Dataset.some_of_remove hB
    exact ⟨u, A, hA, hy.mono hsub⟩
  · rw [← imageWith_empty] at hvertex ⊢
    exact settled.facts _ hvertex hy

theorem leftover_of_none (h : M[t]? = none) : e.leftover M t C = e.image M := by
  rw [leftover, Dataset.remove_of_none h]
  refine imageWith_of_needed fun r hr => ?_
  obtain ⟨u, A, hA, hneeds⟩ := hr.2
  exact ⟨u, A, hA, depicts_vertex.1 hneeds⟩

/-- What is said of a triple that is left is left. -/
theorem left_of_depicts (hA : M[t]? = some A) (hdrops : ¬Dataset.Drops A C)
    (hy : e.Depicts t (A \ C) y) : y ∈ e.leftover M t C := by
  refine .inl ⟨t, A \ C, ?_, hy⟩
  rw [Dataset.getElem?_remove hA, if_pos rfl, if_neg hdrops]

/-- What is said of a resource stays for now. -/
theorem resource_left (hA : M[t]? = some A) (h : e.Needs t A (.resource r))
    (hy : y ∈ (e.vocabulary.identity (.resource r)).facts (.resource r)) :
    y ∈ e.leftover M t C := by
  by_cases hC : e.Needs t C (.resource r)
  · exact .inr ⟨r, ⟨hC, t, A, hA, depicts_vertex.2 h⟩, hy⟩
  · have hrest : e.Needs t (A \ C) (.resource r) ∧ ¬∀ c ∈ A, c ∈ C := by
      rcases needs_iff.1 h with heq | ⟨r', hr', heq⟩ | hm | ho | ⟨c, hc, ⟨o, ho⟩, heq⟩
      · exact absurd (heq ▸ .subject) hC
      · exact absurd (heq ▸ .object hr') hC
      · exact absurd rfl (middle_ne_resource hm)
      · exact absurd (.target ho) hC
      · have hnot : c ∉ C := fun hc' => hC (heq ▸ .context ho hc')
        exact ⟨heq ▸ .context ho (Std.ExtTreeSet.mem_diff_iff.2 ⟨hc, hnot⟩),
          fun hall => hnot (hall c hc)⟩
    exact left_of_depicts hA (fun hdrops => hrest.2 (Dataset.drops_iff.1 hdrops).1)
      (.identity hrest.1 hy)

/-- A fact of another triple is left. -/
theorem depicts_of_gone (hy : y ∈ e.image M) (hgone : y ∉ e.leftover M t C) :
    ∃ A, M[t]? = some A ∧ e.Depicts t A y := by
  cases hA : M[t]? with
  | none =>
    rw [leftover_of_none hA] at hgone
    exact absurd hy hgone
  | some A =>
    obtain ⟨u, B, hB, hy⟩ := hy
    by_cases heq : t = u
    · subst heq
      rw [hA] at hB
      cases hB
      exact ⟨A, rfl, hy⟩
    · refine absurd (.inl ⟨u, B, ?_, hy⟩) hgone
      rw [Dataset.getElem?_remove hA, if_neg heq, hB]

/-- An index entry of a node that removes the triple. -/
def Stale (e : Encoder) (t : Triple) (C : UriSet) (y : Fact Part (Bond Part)) : Prop :=
  ∃ p x, e.Needs t C p ∧ x ∈ (e.contentOf t C p).index ∧ y = .indexed p x.entry

theorem Stale.of_depicts {entry : Entry} (h : e.Depicts t C (.indexed p entry)) :
    e.Stale t C (.indexed p entry) := by
  rcases h.cast with ⟨q, -, hf⟩ | ⟨q, hq, ⟨_, -, hf⟩ | ⟨_, -, hf⟩ | ⟨x, hx, hf⟩⟩ |
    ⟨s, -, hf | ⟨_, -, hf⟩⟩
  · exact absurd hf Identity.indexed_mem
  · cases hf
  · cases hf
  · exact ⟨q, x, hq, hx, hf⟩
  · cases hf
  · cases hf

section Gone

variable (hA : M[t]? = some A) (hgone : y ∉ e.leftover M t C)

include hA hgone

/-- What speaks of no graph goes only with the triple. -/
theorem drops_of_gone (hy : e.Depicts t ∅ y) : Dataset.Drops A C := by
  by_contra hdrops
  exact hgone (left_of_depicts hA hdrops (hy.mono fun c hc => absurd hc Std.ExtTreeSet.not_mem_empty))

/-- What speaks of a graph goes only if the removal names the graph. -/
theorem named_of_gone {c : Uri} (hc : c ∈ A) (hy : c ∈ A \ C → e.Depicts t (A \ C) y) : c ∈ C := by
  by_contra hnot
  have hdrops : ¬Dataset.Drops A C := fun hdrops => hnot ((Dataset.drops_iff.1 hdrops).1 c hc)
  exact hgone (left_of_depicts hA hdrops (hy (Std.ExtTreeSet.mem_diff_iff.2 ⟨hc, hnot⟩)))

/-! ## One form after the other -/

theorem identity_left (hdirect : e.middle? t = none) (h : e.Needs t A p) :
    y ∉ (e.vocabulary.identity p).facts p := by
  intro hf
  by_cases hp : ∃ r, p = .resource r
  · obtain ⟨r, rfl⟩ := hp
    exact hgone (resource_left hA h hf)
  · push Not at hp
    rcases unkeyed_needs h hp with hm | ho
    · rw [hdirect] at hm
      cases hm
    · rw [target_of_direct hdirect] at ho
      cases ho

theorem relation_gone (hform : e.form t = .relation r) (hy : e.Depicts t A y) :
    (Dataset.Drops A C ∧ y = .bond ⟨.resource t.subject, t.predicate.text, .resource r⟩) ∨
      (∃ c ∈ C, y = .edgeProperty ⟨.resource t.subject, t.predicate.text, .resource r⟩
        ⟨e.vocabulary.contextsKey, c.text⟩) ∨
      e.Stale t C y := by
  cases hy with
  | identity h hf =>
    exact absurd hf (identity_left hA hgone (by simp only [middle?, hform]) h)
  | relation h =>
    rw [hform] at h
    cases h
    exact .inl ⟨drops_of_gone hA hgone (.relation hform), rfl⟩
  | relationContext h hc =>
    rw [hform] at h
    cases h
    exact .inr (.inl ⟨_, named_of_gone hA hgone hc (.relationContext hform), rfl⟩)
  | relationIndex h hfinds hc =>
    exact .inr (.inr (.of_depicts
      (.relationIndex h hfinds (named_of_gone hA hgone hc (.relationIndex h hfinds)))))
  | property h | propertyContext h hc | propertyIndex h | context h hc | record h hm hc
  | recordIndex h hm hc | literalIndex h | holderIndex h =>
    rw [hform] at h
    cases h
  | entering hm | leaving hm ho => simp [middle?, hform] at hm

theorem property_gone (hform : e.form t = .property l) (hy : e.Depicts t A y) :
    (Dataset.Drops A C ∧ y = .property (.resource t.subject) ⟨t.predicate.text, l.encode⟩) ∨
      (∃ c ∈ C, y = .property (.resource t.subject)
        ⟨e.vocabulary.contextsKeyOf t.predicate l.encode, c.text⟩) ∨
      e.Stale t C y := by
  cases hy with
  | identity h hf =>
    exact absurd hf (identity_left hA hgone (by simp only [middle?, hform]) h)
  | property h =>
    rw [hform] at h
    cases h
    exact .inl ⟨drops_of_gone hA hgone (.property hform), rfl⟩
  | propertyContext h hc =>
    rw [hform] at h
    cases h
    exact .inr (.inl ⟨_, named_of_gone hA hgone hc (.propertyContext hform), rfl⟩)
  | propertyIndex h => exact .inr (.inr (.of_depicts (.propertyIndex h)))
  | relation h | relationContext h hc | relationIndex h hfinds hc | context h hc | record h hm hc
  | recordIndex h hm hc | literalIndex h | holderIndex h =>
    rw [hform] at h
    cases h
  | entering hm | leaving hm ho => simp [middle?, hform] at hm

/-- Around a middle vertex everything but what lists graphs rests on the middle vertex or on the
literal vertex that it owns. -/
theorem middle_gone (hm : e.middle? t = some m) (hy : e.Depicts t A y) (F : Facts Part) :
    (Dataset.Drops A C ∧ (y.DependsOn F m ∨
      ((∃ l, e.form t = .quad (.literal l)) ∧ y.DependsOn F (.literal t)))) ∨
      ((∃ o, e.form t = .quad o) ∧ ∃ c ∈ C,
        y = .bond ⟨.middle t, e.vocabulary.contextEdgeLabel, .resource (.uri c)⟩) ∨
      ((∃ o, e.form t = .recording o) ∧ ∃ c ∈ C,
        y = .property m ⟨e.vocabulary.contextsKey, c.text⟩) ∨ e.Stale t C y := by
  cases hy with
  | @identity p y h hf =>
    by_cases hp : ∃ r, p = .resource r
    · obtain ⟨r, rfl⟩ := hp
      exact absurd (resource_left hA h hf) hgone
    · push Not at hp
      have hdepends : y.DependsOn F p := (Identity.dependsOn_iff hf).2 rfl
      rcases unkeyed_needs h hp with hm' | ho
      · rw [hm] at hm'
        cases hm'
        exact .inl ⟨drops_of_gone hA hgone (.identity (.middle hm) hf), .inl hdepends⟩
      · rcases target_eq ho with ⟨r, -, rfl⟩ | ⟨l, hform, rfl⟩
        · exact absurd rfl (hp r)
        · exact .inl ⟨drops_of_gone hA hgone (.identity (.target ho) hf),
            .inr ⟨⟨l, hform⟩, hdepends⟩⟩
  | relation h | relationContext h hc | relationIndex h hfinds hc | property h
  | propertyContext h hc | propertyIndex h => simp [middle?, h] at hm
  | entering hm' =>
    rw [hm] at hm'
    cases hm'
    exact .inl ⟨drops_of_gone hA hgone (.entering hm), .inl (.inr rfl)⟩
  | leaving hm' ho =>
    rw [hm] at hm'
    cases hm'
    exact .inl ⟨drops_of_gone hA hgone (.leaving hm ho), .inl (.inl rfl)⟩
  | context h hc =>
    exact .inr (.inl ⟨⟨_, h⟩, _, named_of_gone hA hgone hc (.context h), rfl⟩)
  | record h hm' hc =>
    rw [hm] at hm'
    cases hm'
    exact .inr (.inr (.inl ⟨⟨_, h⟩, _, named_of_gone hA hgone hc (.record h hm), rfl⟩))
  | recordIndex h hm' hc =>
    rw [hm] at hm'
    cases hm'
    exact .inr (.inr (.inr (.of_depicts
      (.recordIndex h hm (named_of_gone hA hgone hc (.recordIndex h hm))))))
  | literalIndex h =>
    exact .inl ⟨drops_of_gone hA hgone (.literalIndex h), .inr ⟨⟨_, h⟩, rfl⟩⟩
  | holderIndex h =>
    simp only [middle?, h, Option.some.injEq] at hm
    subst hm
    exact .inl ⟨drops_of_gone hA hgone (.holderIndex h), .inl rfl⟩

end Gone

/-! ## What is left of the image -/

/-- All that is left beside what is to be left are index entries that their rules may drop. -/
structure Cleared (e : Encoder) (M : Dataset) (t : Triple) (C : UriSet) (F : Facts Part) : Prop where
  base : e.leftover M t C ⊆ F
  subset : F ⊆ e.image M
  stale : ∀ y ∈ F, y ∉ e.leftover M t C → e.Stale t C y

/-- The graphs of a triple, if any. -/
abbrev graphsOf (M : Dataset) (t : Triple) : UriSet := M[t]?.getD ∅

theorem Cleared.of_none (h : M[t]? = none) : e.Cleared M t C (e.image M) where
  base := leftover_subset
  subset := subset_rfl
  stale y hy hgone := by
    rw [leftover_of_none h] at hgone
    exact absurd hy hgone

theorem relation_cleared (hform : e.form t = .relation r) :
    e.Cleared M t C (if Dataset.Drops (graphsOf M t) C then
      {y ∈ e.image M | ¬y.OnEdge ⟨.resource t.subject, t.predicate.text, .resource r⟩}
      else e.image M \ {y | ∃ c ∈ C, y = .edgeProperty
        ⟨.resource t.subject, t.predicate.text, .resource r⟩
        ⟨e.vocabulary.contextsKey, c.text⟩}) := by
  have hsubset : ∀ {y}, y ∈ (if Dataset.Drops (graphsOf M t) C then
      {y ∈ e.image M | ¬y.OnEdge ⟨.resource t.subject, t.predicate.text, .resource r⟩}
      else e.image M \ {y | ∃ c ∈ C, y = .edgeProperty
        ⟨.resource t.subject, t.predicate.text, .resource r⟩
        ⟨e.vocabulary.contextsKey, c.text⟩}) → y ∈ e.image M := fun hy => by
    split at hy <;> exact hy.1
  refine ⟨fun y hy => ?_, fun y hy => hsubset hy, fun y hy hgone => ?_⟩
  · split
    · rename_i hdrops
      refine ⟨leftover_subset hy, fun hon => ?_⟩
      have hthere := Fact.bond_of_onEdge imageWith_grounded hy hon
      rw [relation_bond hform] at hthere
      obtain ⟨B, hB⟩ := hthere
      rw [Dataset.remove_self_eq_none hdrops] at hB
      cases hB
    · refine ⟨leftover_subset hy, ?_⟩
      rintro ⟨c, hc, rfl⟩
      rw [leftover, relation_context hform] at hy
      obtain ⟨B, hB, d, hd, heq⟩ := hy
      rw [Uri.ext (Entry.mk.inj heq).2] at hc
      exact Dataset.notMem_of_remove_self hB hd hc
  · obtain ⟨A, hA, hdepicts⟩ := depicts_of_gone (hsubset hy) hgone
    rw [graphsOf, hA, Option.getD_some] at hy
    rcases relation_gone hA hgone hform hdepicts with ⟨hdrops, rfl⟩ | ⟨c, hc, rfl⟩ | hstale
    · rw [if_pos hdrops] at hy
      exact absurd rfl hy.2
    · split at hy
      · exact absurd rfl hy.2
      · exact absurd ⟨c, hc, rfl⟩ hy.2
    · exact hstale

theorem property_cleared (hv : e.vocabulary.Valid) (hform : e.form t = .property l) {F : Facts Part}
    (hF : F = e.image M \ {y | ∃ c ∈ C, y = .property (.resource t.subject)
      ⟨e.vocabulary.contextsKeyOf t.predicate l.encode, c.text⟩}) :
    e.Cleared M t C (if Dataset.Drops (graphsOf M t) C then
      F \ {.property (.resource t.subject) ⟨t.predicate.text, l.encode⟩} else F) := by
  have hsubset : ∀ {y}, y ∈ (if Dataset.Drops (graphsOf M t) C then
      F \ {.property (.resource t.subject) ⟨t.predicate.text, l.encode⟩} else F) → y ∈ F :=
    fun hy => by
      split at hy
      · exact hy.1
      · exact hy
  have hkept : e.leftover M t C ⊆ F := by
    intro y hy
    rw [hF]
    refine ⟨leftover_subset hy, ?_⟩
    rintro ⟨c, hc, rfl⟩
    rw [leftover, property_context hv hform] at hy
    obtain ⟨B, hB, d, hd, heq⟩ := hy
    rw [Uri.ext heq] at hc
    exact Dataset.notMem_of_remove_self hB hd hc
  refine ⟨fun y hy => ?_, fun y hy => ?_, fun y hy hgone => ?_⟩
  · split
    · rename_i hdrops
      refine ⟨hkept hy, ?_⟩
      rintro rfl
      rw [leftover, property_value hv hform] at hy
      obtain ⟨B, hB⟩ := hy
      rw [Dataset.remove_self_eq_none hdrops] at hB
      cases hB
    · exact hkept hy
  · have hyF := hsubset hy
    rw [hF] at hyF
    exact hyF.1
  · have hyF := hsubset hy
    rw [hF] at hyF
    obtain ⟨A, hA, hdepicts⟩ := depicts_of_gone hyF.1 hgone
    rw [graphsOf, hA, Option.getD_some] at hy
    rcases property_gone hA hgone hform hdepicts with ⟨hdrops, rfl⟩ | hrest | hstale
    · rw [if_pos hdrops] at hy
      exact absurd rfl hy.2
    · exact absurd hrest hyF.2
    · exact hstale

/-- What lists these graphs at the middle vertex of the triple. -/
def recorded (e : Encoder) (t : Triple) (C : UriSet) : Facts Part :=
  {y | ∃ c ∈ C, ((∃ o, e.form t = .quad o) ∧
      y = .bond ⟨.middle t, e.vocabulary.contextEdgeLabel, .resource (.uri c)⟩) ∨
    ((∃ o, e.form t = .recording o) ∧ ∃ m, e.middle? t = some m ∧
      y = .property m ⟨e.vocabulary.contextsKey, c.text⟩)}

/-- The edge to the literal vertex that goes with the middle vertex. -/
def ownedBond (e : Encoder) (t : Triple) : Option (Bond Part) :=
  match e.form t with
  | .quad (.literal _) => some ⟨.middle t, t.predicate.text, .literal t⟩
  | _ => none

theorem ownedBond_eq {b : Bond Part} (h : e.ownedBond t = some b) :
    (∃ l, e.form t = .quad (.literal l)) ∧ b = ⟨.middle t, t.predicate.text, .literal t⟩ := by
  unfold ownedBond at h
  split at h
  · rename_i l hform
    exact ⟨⟨l, hform⟩, (Option.some.inj h).symm⟩
  · cases h

/-- Nothing is said of a triple that is gone. -/
theorem notMem_leftover_of_dependsOn (hdrops : Dataset.Drops (graphsOf M t) C) {F : Facts Part}
    (hF : ∀ y ∈ F, y.Grounded F) (hp : p.triple? = some t) (hy : y ∈ e.leftover M t C) :
    ¬y.DependsOn F p := by
  intro hdepends
  obtain ⟨B, hB⟩ := stored_of_vertex
    (Fact.vertex_of_dependsOn imageWith_grounded hF hy hdepends) hp
  rw [Dataset.remove_self_eq_none hdrops] at hB
  cases hB

theorem leftover_recorded (hv : e.vocabulary.Valid) :
    e.leftover M t C ⊆ e.image M \ e.recorded t C := by
  intro y hy
  refine ⟨leftover_subset hy, ?_⟩
  rintro ⟨c, hc, ⟨-, rfl⟩ | ⟨-, m, hm, rfl⟩⟩
  · rw [leftover, context_bond hv] at hy
    obtain ⟨u, B, o, hB, -, heq, d, hd, heq'⟩ := hy
    rw [← Part.middle.inj heq] at hB
    rw [Resource.uri.inj (Part.resource.inj heq')] at hc
    exact Dataset.notMem_of_remove_self hB hd hc
  · rw [leftover, record_context hv] at hy
    obtain ⟨u, B, o, hB, -, hm', d, hd, heq⟩ := hy
    rw [← middle_injective hm hm'] at hB
    rw [Uri.ext heq] at hc
    exact Dataset.notMem_of_remove_self hB hd hc

theorem middle_cleared (hv : e.vocabulary.Valid) (hm : e.middle? t = some m) {F : Facts Part}
    (hF : F = e.image M \ e.recorded t C) (hgrounded : ∀ y ∈ F, y.Grounded F) :
    e.Cleared M t C (if Dataset.Drops (graphsOf M t) C then
      {y ∈ F | ¬y.DependsOn F m ∧ ∀ b, e.ownedBond t = some b → ¬y.DependsOn F b.target}
      else F) := by
  have hsubset : ∀ {y}, y ∈ (if Dataset.Drops (graphsOf M t) C then
      {y ∈ F | ¬y.DependsOn F m ∧ ∀ b, e.ownedBond t = some b → ¬y.DependsOn F b.target}
      else F) → y ∈ e.image M \ e.recorded t C := fun hy => by
    rw [← hF]
    split at hy
    · exact hy.1
    · exact hy
  refine ⟨fun y hy => ?_, fun y hy => (hsubset hy).1, fun y hy hgone => ?_⟩
  · have hyF : y ∈ F := hF ▸ leftover_recorded hv hy
    split
    · rename_i hdrops
      refine ⟨hyF, notMem_leftover_of_dependsOn hdrops hgrounded (triple_of_middle hm) hy,
        fun b hb => ?_⟩
      obtain ⟨-, rfl⟩ := ownedBond_eq hb
      exact notMem_leftover_of_dependsOn (p := .literal t) hdrops hgrounded rfl hy
    · exact hyF
  · obtain ⟨hin, hnot⟩ := hsubset hy
    obtain ⟨A, hA, hdepicts⟩ := depicts_of_gone hin hgone
    rw [graphsOf, hA, Option.getD_some] at hy
    rcases middle_gone hA hgone hm hdepicts F with ⟨hdrops, hdepends⟩ | ⟨hform, c, hc, rfl⟩ |
      ⟨hform, c, hc, rfl⟩ | hstale
    · rw [if_pos hdrops] at hy
      rcases hdepends with hdepends | ⟨⟨l, hform⟩, hdepends⟩
      · exact absurd hdepends hy.2.1
      · exact absurd hdepends (hy.2.2 ⟨.middle t, t.predicate.text, .literal t⟩ (by simp only [ownedBond, hform]))
    · exact absurd ⟨c, hc, .inl ⟨hform, rfl⟩⟩ hnot
    · exact absurd ⟨c, hc, .inr ⟨hform, m, hm, rfl⟩⟩ hnot
    · exact hstale

end Encoder

end QuadStore
