import Mathlib
import QuadStore.Proofs.Encoder.Dropping
import QuadStore.Proofs.Fragment.Reporting
/-!
# What the removal of a statement reports

The image of a dataset tells the dataset, even without its index entries. So a removal that reports
no change left the dataset as it was.
-/

namespace QuadStore

namespace Encoder

variable {e : Encoder} {M N : Dataset} {t : Triple} {A C : UriSet} {f : Fragment}
  {parts : List Part} {g g' : Graph} {P : Placement Part}

/-- What is stored in the dataset of one image is stored in that of another that says as much. -/
theorem stored_of_image (hv : e.vocabulary.Valid)
    (h : ∀ x ∈ e.imageWith M ∅, (∀ p entry, x ≠ .indexed p entry) → x ∈ e.imageWith N ∅)
    (hA : M[t]? = some A) : ∃ B, N[t]? = some B ∧ ∀ c ∈ A, c ∈ B := by
  rcases form_cases e t with ⟨r, hform⟩ | ⟨l, hform⟩ | ⟨m, hm⟩
  · obtain ⟨B, hB⟩ := (relation_bond hform).1 (h _ ((relation_bond hform).2 ⟨A, hA⟩) (by simp [Fact.bond]))
    refine ⟨B, hB, fun c hc => ?_⟩
    obtain ⟨B', hB', d, hd, heq⟩ := (relation_context hform).1
      (h _ ((relation_context hform).2 ⟨A, hA, c, hc, rfl⟩) (by simp))
    cases hB.symm.trans hB'
    rwa [entry_injective heq]
  · obtain ⟨B, hB⟩ := (property_value hv hform).1 (h _ ((property_value hv hform).2 ⟨A, hA⟩) (by simp))
    refine ⟨B, hB, fun c hc => ?_⟩
    obtain ⟨B', hB', d, hd, heq⟩ := (property_context hv hform).1
      (h _ ((property_context hv hform).2 ⟨A, hA, c, hc, rfl⟩) (by simp))
    cases hB.symm.trans hB'
    rwa [Uri.ext heq]
  · have hvertex : .vertex m ∈ e.imageWith M ∅ := vertex_mem_imageWith.2 (.inl ⟨t, A, hA, .middle hm⟩)
    obtain ⟨B, hB⟩ := stored_of_vertex (h _ hvertex (by simp)) (triple_of_middle hm)
    refine ⟨B, hB, fun c hc => ?_⟩
    have hrecorded : ∀ o, e.form t = .recording o → c ∈ B := by
      intro o hform
      obtain ⟨-, d, hd, heq⟩ := (middle_record hv hB hm).1
        (h _ ((middle_record hv hA hm).2 ⟨⟨o, hform⟩, c, hc, rfl⟩) (by simp))
      rwa [Uri.ext heq]
    rcases middle_eq hm with ⟨hform, -⟩ | ⟨⟨r, hform⟩, -⟩ | ⟨⟨l, hform⟩, -⟩
    · obtain ⟨-, d, hd, heq⟩ := (middle_context hv hB hm).1
        (h _ ((middle_context hv hA hm).2 ⟨hform, c, hc, rfl⟩) (by simp [Fact.bond]))
      rwa [Resource.uri.inj (Part.resource.inj heq)]
    · exact hrecorded _ hform
    · exact hrecorded _ hform

/-- Nothing but index entries tells the image of what is left from the image of the dataset only if
nothing was taken out. -/
theorem remove_eq_of_image (hv : e.vocabulary.Valid)
    (h : ∀ x ∈ e.image M, (∀ p entry, x ≠ .indexed p entry) → x ∈ e.image (M.remove t C)) :
    M.remove t C = M := by
  rw [← imageWith_empty, ← imageWith_empty] at h
  apply Std.ExtTreeMap.ext_getElem?
  intro u
  cases hA : M[u]? with
  | none =>
    rw [Option.eq_none_iff_forall_ne_some]
    intro B hB
    obtain ⟨A, hA', -⟩ := Dataset.some_of_remove hB
    rw [hA] at hA'
    cases hA'
  | some A =>
    obtain ⟨B, hB, hsub⟩ := stored_of_image hv h hA
    obtain ⟨A', hA', hsub'⟩ := Dataset.some_of_remove hB
    cases hA.symm.trans hA'
    rw [hB, Option.some.injEq]
    ext c
    exact ⟨hsub' c, hsub c⟩

namespace Sketches

/-- Removing the fragment of a statement reports a change if the statement takes anything out. -/
theorem removeFrom_reports (h : e.Sketches t C f parts) (hv : e.vocabulary.Valid)
    (hg : g.Shows P (e.image M)) :
    Yields (f.removeFrom e.vocabulary) g fun x g' => g'.Shows P (e.image (M.remove t C)) ∧
      (x.1.removed = false → M.remove t C = M) := by
  refine ((h.removeFrom_yields hv hg).and_ensures
    (Fragment.removeFrom_tallies hg.wellFormed)).mono ?_
  rintro x g' ⟨⟨hg', -⟩, htallies⟩
  refine ⟨hg', fun hkept => remove_eq_of_image hv fun y hy hne => ?_⟩
  have hne' : ∀ v entry, y.map P ≠ .indexed v entry := by
    rintro v entry heq
    cases y <;> simp only [Fact.map, reduceCtorEq] at heq
    exact hne _ _ rfl
  have hthere := (htallies.kept hkept _ hne').2 (hg.map_mem hy)
  rw [hg'.facts] at hthere
  obtain ⟨z, hz, heq⟩ := hthere
  have hzM : z ∈ e.image M := by
    obtain ⟨u, B, hB, hdepicts⟩ := hz
    obtain ⟨A, hA, hsub⟩ := Dataset.some_of_remove hB
    exact ⟨u, A, hA, hdepicts.mono hsub⟩
  rwa [← hg.map_injective (hg.grounded z hzM) (hg.grounded y hy) (fun p hp => hp ▸ hzM)
    (fun p hp => hp ▸ hy) heq]

end Sketches

end Encoder

end QuadStore
