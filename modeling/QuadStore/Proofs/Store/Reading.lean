import Mathlib
import QuadStore.Proofs.Resolution
import QuadStore.Proofs.Store.Writes
/-!
# Reading from a store

Whatever was written to a store, a pattern is answered with what it selects from the dataset that
the writes lead to, and with nothing else.
-/

namespace QuadStore

namespace Encoder

variable {e : Encoder} {p : Uri} {o : Value} {t : Triple}

/-- An object that was stored is stored as it is. -/
theorem classify_idem : e.classify p (e.classify p o) = e.classify p o := by
  cases o with
  | resource r => rfl
  | literal l =>
    have hcases : e.classify p (.literal l) = .literal l ∨
        ∃ r, e.classify p (.literal l) = .resource r := by
      simp only [classify]
      split
      · split
        · exact .inr ⟨_, rfl⟩
        · exact .inl rfl
      · exact .inl rfl
    rcases hcases with h | ⟨r, h⟩
    · rw [h, h]
    · rw [h]
      rfl

theorem classifyTriple_idem : e.classifyTriple (e.classifyTriple t) = e.classifyTriple t := by
  simp only [classifyTriple, classify_idem]

end Encoder

namespace Dataset

variable {e : Encoder} {M : Dataset} {s : Statement} {t : Triple} {C : UriSet} {c : Uri}

/-- Every triple is as the encoder stores it. -/
def Classified (M : Dataset) (e : Encoder) : Prop := ∀ t A, M[t]? = some A → e.classifyTriple t = t

theorem Classified.assert (h : M.Classified e) : (M.assert e s).Classified e := by
  intro t A hA
  rw [Dataset.assert, getElem?_add] at hA
  split at hA
  · subst_vars
    exact e.classifyTriple_idem
  · exact h t A hA

theorem Classified.remove (h : M.Classified e) : (M.remove t C).Classified e := by
  intro u B hB
  obtain ⟨A, hA, -⟩ := some_of_remove hB
  exact h u A hA

theorem Classified.meaning (h : M.Classified e) (write : Write) :
    (write.meaning e M).Classified e := by
  cases write with
  | add s => exact h.assert
  | addAll statements =>
    simp only [Write.meaning]
    induction statements generalizing M with
    | nil => exact h
    | cons s rest ih => exact ih h.assert
  | remove s => exact h.remove

end Dataset

namespace Store

variable {s s' : Store} {M : Dataset} {x : Statement} {p : Pattern} {e : Encoder}

/-- The graph of the store says what the dataset calls for. -/
structure Keeps (s : Store) (M : Dataset) : Prop where
  valid : s.encoder.vocabulary.Valid
  stores : s.graph.Stores s.encoder M
  classified : M.Classified s.encoder

theorem Fresh.keeps (h : s.Fresh) : s.Keeps ∅ := ⟨h.valid, h.stores, by simp [Dataset.Classified]⟩

theorem Keeps.perform (h : s.Keeps M) (write : Write) :
    ∃ s', write.perform s = .ok () s' ∧ s'.encoder = s.encoder ∧
      s'.Keeps (write.meaning s.encoder M) := by
  obtain ⟨s', hrun, hencoder, hs'⟩ := write.perform_ok h.valid h.stores
  rw [← hencoder] at hs'
  exact ⟨s', hrun, hencoder, ⟨hencoder ▸ h.valid, hencoder ▸ hs', hencoder ▸ h.classified.meaning write⟩⟩

theorem Keeps.performAll (h : s.Keeps M) (writes : List Write) :
    ∃ s', Write.performAll writes s = .ok () s' ∧ s'.encoder = s.encoder ∧
      s'.Keeps (writes.foldl (Write.meaning s.encoder) M) := by
  obtain ⟨s', hrun, hencoder, hs'⟩ := Write.performAll_ok h.valid h.stores writes
  have hclassified : (writes.foldl (Write.meaning s.encoder) M).Classified s.encoder := by
    have hM := h.classified
    clear h hrun hs'
    induction writes generalizing M with
    | nil => exact hM
    | cons write rest ih => exact ih (hM.meaning write)
  exact ⟨s', hrun, hencoder, ⟨hencoder ▸ h.valid, hencoder ▸ hs', hencoder ▸ hclassified⟩⟩

/-! ## Patterns -/

theorem Keeps.find_ok (h : s.Keeps M) {path : AccessPath}
    (hpath : (p.normalize s.encoder).plan s.encoder.policy = .ok path) :
    ∃ found, s.find p = .ok found ∧ (p.normalize s.encoder).Answers M found := by
  obtain ⟨P, hg⟩ := h.stores
  rw [← Encoder.imageWith_empty] at hg
  exact Pattern.resolve_ok h.valid hg hpath

/-- After any writes a pattern that can be planned is answered with the entries of the dataset that
it matches, as a scan of the whole dataset would, and any other is refused. -/
theorem Fresh.find_selects (h : s.Fresh) (writes : List Write) (p : Pattern) :
    ∃ s', Write.performAll writes s = .ok () s' ∧
      match (p.normalize s.encoder).plan s.encoder.policy with
      | .error cause =>
        cause = .unsupportedPattern (p.normalize s.encoder).shape s.encoder.policy.name ∧
          s'.find p = .error (.query cause)
      | .ok _ => ∃ found, s'.find p = .ok found ∧ (found.map (·.triple)).Nodup ∧
        ∀ t C, ⟨t, C⟩ ∈ found ↔ ∃ A, (Write.dataset s.encoder writes)[t]? = some A ∧
          (p.normalize s.encoder).accepts t ∧
          (p.normalize s.encoder).contexts.restrict A = some C := by
  obtain ⟨s', hrun, hencoder, hs'⟩ := h.keeps.performAll writes
  refine ⟨s', hrun, ?_⟩
  rw [← hencoder]
  cases hplan : (p.normalize s'.encoder).plan s'.encoder.policy with
  | error cause =>
    refine ⟨?_, Pattern.resolve_error hplan⟩
    unfold Pattern.plan at hplan
    split at hplan
    · cases hplan
    · cases hplan
      rfl
  | ok path =>
    obtain ⟨found, hfound, hanswers⟩ := hs'.find_ok hplan
    exact ⟨found, hfound, hanswers.nodup, fun t C => hencoder ▸ hanswers.mem ⟨t, C⟩⟩

theorem Fresh.find_selects_default :
    let s : Store := { encoder := ⟨.verboseQuad, {}, none, {}⟩ }
    let t : Triple := ⟨.uri ⟨"a:s", by decide⟩, ⟨"a:p", by decide⟩, .resource (.uri ⟨"a:o", by decide⟩)⟩
    let writes : List Write := [.add ⟨t, ∅⟩]
    let p : Pattern := { object := some t.object }
    s.Fresh ∧ ∃ s', Write.performAll writes s = .ok () s' ∧ ∃ found, s'.find p = .ok found ∧
      (found.map (·.triple)).Nodup ∧
        ∀ t C, ⟨t, C⟩ ∈ found ↔ ∃ A, (Write.dataset s.encoder writes)[t]? = some A ∧
          (p.normalize s.encoder).accepts t ∧
          (p.normalize s.encoder).contexts.restrict A = some C := by
  intro s t writes p
  have h : s.Fresh := .ofConfig (c := {}) rfl
  exact ⟨h, h.find_selects writes p⟩

end Store

end QuadStore
