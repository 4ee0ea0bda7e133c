import Mathlib
import QuadStore.Proofs.Store.Contexts
/-!
# Adding a statement and removing it again

A removal gives up exactly what the addition before it created, and keeps what the addition only
made use of. The graph is then the one it was before, except for its counters: the numbers that were
given out are not given out again.
-/

namespace QuadStore

namespace Graph

/-- A graph that shows the same facts at another placement, which places as the first did what the
facts speak of, differs in its counters only. -/
theorem Shows.content_eq {ν : Type} {g g' : Graph} {P P' : Placement ν} {F : Facts ν}
    (h : g.Shows P F) (h' : g'.Shows P' F) (hP : P'.Extends P F) : g'.content = g.content := by
  refine content_eq_of_facts h.wellFormed h'.wellFormed ?_
  rw [h'.facts, h.facts]
  exact Set.image_congr fun f hf => hP.map_eq hf (h.grounded f hf)

end Graph

namespace Encoder.Sketches

variable {e : Encoder} {t : Triple} {C : UriSet} {f : Fragment} {parts : List Part}
  {g : Graph} {P : Placement Part} {M : Dataset}

/-- Removing a fragment that was merged takes the merge back where the dataset is as it was. -/
theorem removeFrom_mergeInto (h : e.Sketches t C f parts) (hv : e.vocabulary.Valid)
    (hg : g.Shows P (e.image M)) (hM : (M.add t C).remove t C = M) :
    Yields f.mergeInto g fun _ g' =>
      Yields (f.removeFrom e.vocabulary) g' fun _ g'' => g''.content = g.content := by
  refine (h.mergeInto_yields hv hg).mono ?_
  rintro - g' ⟨P', hP', hg', -⟩
  refine (h.removeFrom_yields hv hg').mono ?_
  rintro - g'' ⟨hg'', -⟩
  rw [hM] at hg''
  exact hg.content_eq hg'' hP'

end Encoder.Sketches

namespace Store

variable {s : Store}

/-- Adding a statement and removing it again leaves the graph as it was, where nothing that the
statement says was there: its triple was not stored, or it was stored in other named graphs. -/
theorem Reachable.remove_undoes_add (h : s.Reachable) (x : Statement)
    (hnew : (∀ y, s.contains (.ofContexts x.triple [y]) = .ok false) ∨
      (∃ c, s.contains (.ofContexts x.triple [.named c]) = .ok true) ∧
        ∀ c ∈ x.contexts, s.contains (.ofContexts x.triple [.named c]) = .ok false) :
    ∃ f, s.encoder.fragment x = .ok f ∧ Yields f.mergeInto s.graph fun _ g =>
      Yields (f.removeFrom s.encoder.vocabulary) g fun _ g' => g'.content = s.graph.content := by
  obtain ⟨M, hM⟩ := h.keeps
  obtain ⟨P, hP⟩ := hM.stores
  obtain ⟨f, parts, hf, hsketch⟩ := Encoder.fragment_sketches hM.valid x
  refine ⟨f, hf, hsketch.removeFrom_mergeInto hM.valid hP (Dataset.remove_add fun A hA => ?_)⟩
  have hcontains : ∀ y b, s.contains (.ofContexts x.triple [y]) = .ok b →
      (b ↔ M.InContext (s.encoder.classifyTriple x.triple) y) := by
    intro y b hb
    obtain ⟨b', hb', hiff⟩ := hM.contains_context x.triple y
    cases hb'.symm.trans hb
    exact hiff
  have hin : ∀ c, M.InContext (s.encoder.classifyTriple x.triple) (.named c) ↔ c ∈ A := by
    simp only [Dataset.InContext, hA, Option.some.injEq, exists_eq_left', implies_true]
  rcases hnew with hnone | ⟨⟨c, hc⟩, hdisjoint⟩
  · have hnot : ∀ y, ¬M.InContext (s.encoder.classifyTriple x.triple) y := fun y =>
      Bool.false_ne_true ∘ (hcontains y false (hnone y)).2
    -- a triple that is stored is in the default graph if it is in no named one
    have hempty : A.isEmpty := Dataset.isEmpty_iff_forall.2 fun c hc => hnot _ ((hin c).2 hc)
    exact absurd ⟨A, hA, hempty⟩ (hnot .default)
  · refine ⟨?_, fun d hd hdA => ?_⟩
    · rw [← Bool.not_eq_true, Dataset.isEmpty_iff_forall, not_forall_not]
      exact ⟨c, (hin c).1 ((hcontains _ _ hc).1 rfl)⟩
    · exact Bool.false_ne_true ((hcontains _ _ (hdisjoint d hd)).2 ((hin d).2 hdA))

/-- The second graph of a triple is taken back, and the middle vertex that it was recorded at stays
for the first one. -/
theorem Reachable.remove_undoes_add_second :
    let t : Triple := ⟨.uri ⟨"a:s", by decide⟩, ⟨"a:p", by decide⟩,
      .resource (.uri ⟨"a:o", by decide⟩)⟩
    let c : Uri := ⟨"a:g", by decide⟩
    let s₀ : Store := { encoder := ⟨.verboseQuad, {}, none, {}⟩ }
    let s := s₀.after [.add (.ofContexts t [.named c])]
    let x : Statement := ⟨t, {⟨"a:h", by decide⟩}⟩
    s.Reachable ∧ s.contains (.ofContexts t [.named c]) = .ok true ∧
      (∀ d ∈ x.contexts, s.contains (.ofContexts t [.named d]) = .ok false) ∧
      ∃ f, s.encoder.fragment x = .ok f ∧ Yields f.mergeInto s.graph fun _ g =>
        Yields (f.removeFrom s.encoder.vocabulary) g fun _ g' =>
          g'.content = s.graph.content := by
  intro t c s₀ s x
  have hs : s.Reachable := (Reachable.fresh (.ofConfig (c := {}) rfl)).after _
  have hold : s.contains (.ofContexts t [.named c]) = .ok true := by decide +kernel +zetaReduce
  have hnew : ∀ d ∈ x.contexts, s.contains (.ofContexts t [.named d]) = .ok false := by
    intro d hd
    obtain rfl : (⟨"a:h", by decide⟩ : Uri) = d := by simpa [x] using hd
    decide +kernel +zetaReduce
  exact ⟨hs, hold, hnew, hs.remove_undoes_add x (.inr ⟨⟨c, hold⟩, hnew⟩)⟩

end Store

end QuadStore
