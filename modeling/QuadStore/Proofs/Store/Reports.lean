import Mathlib
import QuadStore.Proofs.Encoder.Coherence
import QuadStore.Proofs.Encoder.Reporting
import QuadStore.Proofs.Store.Undoing
/-!
# Reports

What an addition reports as created and a removal as deleted is what the graph has gained and lost,
and a removal reports a change exactly if there was one.
-/

namespace QuadStore

namespace Fragment.Tallies

variable {g g' : Graph} {report : RemovalReport}

/-- Where the graph says the same as before there is nothing to report. -/
theorem eq_of_facts (h : Tallies g report g') (hg : g.WellFormed) (hfacts : g'.facts = g.facts) :
    report = {} ∧ g' = g := by
  obtain rfl := h.loses.eq_of_facts hg hfacts
  have hremoved : report.removed = false := by
    rw [← Bool.not_eq_true]
    intro hremoved
    obtain ⟨x, hx, hgone⟩ := h.lost hremoved
    exact hgone hx
  have hvertices := h.loses.vertexCount
  have hedges := h.loses.edgeCount
  rw [RemovalReport.mk.injEq]
  exact ⟨⟨hremoved, by omega, by omega⟩, rfl⟩

end Fragment.Tallies

namespace Encoder.Sketches

variable {e : Encoder} {t : Triple} {C : UriSet} {f : Fragment} {parts : List Part} {g : Graph}
  {P : Placement Part} {M : Dataset}

/-- An addition counts what it creates. -/
theorem mergeInto_counts (h : e.Sketches t C f parts) (hv : e.vocabulary.Valid)
    (hg : g.WellFormed) : Yields f.mergeInto g fun x g' =>
      g'.vertexCount = g.vertexCount + x.1.createdVertices ∧
        g'.edgeCount = g.edgeCount + x.1.createdEdges := by
  refine (Fragment.mergeInto_passes (h.coherent hv) hg).mono ?_
  rintro x g' ⟨s, hpasses⟩
  obtain ⟨X, hX⟩ := hpasses.counts
  exact ⟨hX.vertexCount, hX.edgeCount⟩

/-- A removal counts what it deletes. Where it takes nothing out of the dataset there is nothing to
report, and if it reports no change it took nothing out. -/
theorem removeFrom_counts (h : e.Sketches t C f parts) (hv : e.vocabulary.Valid)
    (hg : g.Shows P (e.image M)) :
    Yields (f.removeFrom e.vocabulary) g fun x g' => g'.Shows P (e.image (M.remove t C)) ∧
      Fragment.Tallies g x.1 g' ∧ (x.1.removed = false ∨ M.remove t C = M → x.1 = {} ∧ g' = g) := by
  refine ((h.removeFrom_reports hv hg).and_ensures
    (Fragment.removeFrom_tallies hg.wellFormed)).mono ?_
  rintro x g' ⟨⟨hg', hkept⟩, htallies⟩
  refine ⟨hg', htallies, fun hnone => htallies.eq_of_facts hg.wellFormed ?_⟩
  have hM : M.remove t C = M := hnone.elim hkept id
  rw [hg'.facts, hg.facts, hM]

end Encoder.Sketches

namespace Store

variable {s : Store}

/-- Reports tell the truth: the numbers created and deleted are the growth and the decrease of the
counts, a change is reported exactly if the graph differs from before, and there is nothing to
report when the statement is removed a second time. -/
theorem Reachable.reports_true (h : s.Reachable) (x : Statement) :
    ∃ f, s.encoder.fragment x = .ok f ∧
      (Yields f.mergeInto s.graph fun a g =>
        g.vertexCount = s.graph.vertexCount + a.1.createdVertices ∧
          g.edgeCount = s.graph.edgeCount + a.1.createdEdges) ∧
      Yields (f.removeFrom s.encoder.vocabulary) s.graph fun a g =>
        g.vertexCount + a.1.deletedVertices = s.graph.vertexCount ∧
        g.edgeCount + a.1.deletedEdges = s.graph.edgeCount ∧
        (a.1.removed ↔ g.content ≠ s.graph.content) ∧
        (a.1.removed = false → g = s.graph) ∧
        Yields (f.removeFrom s.encoder.vocabulary) g fun b g' => b.1 = {} ∧ g' = g := by
  obtain ⟨M, hM⟩ := h.keeps
  obtain ⟨P, hP⟩ := hM.stores
  obtain ⟨f, parts, hf, hsketch⟩ := Encoder.fragment_sketches hM.valid x
  refine ⟨f, hf, hsketch.mergeInto_counts hM.valid hP.wellFormed,
    (hsketch.removeFrom_counts hM.valid hP).mono ?_⟩
  rintro a g ⟨hg, htallies, hsame⟩
  refine ⟨htallies.loses.vertexCount, htallies.loses.edgeCount, ⟨fun hremoved heq => ?_,
    fun hne => ?_⟩, fun hkept => (hsame (.inl hkept)).2, ?_⟩
  · obtain ⟨y, hy, hgone⟩ := htallies.lost hremoved
    have hfacts : g.facts = s.graph.facts := by
      rw [← Graph.facts_content, heq, Graph.facts_content]
    exact hgone (hfacts ▸ hy)
  · by_contra hkept
    rw [Bool.not_eq_true] at hkept
    exact hne (congrArg Graph.content (hsame (.inl hkept)).2)
  · refine (hsketch.removeFrom_counts hM.valid hg).mono ?_
    rintro b g' ⟨-, -, hsame'⟩
    exact hsame' (.inr Dataset.remove_remove)

/-- A triple is in two graphs. To put it into a third creates a vertex and an edge, and to take it
out of the first deletes two others. -/
theorem Reachable.reports_true_context :
    let t : Triple := ⟨.uri ⟨"a:s", by decide⟩, ⟨"a:p", by decide⟩,
      .resource (.uri ⟨"a:o", by decide⟩)⟩
    let s₀ : Store := { encoder := ⟨.verboseQuad, {}, none, {}⟩ }
    let s := s₀.after [.add ⟨t, {⟨"a:g", by decide⟩, ⟨"a:h", by decide⟩}⟩]
    let x : Statement := ⟨t, {⟨"a:g", by decide⟩, ⟨"a:k", by decide⟩}⟩
    s.Reachable ∧ ∃ f, s.encoder.fragment x = .ok f ∧
      (∃ a w, f.mergeInto (Transaction.start s.graph) = .ok a w ∧ a.1 = ⟨1, 1⟩ ∧
        w.graph.vertexCount = s.graph.vertexCount + 1 ∧
        w.graph.edgeCount = s.graph.edgeCount + 1) ∧
      ∃ a w, f.removeFrom s.encoder.vocabulary (Transaction.start s.graph) = .ok a w ∧
        a.1 = ⟨true, 1, 1⟩ ∧ w.graph.vertexCount + 1 = s.graph.vertexCount ∧
        w.graph.edgeCount + 1 = s.graph.edgeCount ∧ w.graph.content ≠ s.graph.content ∧
        Yields (f.removeFrom s.encoder.vocabulary) w.graph fun b g => b.1 = {} ∧ g = w.graph := by
  intro t s₀ s x
  have hs : s.Reachable := (Reachable.fresh (.ofConfig (c := {}) rfl)).after _
  obtain ⟨f, hf, hmerge, hremove⟩ := hs.reports_true x
  obtain ⟨a, w, hmerged, hvertices, hedges⟩ := hmerge (.start s.graph) rfl
  obtain ⟨b, w', hremoved, hvertices', hedges', hchanged, -, hagain⟩ :=
    hremove (.start s.graph) rfl
  have ha : ((s.encoder.fragment x).toOption.bind fun f =>
      (f.mergeInto.run' (Transaction.start s.graph)).map (·.1)) = some ⟨1, 1⟩ := by
    decide +kernel +zetaReduce
  have hb : ((s.encoder.fragment x).toOption.bind fun f =>
      ((f.removeFrom s.encoder.vocabulary).run' (Transaction.start s.graph)).map (·.1)) =
        some ⟨true, 1, 1⟩ := by
    decide +kernel +zetaReduce
  simp only [hf, Except.toOption, Option.bind_some, EStateM.run', EStateM.run, hmerged,
    Option.map_some, Option.some.injEq] at ha
  simp only [hf, Except.toOption, Option.bind_some, EStateM.run', EStateM.run, hremoved,
    Option.map_some, Option.some.injEq] at hb
  rw [ha] at hvertices hedges
  rw [hb] at hvertices' hedges' hchanged
  exact ⟨hs, f, hf, ⟨a, w, hmerged, ha, hvertices, hedges⟩, b, w', hremoved, hb, hvertices', hedges',
    hchanged.1 rfl, hagain⟩

end Store

end QuadStore
