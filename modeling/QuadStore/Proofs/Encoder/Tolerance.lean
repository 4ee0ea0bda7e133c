import Mathlib
import QuadStore.Proofs.Encoder.Removing
import QuadStore.Proofs.Fragment.Calls
import QuadStore.Proofs.Fragment.Tolerance
/-!
# Removing statements from any graph

The fragment of a statement has at most one middle vertex. So whatever was done to a graph, taking a
statement out of it succeeds, unless two edges join the middle vertex with one literal vertex.
-/

namespace QuadStore

namespace Encoder

variable {e : Encoder} {t : Triple} {C : UriSet} {f : Fragment} {parts : List Part}

/-- The middle vertex of a triple is played by one node. -/
theorem Sketches.oneMiddle (h : e.Sketches t C f parts) : f.OneMiddle := by
  intro i j n m hn hm hntag hmtag
  have hi := (List.getElem?_eq_some_iff.1 hn).1
  have hj := (List.getElem?_eq_some_iff.1 hm).1
  rw [(h.standsFor hn).middle] at hntag
  rw [(h.standsFor hm).middle] at hmtag
  have hp := middle_of_isMiddle (h.needs_role hi) hntag
  have hq := middle_of_isMiddle (h.needs_role hj) hmtag
  exact h.casts.injective _ _ hi hj (Option.some.inj (hp.symm.trans hq))

/-- Whatever mutations, merges and removals have led to a graph, removing a statement from it
succeeds, unless its middle vertex is joined twice with a vertex that claims to be a literal: both
have been deleted by then, and the second is reported as missing. It makes no difference whether reads
of what is missing fail. -/
theorem removal_tolerates (hvalid : e.vocabulary.validate = .ok ()) (x : Statement)
    (v : Vocabulary) (visits : List Visit) (calls : List Call) :
    let t := (Transaction.start (Graph.afterVisits visits)).callAll calls
    ∃ f, e.fragment x = .ok f ∧ Fragment.Checked.removeFrom f v t = f.removeFrom v t ∧
      ((∃ answer t', f.removeFrom v t = .ok answer t') ∨
        ∃ (a : Assignment) (i : Nat) (n : Node) (m y : VertexId) (t' : Transaction),
          f.locate? t.graph = some a ∧ f.nodes[i]? = some n ∧ n.hasTag .middle ∧
          a[i]? = some m ∧ TwiceJoined v t.graph m y ∧ m ∉ t'.graph.vertices ∧
          y ∉ t'.graph.vertices ∧ f.removeFrom v t = .error (.vertexNotFound y.number) t') := by
  intro t
  obtain ⟨f, parts, hf, hsketch⟩ := fragment_sketches (Vocabulary.valid_of_validate hvalid) x
  have hg : t.graph.WellFormed := Graph.calls_wellFormed visits calls
  refine ⟨f, hf, Fragment.Checked.removeFrom_agrees hg t rfl, ?_⟩
  obtain ⟨answer, t', hrun, -⟩ |
      ⟨cause, t', hrun, a, ha, i, n, m, y, hn, htag, hi, htwice, hmgone, hygone, rfl⟩ :=
    Fragment.removeFrom_yieldsOr (v := v) hsketch.oneMiddle hg t rfl
  · exact .inl ⟨answer, t', hrun⟩
  · exact .inr ⟨a, i, n, m, y, t', ha, hn, htag, hi, htwice, hmgone, hygone, hrun⟩

/-- A statement whose middle vertex was deleted under it is taken out without a failure. -/
theorem removal_tolerates_torn :
    let e : Encoder := ⟨.verboseQuad, {}, none, {}⟩
    let x : Statement :=
      ⟨⟨.uri ⟨"a:s", by decide⟩, ⟨"a:p", by decide⟩, .literal ⟨"x", .plain⟩⟩, ∅⟩
    e.vocabulary.validate = .ok () ∧ ∃ f, e.fragment x = .ok f ∧
      let t := (Transaction.start (Graph.afterVisits [⟨[.merge f], .commit⟩])).callAll
        [.mutate (.deleteVertex ⟨2⟩)]
      Fragment.Checked.removeFrom f e.vocabulary t = f.removeFrom e.vocabulary t ∧
        ∃ answer t', f.removeFrom e.vocabulary t = .ok answer t' := by
  intro e x
  have hvalid : ({} : Vocabulary).validate = .ok () := by rfl
  obtain ⟨f, parts, hf, -⟩ := fragment_sketches (e := e) (Vocabulary.valid_of_validate hvalid) x
  let visits : List Visit := [⟨[.merge f], .commit⟩]
  let calls : List Call := [.mutate (.deleteVertex ⟨2⟩)]
  obtain ⟨f', hf', hchecked, hrun⟩ := removal_tolerates (e := e) hvalid x e.vocabulary visits calls
  cases hf.symm.trans hf'
  refine ⟨hvalid, f, hf, hchecked, hrun.resolve_right ?_⟩
  have hnone : (e.fragment x).toOption.all fun f =>
      (f.locate? ((Transaction.start (Graph.afterVisits [⟨[.merge f], .commit⟩])).callAll
        calls).graph).isNone := by
    decide +kernel
  rintro ⟨a, -, -, -, -, -, ha, -⟩
  rw [hf, Except.toOption, Option.all_some, ha] at hnone
  cases hnone

/-- What a run failed for. -/
def failure? {ε σ α : Type} : EStateM.Result ε σ α → Option ε
  | .ok .. => none
  | .error cause _ => some cause

theorem failure?_eq_some {ε σ α : Type} {r : EStateM.Result ε σ α} {cause : ε}
    (h : failure? r = some cause) : ∃ s, r = .error cause s := by
  cases r with
  | ok a s => cases h
  | error c s => exact ⟨s, by rw [Option.some.inj h]⟩

/-- Once the literal vertex of a statement hangs on its middle vertex by a second edge, the statement
cannot be taken out: the literal vertex is there, and is reported as missing. -/
theorem second_edge_fails :
    let e : Encoder := ⟨.verboseQuad, {}, none, {}⟩
    let x : Statement :=
      ⟨⟨.uri ⟨"a:s", by decide⟩, ⟨"a:p", by decide⟩, .literal ⟨"x", .plain⟩⟩, ∅⟩
    e.vocabulary.validate = .ok () ∧ ∃ f, e.fragment x = .ok f ∧
      let t := (Transaction.start (Graph.afterVisits [])).callAll
        [.merge f, .mutate (.createEdge ⟨2⟩ "a:p" ⟨3⟩)]
      t.graph.hasVertex ⟨3⟩ ∧
        ∃ t', f.removeFrom e.vocabulary t = .error (.vertexNotFound 3) t' := by
  intro e x
  have hvalid : ({} : Vocabulary).validate = .ok () := by rfl
  obtain ⟨f, parts, hf, -⟩ := fragment_sketches (e := e) (Vocabulary.valid_of_validate hvalid) x
  have hrun : (e.fragment x).toOption.all fun f =>
      let t := (Transaction.start (Graph.afterVisits [])).callAll
        [.merge f, .mutate (.createEdge ⟨2⟩ "a:p" ⟨3⟩)]
      t.graph.hasVertex ⟨3⟩ &&
        failure? (f.removeFrom e.vocabulary t) == some (.vertexNotFound 3) := by
    decide +kernel
  rw [hf, Except.toOption, Option.all_some, Bool.and_eq_true, beq_iff_eq] at hrun
  exact ⟨hvalid, f, hf, hrun.1, failure?_eq_some hrun.2⟩

end Encoder

end QuadStore
