import Mathlib
import QuadStore.Fragment.Removal
import QuadStore.Proofs.Graph.History
import QuadStore.Proofs.Sequence
/-!
# Calls on a graph

Merging and removing a fragment write to a graph through mutations only, also where they fail half
way. So whatever mutations, merges and removals follow each other in whatever sessions, the graph is
one that mutations alone lead to, and it is consistent.
-/

namespace QuadStore

variable {α β : Type}

/-! ## Steps as mutations -/

namespace Transaction

/-- Where steps leave a transaction, whether they succeed or fail. -/
def after (t : Transaction) (steps : GraphM Transaction α) : Transaction :=
  match steps.run t with
  | .ok _ t' => t'
  | .error _ t' => t'

end Transaction

/-- Wherever they begin, the steps leave what some mutations would. -/
def Mutates (steps : GraphM Transaction α) : Prop :=
  ∀ t : Transaction, ∃ ms, t.after steps = t.attemptAll ms

namespace Mutates

theorem pure (a : α) : Mutates (Pure.pure a) := fun _ => ⟨[], rfl⟩

theorem bind {steps : GraphM Transaction α} {next : α → GraphM Transaction β}
    (h : Mutates steps) (hnext : ∀ a, Mutates (next a)) : Mutates (steps >>= next) := by
  intro t
  obtain ⟨ms, hms⟩ := h t
  unfold Transaction.after EStateM.run at hms ⊢
  cases hsteps : steps t with
  | error cause t' =>
    rw [hsteps] at hms
    rw [run_bind_error hsteps]
    exact ⟨ms, hms⟩
  | ok a t' =>
    rw [hsteps] at hms
    rw [run_bind_ok hsteps]
    obtain ⟨ms', hms'⟩ := hnext a t'
    refine ⟨ms ++ ms', hms'.trans ?_⟩
    rw [Transaction.attemptAll, Transaction.attemptAll, List.foldl_append]
    exact congrArg (ms'.foldl Transaction.attempt) hms

theorem graph_bind {next : Graph → GraphM Transaction β} (h : ∀ g, Mutates (next g)) :
    Mutates (GraphM.graph >>= next) :=
  bind (fun _ => ⟨[], rfl⟩) h

theorem read (f : Graph → Except GraphError α) : Mutates (GraphM.read f) := by
  intro t
  refine ⟨[], ?_⟩
  unfold Transaction.after EStateM.run GraphM.read
  cases f (GraphAccess.graph t) <;> rfl

theorem perform (m : Mutation) : Mutates (GraphM.perform m) := by
  intro t
  refine ⟨[m], ?_⟩
  change _ = t.attempt m
  unfold Transaction.after Transaction.attempt
  cases (GraphM.perform m).run t <;> rfl

theorem foldlM {step : β → α → GraphM Transaction β} {xs : List α} {b : β}
    (h : ∀ b x, Mutates (step b x)) : Mutates (xs.foldlM step b) := by
  induction xs generalizing b with
  | nil => exact pure b
  | cons x xs ih =>
    rw [List.foldlM_cons]
    exact (h b x).bind fun b' => ih

theorem forM {step : α → GraphM Transaction Unit} {xs : List α} (h : ∀ x, Mutates (step x)) :
    Mutates (xs.forM step) := by
  induction xs with
  | nil => exact pure ()
  | cons x xs ih => exact (h x).bind fun _ => ih

/-- A mutation whose answer is looked at. -/
theorem perform_bind {m : Mutation} {next : m.Answer → GraphM Transaction β}
    (h : ∀ a, Mutates (next a)) : Mutates (GraphM.perform m >>= next) :=
  (perform m).bind h

end Mutates

namespace Fragment

variable {f : Fragment} {v : Vocabulary} {a : Assignment} {r : Removal} {n : Node} {i : Nat}
  {x : VertexId} {id : EdgeId}

/-! ## Merging -/

theorem findOrCreateKeyed_mutates (entry : Entry) :
    Mutates (findOrCreateKeyed entry : GraphM Transaction _) := by
  refine .graph_bind fun g => ?_
  split
  · exact .pure _
  · exact .perform_bind fun _ => .perform_bind fun _ => .perform_bind fun _ => .pure _

theorem assignKeyed_mutates : Mutates (f.assignKeyed : GraphM Transaction _) := by
  refine .foldlM fun b x => ?_
  dsimp only
  split
  · exact .pure _
  · exact (findOrCreateKeyed_mutates _).bind fun _ => .pure _

theorem createUnkeyed_mutates (properties : List (String × Option String)) :
    Mutates (createUnkeyed properties : GraphM Transaction _) := by
  refine .perform_bind fun _ => .bind (.forM fun p => ?_) fun _ => .pure _
  dsimp only
  split
  · exact .perform_bind fun _ => .pure _
  · exact .pure _

theorem createMissing_mutates : Mutates (f.createMissing a : GraphM Transaction _) := by
  refine .foldlM fun b x => ?_
  dsimp only
  split
  · exact (createUnkeyed_mutates _).bind fun _ => .pure _
  · exact .pure _

theorem mergeNode_mutates : Mutates (mergeNode x n : GraphM Transaction _) :=
  .bind (.forM fun _ => .perform_bind fun _ => .pure _) fun _ =>
    .bind (.forM fun _ => .perform_bind fun _ => .pure _) fun _ => .forM fun _ => .perform _

theorem mergeNodes_mutates : Mutates (f.mergeNodes a : GraphM Transaction _) := by
  refine .forM fun x => ?_
  dsimp only
  split
  · exact mergeNode_mutates
  · exact .pure _

theorem mergeEdge_mutates (source target : VertexId) (x : FragmentEdge) :
    Mutates (mergeEdge source target x : GraphM Transaction _) := by
  have hproperties : ∀ (created : Nat) (id : EdgeId), Mutates (do
      x.properties.toList.forM fun entry => do
        let _ ← GraphM.perform (.addEdgeProperty id entry)
      return created) := fun _ _ =>
    .bind (.forM fun _ => .perform_bind fun _ => .pure _) fun _ => .pure _
  refine .graph_bind fun g => ?_
  dsimp only
  split
  · exact .bind (.pure _) fun _ => hproperties _ _
  · exact .perform_bind fun _ => .bind (.pure _) fun _ => hproperties _ _

theorem mergeEdges_mutates : Mutates (f.mergeEdges a : GraphM Transaction _) := by
  refine .foldlM fun created x => ?_
  split
  · exact (mergeEdge_mutates _ _ x).bind fun _ => .pure _
  · exact .pure _

theorem mergeInto_mutates (f : Fragment) : Mutates (f.mergeInto : GraphM Transaction _) :=
  assignKeyed_mutates.bind fun _ => .graph_bind fun _ => createMissing_mutates.bind fun _ =>
    mergeNodes_mutates.bind fun _ => mergeEdges_mutates.bind fun _ => .pure _

/-! ## Removing -/

/-- A mutation after which the steps go on in one of two ways. -/
theorem branch_mutates {steps : GraphM Transaction Bool} {done kept : GraphM Transaction α}
    (h : Mutates steps) (hdone : Mutates done) (hkept : Mutates kept) :
    Mutates (do if ← steps then done else kept) := by
  refine h.bind fun changed => ?_
  cases changed with
  | true => exact hdone
  | false => exact hkept

theorem removeProperties_mutates : Mutates (removeProperties i x n r : GraphM Transaction _) :=
  .foldlM fun _ _ => branch_mutates (.perform _) (.pure _) (.pure _)

theorem removeGuarded_mutates : Mutates (removeGuarded i x n r : GraphM Transaction _) := by
  refine .foldlM fun r y => .graph_bind fun g => ?_
  dsimp only
  split
  · exact branch_mutates (.perform _) (.pure _) (.pure _)
  · exact .pure _

theorem removeContents_mutates : Mutates (f.removeContents a r : GraphM Transaction _) := by
  refine .foldlM fun r y => ?_
  dsimp only
  split
  · exact removeProperties_mutates.bind fun _ => removeGuarded_mutates
  · exact .pure _

theorem removeRelation_mutates {y : FragmentEdge} :
    Mutates (removeRelation y id r : GraphM Transaction _) := by
  refine .bind (.foldlM fun _ _ => .perform_bind fun _ => .pure _) fun _ => .graph_bind fun g => ?_
  dsimp only
  split
  · exact branch_mutates (.perform _) (.pure _) (.pure _)
  · exact .pure _

theorem removeEdge_mutates {y : FragmentEdge} :
    Mutates (removeEdge a r y : GraphM Transaction _) := by
  unfold removeEdge
  split
  · refine .graph_bind fun g => ?_
    split
    · exact branch_mutates (.perform _) (.pure _) (.pure _)
    · exact removeRelation_mutates
    · exact .pure _
  · exact .pure _

theorem removeMiddleVertex_mutates :
    Mutates (removeMiddleVertex v x r : GraphM Transaction _) := by
  refine .graph_bind fun g => branch_mutates (.perform _) ?_ ?_
  all_goals
    refine .bind (.pure _) fun r' => .foldlM fun _ _ => .bind (.read _) fun _ => ?_
    exact branch_mutates (.perform _) (.pure _) (.pure _)

theorem removeMiddle_mutates : Mutates (f.removeMiddle v a r i n : GraphM Transaction _) := by
  unfold removeMiddle
  split
  · exact .pure _
  · refine .bind (.read _) fun _ => .graph_bind fun g => ?_
    dsimp only
    split
    · exact removeMiddleVertex_mutates
    · exact .pure _

theorem releaseIndex_mutates : Mutates (releaseIndex a r i n : GraphM Transaction _) := by
  unfold releaseIndex
  split
  · exact .pure _
  · refine .graph_bind fun g => ?_
    split
    · exact .pure _
    · refine .forM fun entry => .graph_bind fun g => ?_
      split
      · exact .perform_bind fun _ => .pure _
      · exact .pure _

theorem collect_mutates : Mutates (collect v r x : GraphM Transaction _) := by
  refine .graph_bind fun g => ?_
  split
  · exact branch_mutates (.perform _) (.pure _) (.pure _)
  · exact .pure _

theorem removeAssigned_mutates : Mutates (f.removeAssigned v a : GraphM Transaction _) :=
  removeContents_mutates.bind fun _ => .bind (.foldlM fun _ _ => removeEdge_mutates) fun _ =>
    .bind (.foldlM fun _ _ => removeMiddle_mutates) fun _ =>
      .bind (.forM fun _ => releaseIndex_mutates) fun _ =>
        .bind (.foldlM fun _ _ => collect_mutates) fun _ => .pure _

theorem removeFrom_mutates (f : Fragment) (v : Vocabulary) :
    Mutates (f.removeFrom v : GraphM Transaction _) := by
  refine .graph_bind fun g => ?_
  split
  · exact .pure _
  · exact removeAssigned_mutates

end Fragment

/-! ## Calls -/

/-- What can be asked of an open transaction: a mutation, or a fragment to merge or to remove. -/
inductive Call where
  | mutate (m : Mutation)
  | merge (f : Fragment)
  | remove (f : Fragment) (v : Vocabulary)

namespace Transaction

/-- Where a call leaves the transaction. One that fails leaves what it has written so far. -/
def call (t : Transaction) : Call → Transaction
  | .mutate m => t.attempt m
  | .merge f => t.after f.mergeInto
  | .remove f v => t.after (f.removeFrom v)

def callAll (t : Transaction) (calls : List Call) : Transaction := calls.foldl call t

theorem exists_call_eq (t : Transaction) (c : Call) : ∃ ms, t.call c = t.attemptAll ms := by
  cases c with
  | mutate m => exact ⟨[m], rfl⟩
  | merge f => exact f.mergeInto_mutates t
  | remove f v => exact f.removeFrom_mutates v t

theorem exists_callAll_eq (t : Transaction) (calls : List Call) :
    ∃ ms, t.callAll calls = t.attemptAll ms := by
  induction calls generalizing t with
  | nil => exact ⟨[], rfl⟩
  | cons c calls ih =>
    obtain ⟨ms, hms⟩ := t.exists_call_eq c
    obtain ⟨ms', hms'⟩ := ih (t.call c)
    refine ⟨ms ++ ms', hms'.trans ?_⟩
    rw [hms, attemptAll, attemptAll, attemptAll, List.foldl_append]

end Transaction

/-- A transaction from its beginning to its end. -/
structure Visit where
  calls : List Call
  ending : Ending

namespace Graph

def visit (g : Graph) (s : Visit) : Graph := ((Transaction.start g).callAll s.calls).finish s.ending

/-- The graph that the visits leave of an empty one. -/
def afterVisits (visits : List Visit) : Graph := visits.foldl visit {}

theorem exists_afterVisits_eq (visits : List Visit) : ∃ ss, afterVisits visits = afterSessions ss := by
  suffices h : ∀ g : Graph, ∃ ss : List Session, visits.foldl visit g = ss.foldl Session.run g from
    h {}
  induction visits with
  | nil => exact fun g => ⟨[], rfl⟩
  | cons s visits ih =>
    intro g
    obtain ⟨ms, hms⟩ := (Transaction.start g).exists_callAll_eq s.calls
    obtain ⟨ss, hss⟩ := ih (g.visit s)
    refine ⟨⟨ms, s.ending⟩ :: ss, hss.trans ?_⟩
    rw [List.foldl_cons, visit, hms]
    rfl

/-- After any visits and calls the graph is consistent. -/
theorem calls_wellFormed (visits : List Visit) (calls : List Call) :
    ((Transaction.start (afterVisits visits)).callAll calls).graph.WellFormed := by
  obtain ⟨ss, hss⟩ := exists_afterVisits_eq visits
  obtain ⟨ms, hms⟩ := (Transaction.start (afterVisits visits)).exists_callAll_eq calls
  have hstart := afterSessions_wellFormed ss
  rw [hms, hss]
  exact ((Transaction.Tracks.start _).attemptAll hstart).wellFormed hstart

end Graph

end QuadStore
