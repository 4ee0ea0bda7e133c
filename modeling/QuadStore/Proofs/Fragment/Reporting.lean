import Mathlib
import QuadStore.Proofs.Fragment.Clearing
import QuadStore.Proofs.Graph.Shrinking
/-!
# What a removal reports

A removal reports as many vertices and edges as the graph has lost. It reports a change only if
something that the graph said is gone, and one that reports no change left every vertex, property,
key and edge as it was: at most index entries went. This holds of every fragment and every graph.
-/

namespace QuadStore

namespace Fragment

variable {α : Type} {f : Fragment} {v : Vocabulary} {a : Assignment} {r : Removal} {n : Node}
  {i : Nat} {x : VertexId} {id : EdgeId} {entry : Entry} {g g₀ : Graph} {vertices edges : Nat}

/-- The report tells what the graph has lost since the removal began. -/
structure Tallies (g₀ : Graph) (r : RemovalReport) (g : Graph) : Prop where
  loses : g₀.Loses r.deletedVertices r.deletedEdges g
  lost : r.removed → ∃ x ∈ g₀.facts, x ∉ g.facts
  kept : r.removed = false → g₀.Alike g

namespace Tallies

theorem start (hg : g.WellFormed) : Tallies g {} g where
  loses := .refl hg
  lost h := by cases h
  kept _ := .refl g

/-- What is lost is counted and reported as a change. -/
theorem step {report : RemovalReport} {g' : Graph} (h : Tallies g₀ r.report g)
    (hloses : g.Loses vertices edges g') (hlost : ∃ x ∈ g.facts, x ∉ g'.facts)
    (hremoved : report.removed)
    (hvertices : report.deletedVertices = r.report.deletedVertices + vertices)
    (hedges : report.deletedEdges = r.report.deletedEdges + edges) : Tallies g₀ report g' where
  loses := by
    rw [hvertices, hedges]
    exact h.loses.trans hloses
  lost _ := by
    obtain ⟨y, hy, hgone⟩ := hlost
    exact ⟨y, h.loses.facts hy, hgone⟩
  kept hkept := by
    rw [hremoved] at hkept
    cases hkept

/-- An entry of the value index may go without a report. -/
theorem keep {report : RemovalReport} {g' : Graph} (h : Tallies g₀ report g)
    (hloses : g.Loses 0 0 g') (halike : g.Alike g') : Tallies g₀ report g' where
  loses := h.loses.trans hloses
  lost hremoved := by
    obtain ⟨y, hy, hgone⟩ := h.lost hremoved
    exact ⟨y, hy, fun hmem => hgone (hloses.facts hmem)⟩
  kept hkept := (h.kept hkept).trans halike

/-- Steps that report a change if something was taken out, and go on as before if not. -/
theorem branch {steps : GraphM Transaction Bool} {done : Removal}
    {kept : GraphM Transaction Removal} (h : Tallies g₀ r.report g)
    (hsteps : Ensures steps g (g.Lessens vertices edges))
    (hkept : Ensures kept g fun r' => Tallies g₀ r'.report) (hremoved : done.report.removed)
    (hvertices : done.report.deletedVertices = r.report.deletedVertices + vertices)
    (hedges : done.report.deletedEdges = r.report.deletedEdges + edges) :
    Ensures (do if ← steps then return done else kept) g fun r' => Tallies g₀ r'.report := by
  refine hsteps.bind fun changed g' hless => ?_
  cases changed with
  | false =>
    obtain rfl : g' = g := hless
    exact hkept
  | true => exact .pure (h.step hless.1 hless.2 hremoved hvertices hedges)

end Tallies

/-! ## Steps of a removal -/

theorem removeProperties_tallies (h : Tallies g₀ r.report g) :
    Ensures (removeProperties i x n r) g fun r' => Tallies g₀ r'.report :=
  Ensures.foldlM (I := fun (r : Removal) => Tallies g₀ r.report) (fun _ _ _ _ h =>
    h.branch (.perform fun _ _ => Graph.Performs.removeProperty_lessens h.loses.wellFormed)
      (.pure h) rfl rfl rfl) h

theorem removeGuarded_tallies (h : Tallies g₀ r.report g) :
    Ensures (removeGuarded i x n r) g fun r' => Tallies g₀ r'.report := by
  refine Ensures.foldlM (I := fun (r : Removal) => Tallies g₀ r.report)
    (fun y _ r g h => Ensures.graph_bind ?_) h
  dsimp only
  split
  · exact h.branch (.perform fun _ _ => Graph.Performs.removeProperty_lessens h.loses.wellFormed)
      (.pure h) rfl rfl rfl
  · exact .pure h

theorem removeContents_tallies (h : Tallies g₀ r.report g) :
    Ensures (f.removeContents a r) g fun r' => Tallies g₀ r'.report := by
  refine Ensures.foldlM (I := fun (r : Removal) => Tallies g₀ r.report) (fun ⟨n, i⟩ _ r g h => ?_) h
  dsimp only
  split
  · exact (removeProperties_tallies h).bind fun r' g' h' => removeGuarded_tallies h'
  · exact .pure h

theorem removeContextEdge_tallies (h : Tallies g₀ r.report g) :
    Ensures (removeContextEdge i id r) g fun r' => Tallies g₀ r'.report :=
  h.branch (.perform fun _ _ => Graph.Performs.deleteEdge_lessens h.loses.wellFormed)
    (.pure h) rfl rfl rfl

theorem removeRelation_tallies {x : FragmentEdge} (h : Tallies g₀ r.report g) :
    Ensures (removeRelation x id r) g fun r' => Tallies g₀ r'.report := by
  unfold removeRelation
  have hproperties : Ensures (x.properties.toList.foldlM (fun removedAny entry => do
      return (← GraphM.perform (.removeEdgeProperty id entry)) || removedAny) false) g
      fun (removedAny : Bool) g' =>
        Tallies g₀ (if removedAny then r.changed else r).report g' := by
    refine Ensures.foldlM (I := fun (removedAny : Bool) g' =>
      Tallies g₀ (if removedAny then r.changed else r).report g')
      (fun entry _ removedAny g' h' => ?_) h
    refine (Ensures.perform fun _ _ =>
      Graph.Performs.removeEdgeProperty_lessens h'.loses.wellFormed).bind fun answer g'' hless => ?_
    cases answer with
    | false =>
      obtain rfl : g'' = g' := hless
      exact .pure h'
    | true =>
      refine .pure (h'.step hless.1 hless.2 ?_ ?_ ?_) <;> cases removedAny <;> rfl
  refine hproperties.bind fun removedAny g' h' => Ensures.graph_bind ?_
  dsimp only
  split
  · exact h'.branch (.perform fun _ _ => Graph.Performs.deleteEdge_lessens h'.loses.wellFormed)
      (.pure h') rfl rfl rfl
  · exact .pure h'

theorem removeEdge_tallies {x : FragmentEdge} (h : Tallies g₀ r.report g) :
    Ensures (removeEdge a r x) g fun r' => Tallies g₀ r'.report := by
  unfold removeEdge
  split
  · refine Ensures.graph_bind ?_
    split
    · exact removeContextEdge_tallies h
    · exact removeRelation_tallies h
    · exact .pure h
  · exact .pure h

/-- A literal vertex goes without a report of its own, as the vertex in the middle has gone. -/
theorem removeLiteralVertex_tallies (h : Tallies g₀ r.report g) (hr : r.report.removed) :
    Ensures (removeLiteralVertex r x) g fun r' g' =>
      Tallies g₀ r'.report g' ∧ r'.report.removed := by
  unfold removeLiteralVertex
  refine (Ensures.read (Q := fun es g' => g' = g ∧ es = g.edgesAt x none .both)
    fun es hes => ⟨rfl, ?_⟩).bind ?_
  · obtain ⟨_, -, hes⟩ := Graph.bind_eq_ok.1 hes
    cases hes
    rfl
  · rintro es _ ⟨rfl, rfl⟩
    refine (Ensures.perform fun _ _ =>
      Graph.Performs.deleteVertex_lessens h.loses.wellFormed).bind fun deleted g' hless => ?_
    cases deleted with
    | false =>
      obtain rfl := hless
      exact .pure ⟨h, hr⟩
    | true => exact .pure ⟨h.step hless.1 hless.2 hr rfl rfl, hr⟩

/-- A middle vertex that is there is deleted, and that is reported. -/
theorem removeMiddleVertex_tallies (h : Tallies g₀ r.report g) (hx : x ∈ g.vertices) :
    Ensures (removeMiddleVertex v x r) g fun r' => Tallies g₀ r'.report := by
  unfold removeMiddleVertex
  refine Ensures.graph_bind ?_
  have hdelete : Ensures (GraphM.perform (.deleteVertex x)) g fun (deleted : Bool) g' =>
      deleted = true ∧ g.Lessens 1 (g.edgesAt x none .both).length deleted g' :=
    .perform fun _ _ hperforms => ⟨Graph.Performs.deleteVertex_of_mem hx hperforms,
      Graph.Performs.deleteVertex_lessens h.loses.wellFormed hperforms⟩
  refine hdelete.bind ?_
  rintro _ g' ⟨rfl, hless⟩
  refine (Ensures.foldlM (I := fun (r : Removal) g => Tallies g₀ r.report g ∧ r.report.removed)
    (fun _ _ _ _ h => removeLiteralVertex_tallies h.1 h.2) ?_).mono fun r' g'' h'' => h''.1
  exact ⟨h.step hless.1 hless.2 rfl rfl rfl, rfl⟩

theorem removeMiddle_tallies (h : Tallies g₀ r.report g) :
    Ensures (f.removeMiddle v a r i n) g fun r' => Tallies g₀ r'.report := by
  unfold removeMiddle
  split
  · exact .pure h
  · rename_i middle _
    refine (Ensures.read (Q := fun _ g' => g' = g ∧ middle ∈ g.vertices) fun x hx => ?_).bind ?_
    · exact ⟨rfl, mem_of_getElem?_eq (Graph.vertex_eq_ok.1 hx)⟩
    · rintro _ _ ⟨rfl, hmiddle⟩
      refine Ensures.graph_bind ?_
      dsimp only
      split
      · exact removeMiddleVertex_tallies h hmiddle
      · exact .pure h

theorem releaseIndex_tallies {report : RemovalReport} (h : Tallies g₀ report g) :
    Ensures (releaseIndex a r i n) g fun _ => Tallies g₀ report := by
  unfold releaseIndex
  split
  · exact .pure h
  · refine Ensures.graph_bind ?_
    split
    · exact .pure h
    · refine Ensures.forM (I := Tallies g₀ report) (fun entry _ g' h' => Ensures.graph_bind ?_) h
      split
      · refine (Ensures.perform (Q := fun _ g'' => g'.Loses 0 0 g'' ∧ g'.Alike g'') fun _ _ =>
          Graph.Performs.unindexVertex_loses h'.loses.wellFormed).bind fun _ g'' hloses => .pure ?_
        exact h'.keep hloses.1 hloses.2
      · exact .pure h'

theorem collect_tallies (h : Tallies g₀ r.report g) :
    Ensures (collect v r x) g fun r' => Tallies g₀ r'.report := by
  refine Ensures.graph_bind ?_
  split
  · rename_i hbare
    -- no edge meets a vertex that is collected
    have hnone : (g.edgesAt x none .both).length = 0 := by
      simp only [Bool.and_eq_true, List.isEmpty_iff] at hbare
      rw [hbare.1.2, List.length_nil]
    exact h.branch (.perform fun _ _ => Graph.Performs.deleteVertex_lessens h.loses.wellFormed)
      (.pure h) rfl rfl (by rw [hnone]; rfl)
  · exact .pure h

/-! ## The whole removal -/

theorem clear_tallies (h : Tallies g₀ r.report g) :
    Ensures (f.clear v a r) g fun r' => Tallies g₀ r'.report := by
  refine (removeContents_tallies h).bind fun r₁ g₁ h₁ => ?_
  refine Ensures.bind (Q := fun (r' : Removal) => Tallies g₀ r'.report) ?_ fun r₂ g₂ h₂ => ?_
  · exact Ensures.foldlM (I := fun (r : Removal) => Tallies g₀ r.report)
      (fun _ _ _ _ h => removeEdge_tallies h) h₁
  · exact Ensures.foldlM (I := fun (r : Removal) => Tallies g₀ r.report)
      (fun _ _ _ _ h => removeMiddle_tallies h) h₂

theorem removeAssigned_tallies (hg : g.WellFormed) :
    Ensures (f.removeAssigned v a) g fun x => Tallies g x.1 := by
  rw [removeAssigned_eq]
  refine (clear_tallies (.start hg)).bind fun r g₁ h₁ => ?_
  refine Ensures.bind (Q := fun _ => Tallies g r.report) ?_ fun _ g₂ h₂ => ?_
  · exact Ensures.forM (I := Tallies g r.report) (fun _ _ _ h => releaseIndex_tallies h) h₁
  · refine Ensures.bind (Q := fun (r' : Removal) => Tallies g r'.report) ?_ fun r' g₃ h₃ => .pure h₃
    exact Ensures.foldlM (I := fun (r : Removal) => Tallies g r.report)
      (fun _ _ _ _ h => collect_tallies h) h₂

/-- A removal that succeeds reports what the graph has lost. -/
theorem removeFrom_tallies (hg : g.WellFormed) :
    Ensures (f.removeFrom v) g fun x => Tallies g x.1 := by
  refine Ensures.graph_bind ?_
  split
  · exact .pure (.start hg)
  · exact removeAssigned_tallies hg

end Fragment

end QuadStore
