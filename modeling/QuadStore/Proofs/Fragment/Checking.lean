import Mathlib
import QuadStore.Proofs.Fragment.Reporting
import QuadStore.Proofs.Fragment.Searching
import QuadStore.Proofs.View.Vertices
/-!
# Removing with every read checked

A removal reads what is in the graph only, so it makes no difference whether a read of something
missing fails: removing with every read checked does what removing does, in every graph.
-/

namespace QuadStore

variable {α β : Type} {g : Graph}

/-! ## Steps that agree -/

namespace GraphM

variable {f : Graph → Except GraphError α} {t : Transaction}

theorem read_ok {a : α} (h : f t.graph = .ok a) : (read f : GraphM Transaction α) t = .ok a t := by
  have hgraph : f (GraphAccess.graph t) = .ok a := h
  simp only [read, hgraph]

theorem read_error {cause : GraphError} (h : f t.graph = .error cause) :
    (read f : GraphM Transaction α) t = .error cause t := by
  have hgraph : f (GraphAccess.graph t) = .error cause := h
  simp only [read, hgraph]

end GraphM

/-- From the graph on, both do the same. -/
def Agree (steps steps' : GraphM Transaction α) (g : Graph) : Prop :=
  ∀ t : Transaction, t.graph = g → steps t = steps' t

namespace Agree

variable {steps steps' : GraphM Transaction α} {next next' : α → GraphM Transaction β}

theorem refl (steps : GraphM Transaction α) (g : Graph) : Agree steps steps g := fun _ _ => rfl

/-- What comes next need only agree on what the first steps leave. -/
theorem bind {Q : α → Graph → Prop} (h : Agree steps steps' g) (hq : Ensures steps' g Q)
    (hnext : ∀ a g', Q a g' → Agree (next a) (next' a) g') :
    Agree (steps >>= next) (steps' >>= next') g := by
  intro t ht
  cases hrun : steps' t with
  | error cause t' => rw [run_bind_error hrun, run_bind_error ((h t ht).trans hrun)]
  | ok a t' =>
    rw [run_bind_ok hrun, run_bind_ok ((h t ht).trans hrun)]
    exact hnext a t'.graph (hq t a t' ht hrun) t' rfl

/-- A read that succeeds is no step. -/
theorem read_bind {f : Graph → Except GraphError α} {a : α} {rest : GraphM Transaction β}
    (hf : f g = .ok a) (h : Agree (next a) rest g) : Agree (GraphM.read f >>= next) rest g := by
  rintro t rfl
  exact (run_bind_ok (GraphM.read_ok hf)).trans (h t rfl)

theorem read_bind_right {f : Graph → Except GraphError α} {a : α} {rest : GraphM Transaction β}
    (hf : f g = .ok a) (h : Agree rest (next a) g) : Agree rest (GraphM.read f >>= next) g :=
  fun t ht => (read_bind hf (fun t ht => (h t ht).symm) t ht).symm

theorem read_missing {f : Graph → Except GraphError α} {γ : Type}
    {f' : Graph → Except GraphError γ} {next' : γ → GraphM Transaction β} {cause : GraphError}
    (hf : f g = .error cause) (hf' : f' g = .error cause) :
    Agree (GraphM.read f >>= next) (GraphM.read f' >>= next') g := by
  rintro t rfl
  rw [run_bind_error (GraphM.read_error hf), run_bind_error (GraphM.read_error hf')]

theorem graph_bind {next : Graph → GraphM Transaction β} {rest : GraphM Transaction β}
    (h : Agree rest (next g) g) : Agree rest (GraphM.graph >>= next) g := by
  rintro t rfl
  exact h t rfl

theorem graph_bind_left {next : Graph → GraphM Transaction β} {rest : GraphM Transaction β}
    (h : Agree (next g) rest g) : Agree (GraphM.graph >>= next) rest g := by
  rintro t rfl
  exact h t rfl

/-- Steps that agree with an answer are no steps. -/
theorem pure_bind {a : α} {rest : GraphM Transaction β} (h : Agree steps (Pure.pure a) g)
    (hnext : Agree (next a) rest g) : Agree (steps >>= next) rest g := by
  intro t ht
  exact (run_bind_ok (h t ht)).trans (hnext t ht)

theorem foldlM {step step' : β → α → GraphM Transaction β} {I : β → Graph → Prop} {items : List α}
    {b : β}
    (hstep : ∀ x ∈ items, ∀ b g', I b g' →
      Agree (step b x) (step' b x) g' ∧ Ensures (step' b x) g' I)
    (h : I b g) : Agree (items.foldlM step b) (items.foldlM step' b) g := by
  induction items generalizing g b with
  | nil => exact refl _ _
  | cons x rest ih =>
    rw [List.foldlM_cons, List.foldlM_cons]
    obtain ⟨hagree, hensures⟩ := hstep x (List.mem_cons_self ..) b g h
    exact hagree.bind hensures fun b' g' h' =>
      ih (fun y hy => hstep y (List.mem_cons_of_mem _ hy)) h'

theorem forM {step step' : α → GraphM Transaction Unit} {I : Graph → Prop} {items : List α}
    (hstep : ∀ x ∈ items, ∀ g', I g' → Agree (step x) (step' x) g' ∧
      Ensures (step' x) g' fun _ => I)
    (h : I g) : Agree (items.forM step) (items.forM step') g := by
  induction items generalizing g with
  | nil => exact refl _ _
  | cons x rest ih =>
    obtain ⟨hagree, hensures⟩ := hstep x (List.mem_cons_self ..) g h
    exact hagree.bind hensures fun _ g' h' =>
      ih (fun y hy => hstep y (List.mem_cons_of_mem _ hy)) h'

/-- Steps that agree on every graph. -/
theorem bind_all (h : Agree steps steps' g) (hnext : ∀ a g', Agree (next a) (next' a) g') :
    Agree (steps >>= next) (steps' >>= next') g :=
  h.bind (Q := fun _ _ => True) (fun _ _ _ _ _ => trivial) fun a g' _ => hnext a g'

theorem foldlM_all {step step' : β → α → GraphM Transaction β} {items : List α} {b : β}
    (hstep : ∀ b x g', Agree (step b x) (step' b x) g') :
    Agree (items.foldlM step b) (items.foldlM step' b) g :=
  foldlM (I := fun _ _ => True) (fun x _ b g' _ => ⟨hstep b x g', fun _ _ _ _ _ => trivial⟩) trivial

theorem forM_all {step step' : α → GraphM Transaction Unit} {items : List α}
    (hstep : ∀ x g', Agree (step x) (step' x) g') : Agree (items.forM step) (items.forM step') g :=
  forM (I := fun _ => True) (fun x _ g' _ => ⟨hstep x g', fun _ _ _ _ _ => trivial⟩) trivial

theorem anyM {p : α → GraphM Transaction Bool} {q : α → Bool} {items : List α}
    (h : ∀ x ∈ items, Agree (p x) (Pure.pure (q x)) g) :
    Agree (items.anyM p) (Pure.pure (items.any q)) g := by
  induction items with
  | nil => exact refl _ _
  | cons x rest ih =>
    rw [List.anyM_cons, List.any_cons]
    refine (h x (List.mem_cons_self ..)).pure_bind ?_
    cases q x with
    | true => exact refl _ _
    | false => exact ih fun y hy => h y (List.mem_cons_of_mem _ hy)

theorem filterM {p : α → GraphM Transaction Bool} {q : α → Bool} {items : List α}
    (h : ∀ x ∈ items, Agree (p x) (Pure.pure (q x)) g) :
    Agree (items.filterM p) (Pure.pure (items.filter q)) g := by
  have haux : ∀ done : List α,
      Agree (items.filterAuxM p done) (Pure.pure ((items.filter q).reverse ++ done)) g := by
    induction items with
    | nil => exact fun done => refl _ _
    | cons x rest ih =>
      intro done
      have hrest := ih fun y hy => h y (List.mem_cons_of_mem _ hy)
      refine (h x (List.mem_cons_self ..)).pure_bind ?_
      cases hx : q x with
      | true =>
        rw [List.filter_cons_of_pos hx, List.reverse_cons, List.append_assoc]
        exact hrest (x :: done)
      | false =>
        rw [List.filter_cons_of_neg (by simp [hx])]
        exact hrest done
  refine (haux []).pure_bind ?_
  rw [List.append_nil, List.reverse_reverse]
  exact refl _ _

end Agree

theorem Yields.ensures {steps : GraphM Transaction α} {Q : α → Graph → Prop} (h : Yields steps g Q) :
    Ensures steps g Q := by
  intro t a t' ht hrun
  obtain ⟨b, t'', hrun', hq⟩ := h t ht
  cases hrun.symm.trans hrun'
  exact hq

/-- There are keys if there are entries. -/
theorem EntrySet.isEmpty_keys (s : EntrySet) : s.keys.isEmpty = s.isEmpty := by
  rw [keys, ← Std.ExtTreeSet.isEmpty_toList]
  cases s.toList with
  | nil => rfl
  | cons entry entries => rw [List.map_cons, List.eraseDups_cons]; rfl

namespace Fragment

namespace Checked

variable {f : Fragment} {v : Vocabulary} {a : Assignment} {r : Removal} {n : Node} {i : Nat}
  {x w : VertexId} {id : EdgeId}

/-! ## Properties and edges -/

theorem removeGuarded_agrees (hx : x ∈ g.vertices) :
    Agree (removeGuarded i x n r) (Fragment.removeGuarded i x n r) g := by
  rw [removeGuarded_eq]
  exact Agree.foldlM (I := fun (_ : Removal) g' => g.Spares g')
    (fun _ _ _ _ hg' => ⟨.read_bind (Graph.property_ok (hg' x hx)) (.graph_bind (.refl _ _)),
      ((removeGuardedValue_spares (hg' x hx)).mono fun _ _ => hg'.trans).ensures⟩) (.refl g)

theorem removeContents_agrees (ha : g.Hosts a) :
    Agree (removeContents f a r) (f.removeContents a r) g := by
  rw [removeContents_eq]
  refine Agree.foldlM (I := fun (_ : Removal) g' => g.Spares g') (fun ⟨n, i⟩ _ r g' hg' => ⟨?_,
    ((removeNode_spares (ha.spares hg')).mono fun _ _ => hg'.trans).ensures⟩) (.refl g)
  dsimp only [removeNode]
  cases hx : a[i]? with
  | none => exact .refl _ _
  | some x =>
    have hvertex : x ∈ g'.vertices := ha.spares hg' i x hx
    exact (Agree.refl _ _).bind (removeProperties_spares hvertex).ensures
      fun _ _ hg'' => removeGuarded_agrees (hg'' x hvertex)

theorem findEdge_agrees {label : String} (hx : x ∈ g.vertices) :
    Agree (findEdge x label w) (pure (g.findEdge? x label w)) g :=
  .read_bind (Graph.findEdges_ok hx) (.refl _ _)

theorem removeRelation_agrees {y : FragmentEdge} (hid : id ∈ g.edges) :
    Agree (removeRelation y id r) (Fragment.removeRelation y id r) g := by
  refine (Agree.refl _ _).bind (removeEdgeProperties_spares hid).ensures fun removedAny g' hg' => ?_
  refine .read_bind (Graph.edgePropertyKeys_ok hg'.2) (.graph_bind ?_)
  rw [EntrySet.isEmpty_keys]
  exact .refl _ _

theorem removeEdge_agrees {y : FragmentEdge} (ha : g.Hosts a) :
    Agree (removeEdge a r y) (Fragment.removeEdge a r y) g := by
  unfold removeEdge Fragment.removeEdge
  cases hsource : a[y.source]? with
  | none => exact .refl _ _
  | some source =>
    cases a[y.target]? with
    | none => exact .refl _ _
    | some target =>
      have hfind : Agree (findEdge source y.label target)
          (pure (g.findEdge? source y.label target)) g := findEdge_agrees (ha _ source hsource)
      cases y.kind with
      | structural =>
        refine .graph_bind ?_
        cases g.findEdge? source y.label target <;> exact .refl _ _
      | context =>
        refine .graph_bind (hfind.pure_bind ?_)
        cases g.findEdge? source y.label target <;> exact .refl _ _
      | relation =>
        refine .graph_bind (hfind.pure_bind ?_)
        cases hid : g.findEdge? source y.label target with
        | none => exact .refl _ _
        | some id => exact removeRelation_agrees (mem_edges_of_findEdge hid)

/-! ## Middle vertices -/

theorem recordsNothing_agrees (hx : x ∈ g.vertices) :
    Agree (recordsNothing v x) (pure (Fragment.recordsNothing v g x)) g := by
  refine .read_bind (Graph.findEdges_ok hx) ?_
  rw [Fragment.recordsNothing]
  cases (g.edgesAt x (some v.contextEdgeLabel) .outgoing).isEmpty with
  | true => exact .read_bind (Graph.property_ok hx) (.refl _ _)
  | false => exact .refl _ _

theorem contains_values (s : EntrySet) (key value : String) :
    (s.values key).contains value = s.has key value := by
  rw [Bool.eq_iff_iff, List.contains_iff_mem, EntrySet.mem_values, EntrySet.has,
    Std.ExtTreeSet.contains_iff_mem]

theorem holdsLiteral_agrees (hx : x ∈ g.vertices) :
    Agree (holdsLiteral v x) (pure (Fragment.holdsLiteral v g x)) g := by
  refine .read_bind (Graph.property_ok hx) ?_
  rw [contains_values]
  exact .refl _ _

theorem filter_notMem_filter {xs : List α} [BEq α] [LawfulBEq α] (p : α → Bool) :
    xs.filter (fun x => !(xs.filter p).contains x) = xs.filter fun x => !p x := by
  refine List.filter_congr fun x hx => ?_
  rw [Bool.not_inj_iff, Bool.eq_iff_iff, List.contains_iff_mem, List.mem_filter, and_iff_right hx]

theorem removeMiddleVertex_agrees (hg : g.WellFormed) (hx : x ∈ g.vertices) :
    Agree (removeMiddleVertex v x r) (Fragment.removeMiddleVertex v x r) g := by
  refine .read_bind (Graph.findEdges_ok hx) (.graph_bind ?_)
  refine Agree.pure_bind (Agree.filterM fun y hy => holdsLiteral_agrees ?_) ?_
  · obtain ⟨⟨id, z⟩, hz, rfl⟩ := List.mem_map.1 (List.mem_filter.1 hy).1
    exact vertex_of_edge hg hz
  · dsimp only
    rw [filter_notMem_filter]
    exact .refl _ _

theorem removeMiddle_agrees (hg : g.WellFormed) :
    Agree (removeMiddle f v a r i n) (f.removeMiddle v a r i n) g := by
  unfold removeMiddle Fragment.removeMiddle
  cases if n.hasTag .middle then a[i]? else none with
  | none => exact .refl _ _
  | some middle =>
    by_cases hx : middle ∈ g.vertices
    · obtain ⟨data, hdata, -⟩ := Graph.vertex_ok hx
      refine .read_bind_right hdata (.graph_bind ((recordsNothing_agrees hx).pure_bind ?_))
      dsimp only
      split
      · exact removeMiddleVertex_agrees hg hx
      · exact .refl _ _
    · -- a middle vertex that is gone fails both
      dsimp only
      rw [recordsNothing, bind_assoc]
      exact .read_missing (Graph.findEdges_missing hx) (Graph.vertex_missing hx)

/-! ## Indexes and vertices of resources -/

theorem any_keys (s : EntrySet) (p : String → Bool) (value : String) :
    s.keys.any (fun key => p key && s.has key value) =
      s.any fun entry => p entry.key && entry.value == value := by
  rw [Bool.eq_iff_iff, List.any_eq_true, set_any_iff]
  simp only [EntrySet.has, Bool.and_eq_true, Std.ExtTreeSet.contains_iff_mem, beq_iff_eq]
  constructor
  · rintro ⟨key, -, hp, hentry⟩
    exact ⟨_, hentry, hp, rfl⟩
  · rintro ⟨entry, hentry, hp, rfl⟩
    refine ⟨entry.key, ?_, hp, hentry⟩
    rw [EntrySet.keys, List.mem_eraseDups, List.mem_map]
    exact ⟨entry, Std.ExtTreeSet.mem_toList.2 hentry, rfl⟩

theorem isReleased_agrees {entry : IndexEntry} (hx : x ∈ g.vertices) :
    Agree (isReleased x entry) (pure (Fragment.isReleased g x entry)) g := by
  unfold isReleased Fragment.isReleased
  cases entry.release with
  | withVertex => exact .refl _ _
  | whenNoProperty key =>
    cases key with
    | some key =>
      refine .read_bind (Graph.property_ok hx) ?_
      rw [contains_values]
      exact .refl _ _
    | none =>
      dsimp only
      rw [← any_keys (g.propertiesOf x) fun key => !isInternal key]
      refine .read_bind (Graph.propertyKeys_ok hx)
        (Agree.pure_bind (.anyM fun key _ => ?_) (.refl _ _))
      cases isInternal key with
      | true => exact .refl _ _
      | false =>
        refine .read_bind (Graph.property_ok hx) ?_
        rw [contains_values]
        exact .refl _ _
  | whenNoEdgeProperty label key =>
    refine .read_bind (Graph.findEdges_ok hx) (Agree.pure_bind (.anyM fun y hy => ?_) (.refl _ _))
    have hedge := (Graph.mem_edgesAt.1 hy).1
    refine .read_bind (Graph.edgeProperty_ok (mem_of_getElem?_eq hedge)) ?_
    rw [contains_values, Graph.edgePropertiesOf_eq hedge]
    exact .refl _ _

theorem releaseIndex_agrees : Agree (releaseIndex a r i n) (Fragment.releaseIndex a r i n) g := by
  unfold releaseIndex Fragment.releaseIndex
  cases a[i]? with
  | none => exact .refl _ _
  | some x =>
    refine .graph_bind_left (.graph_bind ?_)
    split
    · exact .refl _ _
    · rename_i hthere
      have hx : x ∈ g.vertices := by
        simp only [Bool.or_eq_true, Bool.not_eq_true', not_or, Bool.not_eq_false] at hthere
        exact Std.ExtTreeMap.contains_iff_mem.1 hthere.2
      exact Agree.forM (I := g.Spares) (fun _ _ _ hg' =>
        ⟨.graph_bind ((isReleased_agrees (hg' x hx)).pure_bind (.refl _ _)),
          (releaseEntry_spares.mono fun _ _ => hg'.trans).ensures⟩) (.refl g)

theorem onlyIdentityLeft_agrees (hx : x ∈ g.vertices) :
    Agree (onlyIdentityLeft v x) (pure (isBare v (g.propertiesOf x))) g := by
  refine .read_bind (Graph.propertyKeys_ok hx) ?_
  unfold isBare
  rcases (g.propertiesOf x).keys with _ | ⟨key, _ | ⟨other, rest⟩⟩ <;> exact .refl _ _

theorem collect_agrees : Agree (collect v r x) (Fragment.collect v r x) g := by
  refine .graph_bind_left (.graph_bind ?_)
  by_cases hx : x ∈ g.vertices
  · have hthere : g.hasVertex x = true := Std.ExtTreeMap.contains_iff_mem.2 hx
    rw [hthere, Bool.true_and]
    refine .read_bind (Graph.hasEdges_ok hx) ?_
    cases (g.edgesAt x none .both).isEmpty with
    | false => exact .refl _ _
    | true => exact (onlyIdentityLeft_agrees hx).pure_bind (.refl _ _)
  · have hgone : g.hasVertex x = false := by
      rw [← Bool.not_eq_true]
      exact mt Std.ExtTreeMap.contains_iff_mem.1 hx
    rw [hgone]
    exact .refl _ _

/-! ## The whole removal -/

theorem removeAssigned_agrees (hg : g.WellFormed) (ha : g.Hosts a) :
    Agree (removeAssigned f v a) (f.removeAssigned v a) g := by
  refine (removeContents_agrees ha).bind
    ((removeContents_spares ha).and_ensures (removeContents_tallies (.start hg))).ensures
    fun r₁ g₁ h₁ => ?_
  have hedges : Agree (f.edges.foldlM (removeEdge a) r₁)
      (f.edges.foldlM (Fragment.removeEdge a) r₁) g₁ :=
    Agree.foldlM (I := fun (_ : Removal) g' => g₁.Spares g')
      (fun _ _ _ _ hg' => ⟨removeEdge_agrees ((ha.spares h₁.1).spares hg'),
        (removeEdge_spares.mono fun _ _ => hg'.trans).ensures⟩) (.refl g₁)
  refine hedges.bind (Ensures.foldlM (I := fun (r : Removal) => Tallies g r.report)
      (fun _ _ _ _ h => removeEdge_tallies h) h₁.2) fun r₂ g₂ h₂ => ?_
  refine Agree.bind_all (.foldlM (I := fun (r : Removal) => Tallies g r.report)
    (fun _ _ _ _ h => ⟨removeMiddle_agrees h.loses.wellFormed, removeMiddle_tallies h⟩) h₂)
    fun r₃ g₃ => ?_
  -- what is left asks whether a vertex is there before it reads
  exact .bind_all (.forM_all fun _ _ => releaseIndex_agrees) fun _ _ =>
    .bind_all (.foldlM_all fun _ _ _ => collect_agrees) fun _ _ => .refl _ _

/-- With every read checked, a removal does what it does. -/
theorem removeFrom_agrees (hg : g.WellFormed) :
    Agree (removeFrom f v) (f.removeFrom v) g := by
  refine .read_bind (locate_ok hg) (.graph_bind ?_)
  cases ha : f.locate? g with
  | none => exact .refl _ _
  | some a => exact removeAssigned_agrees hg (locate?_hosts hg ha)

end Checked

end Fragment

end QuadStore
