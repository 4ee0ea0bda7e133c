import Mathlib
import QuadStore.Fragment.Removal
import QuadStore.Proofs.Fragment.Merging
/-!
# Taking out what a fragment says

Each step of a removal takes facts out of a graph, and the removal remembers which of them were
there.
-/

namespace QuadStore

/-! ## Loops with one step that matters -/

section Loops

variable {μ : Type → Type} [Monad μ] [LawfulMonad μ] {α β : Type} {step : β → α → μ β}
  {xs : List α} {x : α} {b : β}

theorem foldlM_skip (h : ∀ x ∈ xs, ∀ b, step b x = pure b) : xs.foldlM step b = pure b := by
  induction xs with
  | nil => rfl
  | cons x rest ih =>
    rw [List.foldlM_cons, h x (List.mem_cons_self ..), pure_bind]
    exact ih fun y hy => h y (List.mem_cons_of_mem _ hy)

theorem foldlM_single (hnodup : xs.Nodup) (hx : x ∈ xs)
    (h : ∀ y ∈ xs, y ≠ x → ∀ b, step b y = pure b) : xs.foldlM step b = step b x := by
  obtain ⟨before, after, rfl⟩ := List.append_of_mem hx
  have hnotMem : x ∉ before ∧ x ∉ after := by
    rw [List.nodup_middle, List.nodup_cons, List.mem_append, not_or] at hnodup
    exact hnodup.1
  have hbefore : before.foldlM step b = pure b := foldlM_skip fun y hy =>
    h y (List.mem_append_left _ hy) fun heq => hnotMem.1 (heq ▸ hy)
  have hafter : ∀ b', after.foldlM step b' = pure b' := fun b' => foldlM_skip fun y hy =>
    h y (List.mem_append_right _ (List.mem_cons_of_mem _ hy)) fun heq => hnotMem.2 (heq ▸ hy)
  rw [List.foldlM_append, hbefore, pure_bind, List.foldlM_cons]
  simp only [hafter, bind_pure]

end Loops

namespace Fragment

variable {ν : Type} {g : Graph} {P : Placement ν} {F F₁ : Facts ν} {p q : ν} {f : Fragment}
  {role : Nat → ν} {n : Node} {i : Nat} {r : Removal} {a : Assignment}

/-! ## Properties -/

/-- The properties of a node are taken out of its vertex. -/
theorem removeProperties_yields (h : g.Shows P F) (hp : .vertex p ∈ F) :
    Yields (removeProperties i (P.vertex p) n r) g fun r' g' =>
      g'.Shows P (F \ {x | ∃ entry ∈ n.properties, x = .property p entry}) ∧
      (r'.detached = r.detached ∧ r'.dead = r.dead ∧ r'.touched = r.touched ∧
        r'.released = r.released) ∧
      ∀ y, y ∈ r'.emptied ↔ y ∈ r.emptied ∨
        ∃ entry ∈ n.properties, .property p entry ∈ F ∧ y = (i, entry.key) := by
  let gone (entry : Entry) : Facts ν := {.property p entry}
  have hvertex : ∀ F' : Facts ν, (∀ x ∈ F, (∀ entry ∈ n.properties.toList, x ∉ gone entry) → x ∈ F') →
      .vertex p ∈ F' := fun F' hleft => hleft _ hp fun entry _ => by simp [gone]
  refine (h.foldlM_remove gone (fun entry => .property p entry) (fun entry y => y = (i, entry.key))
    (fun r y => y ∈ r.emptied) (fun r => (r.detached, r.dead, r.touched, r.released)) ?_ ?_).mono ?_
  · rintro entry - other - hgone
    cases hgone
    exact ⟨rfl, fun _ hy => hy⟩
  · intro entry _ F' _ hleft r g' h'
    refine (h'.removeProperty (hvertex F' hleft)).bind ?_
    rintro answer g'' ⟨hanswer, h''⟩
    cases answer with
    | false =>
      have hnot : .property p entry ∉ F' := fun hmem => by simpa using hanswer.2 hmem
      exact Yields.pure ⟨h'', rfl, fun y => by simp [hnot]⟩
    | true =>
      refine Yields.pure ⟨h'', rfl, fun y => ?_⟩
      simp only [Removal.changed, List.mem_cons, hanswer.1 rfl, true_and]
      exact or_comm
  · rintro r' g' ⟨h', hkeep, hmarks⟩
    simp only [Prod.mk.injEq] at hkeep
    refine ⟨h'.congr ?_, hkeep, fun y => ?_⟩
    · simp only [gone, Std.ExtTreeSet.mem_toList, Set.mem_singleton_iff]
    · rw [hmarks y]
      simp only [Std.ExtTreeSet.mem_toList]

/-- A guarded value goes once nothing is under its guard key. -/
theorem removeGuarded_yields {x : GuardedValue} (goes : Prop) [Decidable goes] (h : g.Shows P F)
    (hp : .vertex p ∈ F) (hn : n.guarded = [x])
    (hgoes : goes ↔ (∀ value, .property p ⟨x.guardKey, value⟩ ∉ F) ∧
      ((∀ value, ⟨x.guardKey, value⟩ ∉ n.properties) ∨ (i, x.guardKey) ∈ r.emptied)) :
    Yields (removeGuarded i (P.vertex p) n r) g fun r' g' =>
      g'.Shows P (if goes then F \ {.property p x.entry} else F) ∧
      (r'.dead = r.dead ∧ r'.touched = r.touched) ∧
      ∀ y, y ∈ r'.released ↔ y ∈ r.released ∨
        (goes ∧ .property p x.entry ∈ F ∧ y = (i, x.entry.key)) := by
  have hnil : ∀ (s : EntrySet) (key : String),
      (s.values key).isEmpty ↔ ∀ value, ⟨key, value⟩ ∉ s := fun s key => by
    rw [List.isEmpty_iff, List.eq_nil_iff_forall_not_mem]
    simp only [EntrySet.mem_values]
  unfold removeGuarded
  rw [hn, List.foldlM_cons]
  refine Yields.bind (Q := fun r' g' => g'.Shows P (if goes then F \ {.property p x.entry} else F) ∧
    (r'.dead = r.dead ∧ r'.touched = r.touched) ∧
    ∀ y, y ∈ r'.released ↔ y ∈ r.released ∨
      (goes ∧ .property p x.entry ∈ F ∧ y = (i, x.entry.key))) ?_ fun r' g' hr => Yields.pure hr
  refine Yields.graph_bind ?_
  have hcond : (((g.propertiesOf (P.vertex p)).values x.guardKey).isEmpty &&
      (!!(n.properties.values x.guardKey).isEmpty || r.emptied.contains (i, x.guardKey))) ↔
      goes := by
    rw [Bool.not_not, Bool.and_eq_true, Bool.or_eq_true, hnil, hnil, List.contains_iff_mem, hgoes]
    simp only [h.mem_propertiesOf hp]
  by_cases hg : goes
  · rw [if_pos (hcond.2 hg), if_pos hg]
    refine (h.removeProperty hp).bind ?_
    rintro answer g' ⟨hanswer, h'⟩
    cases answer with
    | false =>
      have hnot : .property p x.entry ∉ F := fun hmem => by simpa using hanswer.2 hmem
      exact Yields.pure ⟨h', ⟨rfl, rfl⟩, fun y => by simp [hnot]⟩
    | true =>
      refine Yields.pure ⟨h', ⟨rfl, rfl⟩, fun y => ?_⟩
      simp only [Removal.changed, List.mem_cons, hg, hanswer.1 rfl, true_and]
      exact or_comm
  · rw [if_neg (mt hcond.1 hg), if_neg hg]
    exact Yields.pure ⟨h, ⟨rfl, rfl⟩, fun y => by simp [hg]⟩

theorem nodup_zipIdx {α : Type} {xs : List α} : xs.zipIdx.Nodup := by
  refine List.Nodup.of_map Prod.snd ?_
  rw [List.zipIdx_map_snd]
  exact List.nodup_range'

/-- A node with nothing but its identity loses nothing. -/
theorem removeNode_skip {v : VertexId} (hproperties : n.properties = ∅) (hguarded : n.guarded = []) :
    (removeProperties i v n r >>= removeGuarded i v n : GraphM Transaction Removal) = pure r := by
  have hnil : (∅ : EntrySet).toList = [] := by
    rw [List.eq_nil_iff_forall_not_mem]
    simp
  rw [removeProperties, hproperties, hnil, List.foldlM_nil, pure_bind, removeGuarded, hguarded,
    List.foldlM_nil]

theorem removeContents_skip (h : ∀ n ∈ f.nodes, n.properties = ∅ ∧ n.guarded = []) :
    (f.removeContents a r : GraphM Transaction Removal) = pure r := by
  refine foldlM_skip fun y hy r => ?_
  obtain ⟨n, i⟩ := y
  obtain ⟨hproperties, hguarded⟩ := h n (List.mem_of_getElem? (List.mem_zipIdx_iff_getElem?.1 hy))
  simp only
  cases a[i]? with
  | none => rfl
  | some v => exact removeNode_skip hproperties hguarded

theorem removeContents_single {v : VertexId} (hn : f.nodes[i]? = some n)
    (hother : ∀ (j : Nat) (m : Node), f.nodes[j]? = some m → j ≠ i →
      m.properties = ∅ ∧ m.guarded = [])
    (ha : a[i]? = some v) :
    (f.removeContents a r : GraphM Transaction Removal) =
      removeProperties i v n r >>= removeGuarded i v n := by
  refine (foldlM_single (x := (n, i)) nodup_zipIdx (List.mem_zipIdx_iff_getElem?.2 hn) ?_).trans ?_
  · rintro ⟨m, j⟩ hm hne r
    have hm := List.mem_zipIdx_iff_getElem?.1 hm
    have hji : j ≠ i := by
      rintro rfl
      rw [hn] at hm
      cases hm
      exact hne rfl
    obtain ⟨hproperties, hguarded⟩ := hother j m hm hji
    simp only
    cases a[j]? with
    | none => rfl
    | some w => exact removeNode_skip hproperties hguarded
  · simp only [ha]

/-! ## Edges -/

/-- Exactly the nodes whose roles are there are assigned, to the vertices of their roles. -/
def Placed (f : Fragment) (role : Nat → ν) (P : Placement ν) (F : Facts ν) (a : Assignment) : Prop :=
  ∀ (i : Nat) (v : VertexId),
    a[i]? = some v ↔ i < f.nodes.length ∧ .vertex (role i) ∈ F ∧ P.vertex (role i) = v

theorem Placed.assigned {p : ν} {i : Nat} {n : Node} (ha : f.Placed role P F a)
    (hn : f.nodes[i]? = some n) (hrole : role i = p) (hp : .vertex p ∈ F) :
    a[i]? = some (P.vertex p) :=
  (ha _ _).2 ⟨(List.getElem?_eq_some_iff.1 hn).1, hrole ▸ hp, hrole ▸ rfl⟩

theorem removeEdge_absent {x : FragmentEdge} (ha : f.Placed role P F a)
    (hvertex : ∀ p, .vertex p ∈ F → .vertex p ∈ F₁) (hb : .bond (x.bond role) ∉ F₁)
    (h : g.Shows P F₁) : Yields (removeEdge a r x) g fun r' g' => r' = r ∧ g' = g := by
  unfold removeEdge
  cases hsource : a[x.source]? with
  | none => exact Yields.pure ⟨rfl, rfl⟩
  | some v =>
    cases htarget : a[x.target]? with
    | none => exact Yields.pure ⟨rfl, rfl⟩
    | some w =>
      obtain ⟨-, hs, rfl⟩ := (ha _ _).1 hsource
      obtain ⟨-, ht, rfl⟩ := (ha _ _).1 htarget
      refine Yields.graph_bind ?_
      have hnone := h.findEdge?_eq_none (b := x.bond role) (hvertex _ hs) (hvertex _ ht) hb
      simp only [FragmentEdge.bond] at hnone
      rw [hnone]
      exact Yields.pure ⟨rfl, rfl⟩

/-- Where the edge is there, its kind decides. -/
theorem removeEdge_present {identity : ν → Identity} {x : FragmentEdge}
    {Q : Removal → Graph → Prop} (hf : f.Casts identity role) (ha : f.Placed role P F a)
    (hsub : F₁ ⊆ F) (hx : x ∈ f.edges) (hb : .bond (x.bond role) ∈ F₁) (h : g.Shows P F₁)
    (hkind : Yields (match x.kind with
      | .context => removeContextEdge x.source (P.edge (x.bond role)) r
      | .relation => removeRelation x (P.edge (x.bond role)) r
      | .structural => pure r) g Q) :
    Yields (removeEdge a r x) g Q := by
  obtain ⟨-, hs, ht⟩ := h.grounded _ hb
  have hsource : a[x.source]? = some (P.vertex (role x.source)) :=
    (ha _ _).2 ⟨(hf.ends x hx).1, hsub hs, rfl⟩
  have htarget : a[x.target]? = some (P.vertex (role x.target)) :=
    (ha _ _).2 ⟨(hf.ends x hx).2, hsub ht, rfl⟩
  have hfound := h.findEdge?_of_bond hb
  simp only [FragmentEdge.bond] at hfound
  unfold removeEdge
  rw [hsource, htarget]
  refine Yields.graph_bind ?_
  rw [hfound]
  cases hk : x.kind <;> rw [hk] at hkind <;> exact hkind

/-- An edge to a context is taken out, and the node that loses it is remembered. Structural edges
stay for now. -/
theorem removeEdge_yields {identity : ν → Identity} {x : FragmentEdge}
    (hf : f.Casts identity role) (ha : f.Placed role P F a) (hsub : F₁ ⊆ F)
    (hvertex : ∀ p, .vertex p ∈ F → .vertex p ∈ F₁) (hx : x ∈ f.edges) (hkind : x.kind ≠ .relation)
    (h : g.Shows P F₁) :
    Yields (removeEdge a r x) g fun r' g' =>
      g'.Shows P (F₁ \ {y | x.kind = .context ∧ y.OnEdge (x.bond role)}) ∧
      (r'.emptied = r.emptied ∧ r'.dead = r.dead ∧ r'.touched = r.touched ∧
        r'.released = r.released) ∧
      ∀ i, i ∈ r'.detached ↔
        i ∈ r.detached ∨ (.bond (x.bond role) ∈ F₁ ∧ x.kind = .context ∧ i = x.source) := by
  by_cases hb : .bond (x.bond role) ∈ F₁
  · refine removeEdge_present hf ha hsub hx hb h ?_
    cases hk : x.kind with
    | relation => exact absurd hk hkind
    | structural => exact Yields.pure ⟨h.congr (by simp), ⟨rfl, rfl, rfl, rfl⟩, fun i => by simp⟩
    | context =>
      refine (h.deleteEdge hb).bind ?_
      rintro answer g' ⟨rfl, h'⟩
      refine Yields.pure ⟨h'.congr ?_, ⟨rfl, rfl, rfl, rfl⟩, fun i => ?_⟩
      · ext y
        simp
      · simp [Removal.changed, Removal.countEdges, hb, or_comm]
  · refine (removeEdge_absent ha hvertex hb h).mono ?_
    rintro r' g' ⟨rfl, rfl⟩
    refine ⟨h.congr ?_, ⟨rfl, rfl, rfl, rfl⟩, fun i => by simp [hb]⟩
    ext y
    simp only [Set.mem_sdiff, Set.mem_ofPred_eq, not_and]
    exact ⟨fun hy => ⟨hy, fun _ hon => hb (Fact.bond_of_onEdge h.grounded hy hon)⟩, fun hy => hy.1⟩

/-- The edges to contexts are taken out, and the nodes that lose one are remembered. -/
theorem removeEdges_yields {identity : ν → Identity} (hf : f.Casts identity role)
    (ha : f.Placed role P F a) (hkind : ∀ x ∈ f.edges, x.kind ≠ .relation) (h : g.Shows P F) :
    Yields (f.edges.foldlM (removeEdge a) r) g fun r' g' =>
      g'.Shows P (F \ {y | ∃ x ∈ f.edges, x.kind = .context ∧ y.OnEdge (x.bond role)}) ∧
      (r'.emptied = r.emptied ∧ r'.dead = r.dead ∧ r'.touched = r.touched ∧
        r'.released = r.released) ∧
      ∀ i, i ∈ r'.detached ↔ i ∈ r.detached ∨
        ∃ x ∈ f.edges, .bond (x.bond role) ∈ F ∧ x.kind = .context ∧ i = x.source := by
  refine (h.foldlM_remove (fun x => {y | x.kind = .context ∧ y.OnEdge (x.bond role)})
    (fun x => .bond (x.bond role)) (fun x i => x.kind = .context ∧ i = x.source)
    (fun r i => i ∈ r.detached) (fun r => (r.emptied, r.dead, r.touched, r.released)) ?_ ?_).mono ?_
  · rintro x hx y hy ⟨hk, hon⟩
    have hbond : x.bond role = y.bond role := hon
    have hsource := hf.injective _ _ (hf.ends x hx).1 (hf.ends y hy).1 (congrArg Bond.source hbond)
    exact ⟨by rw [hbond], fun i hi => ⟨hk, hi.2.trans hsource⟩⟩
  · intro x hx F' hsub hleft r g' h'
    have hvertex : ∀ p, .vertex p ∈ F → .vertex p ∈ F' := fun p hp =>
      hleft _ hp fun y _ hgone => hgone.2
    refine (removeEdge_yields hf ha hsub hvertex hx (hkind x hx) h').mono ?_
    rintro r' g'' ⟨h'', ⟨h₁, h₂, h₃, h₄⟩, hmarks⟩
    exact ⟨h'', by simp only [h₁, h₂, h₃, h₄], hmarks⟩
  · rintro r' g' ⟨h', hkeep, hmarks⟩
    simp only [Prod.mk.injEq] at hkeep
    exact ⟨h', hkeep, hmarks⟩

/-- Properties of an edge are taken out, and it is told whether there were any. -/
theorem removeEdgeProperties_yields {b : Bond ν} {entries : List Entry} (h : g.Shows P F)
    (hb : .bond b ∈ F) :
    Yields (entries.foldlM (fun removedAny entry => do
      return (← GraphM.perform (.removeEdgeProperty (P.edge b) entry)) || removedAny) false) g
      fun (any : Bool) g' => g'.Shows P (F \ {y | ∃ entry ∈ entries, y = .edgeProperty b entry}) ∧
        (any ↔ ∃ entry ∈ entries, .edgeProperty b entry ∈ F) := by
  refine (h.foldlM_remove (fun entry => {.edgeProperty b entry}) (fun entry => .edgeProperty b entry)
    (fun _ (_ : Unit) => True) (fun any _ => any = true) (fun _ => ()) ?_ ?_).mono ?_
  · rintro entry - other - hgone
    cases hgone
    exact ⟨rfl, fun _ hy => hy⟩
  · intro entry _ F' _ hleft any g' h'
    have hbond : .bond b ∈ F' := hleft _ hb fun entry _ => by simp [Fact.bond]
    refine (h'.removeEdgeProperty hbond).bind ?_
    rintro answer g'' ⟨hanswer, h''⟩
    refine Yields.pure ⟨h'', rfl, fun _ => ?_⟩
    rw [Bool.or_eq_true, hanswer, and_true, or_comm]
  · rintro any g' ⟨h', -, hmarks⟩
    refine ⟨h'.congr (by simp only [Set.mem_singleton_iff]), ?_⟩
    have hany := hmarks ()
    simpa using hany

/-- A direct edge loses properties, and goes if it is left without any. -/
theorem removeRelation_yields {b : Bond ν} {x : FragmentEdge} (goes : Prop) [Decidable goes]
    (h : g.Shows P F) (hb : .bond b ∈ F)
    (hgoes : goes ↔ (∀ entry, .edgeProperty b entry ∈ F → entry ∈ x.properties) ∧
      ((∀ entry, entry ∉ x.properties) ∨ ∃ entry ∈ x.properties, .edgeProperty b entry ∈ F)) :
    Yields (removeRelation x (P.edge b) r) g fun r' g' =>
      g'.Shows P (if goes then {y ∈ F | ¬y.OnEdge b}
        else F \ {y | ∃ entry ∈ x.properties, y = .edgeProperty b entry}) ∧
      (r'.emptied = r.emptied ∧ r'.detached = r.detached ∧ r'.dead = r.dead ∧
        r'.touched = r.touched) := by
  unfold removeRelation
  refine (removeEdgeProperties_yields h hb).bind ?_
  rintro any g₁ ⟨h₁, hany⟩
  simp only [Std.ExtTreeSet.mem_toList] at h₁ hany
  have hbond : .bond b ∈ F \ {y | ∃ entry ∈ x.properties, y = .edgeProperty b entry} :=
    ⟨hb, by simp [Fact.bond]⟩
  refine Yields.graph_bind ?_
  have hbare : (g₁.edgePropertiesOf (P.edge b)).isEmpty ↔
      ∀ entry, .edgeProperty b entry ∈ F → entry ∈ x.properties := by
    rw [Std.ExtTreeSet.isEmpty_iff, Std.ExtTreeSet.eq_empty_iff_forall_not_mem]
    refine forall_congr' fun entry => ?_
    rw [h₁.mem_edgePropertiesOf hbond]
    simp
  have hempty : x.properties.isEmpty ↔ ∀ entry, entry ∉ x.properties := by
    rw [Std.ExtTreeSet.isEmpty_iff, Std.ExtTreeSet.eq_empty_iff_forall_not_mem]
  have hcond : ((g₁.edgePropertiesOf (P.edge b)).isEmpty && (x.properties.isEmpty || any)) ↔
      goes := by
    rw [Bool.and_eq_true, Bool.or_eq_true, hbare, hempty, hany, hgoes]
  by_cases hg : goes
  · rw [if_pos (hcond.2 hg), if_pos hg]
    refine (h₁.deleteEdge hbond).bind ?_
    rintro answer g₂ ⟨rfl, h₂⟩
    refine Yields.pure ⟨h₂.congr ?_, ?_⟩
    · ext y
      simp only [Set.mem_sdiff, Set.mem_ofPred_eq, and_assoc]
      refine and_congr_right fun _ => ⟨fun hy => hy.2, fun hy => ⟨?_, hy⟩⟩
      rintro ⟨entry, -, rfl⟩
      exact hy rfl
    · split <;> exact ⟨rfl, rfl, rfl, rfl⟩
  · rw [if_neg (mt hcond.1 hg), if_neg hg]
    refine Yields.pure ⟨h₁, ?_⟩
    split <;> exact ⟨rfl, rfl, rfl, rfl⟩

/-! ## Middle vertices -/

/-- Everything that cannot be said without a vertex goes with it. -/
theorem removeLiteralVertex_yields (h : g.Shows P F) (hp : .vertex p ∈ F) :
    Yields (removeLiteralVertex r (P.vertex p)) g fun r' g' =>
      g'.Shows P {y ∈ F | ¬y.DependsOn F p} ∧ r'.touched = r.touched ∧
        r'.released = r.released ∧ r'.dead = P.vertex p :: r.dead := by
  unfold removeLiteralVertex
  refine (Yields.read (Q := fun _ g' => g' = g) (Graph.findEdges_ok (h.vertex_mem hp)) rfl).bind ?_
  rintro edges _ rfl
  refine (h.deleteVertex hp).bind ?_
  rintro answer g' ⟨rfl, h'⟩
  exact Yields.pure ⟨h', rfl, rfl, rfl⟩

/-- The neighbours of a vertex that hold a literal of their own are at the end of one bond, or there
are none. -/
structure Owns [DecidableEq ν] (v : Vocabulary) (g : Graph) (P : Placement ν) (F : Facts ν) (m : ν)
    (owned : Option (Bond ν)) : Prop where
  bond : ∀ b, owned = some b → .bond b ∈ F ∧ b.source = m ∧ b.target ≠ m
  literal : ∀ b, .bond b ∈ F → (b.source = m ∨ b.target = m) →
    (holdsLiteral v g (P.vertex (if b.source = m then b.target else b.source)) ↔ owned = some b)

theorem Owns.list [DecidableEq ν] {v : Vocabulary} {m : ν} {owned : Option (Bond ν)}
    (ho : Owns v g P F m owned) (h : g.Shows P F) (hm : .vertex m ∈ F) :
    (((g.edgesAt (P.vertex m) none .both).map fun e => e.2.other (P.vertex m)).filter
      (· != P.vertex m)).filter (holdsLiteral v g) =
      owned.toList.map fun b => P.vertex b.target := by
  obtain ⟨bs, hnodup, hmap, hmem⟩ := h.edgesAt_eq hm none .both
  let other (b : Bond ν) : VertexId := (P.edgeOf g b).2.other (P.vertex m)
  have hother : ∀ b, .bond b ∈ F →
      other b = P.vertex (if b.source = m then b.target else b.source) := by
    intro b hb
    obtain ⟨-, hs, -⟩ := h.grounded _ hb
    have hsame : P.vertex b.source = P.vertex m ↔ b.source = m :=
      ⟨h.injective _ _ hs hm, congrArg _⟩
    simp only [other, Placement.edgeOf, Edge.other, hsame]
    split <;> rfl
  have hfiltered : bs.filter (fun b => other b != P.vertex m && holdsLiteral v g (other b)) =
      owned.toList := by
    refine eq_toList_of_nodup (hnodup.filter _) fun b => ?_
    simp only [List.mem_filter, hmem, Option.not_mem_none, false_implies, implies_true, and_true,
      Bool.and_eq_true, bne_iff_ne]
    constructor
    · rintro ⟨⟨hb, hmeets⟩, -, hholds⟩
      rw [hother b hb] at hholds
      exact (ho.literal b hb hmeets).1 hholds
    · intro howned
      obtain ⟨hb, hs, ht⟩ := ho.bond b howned
      refine ⟨⟨hb, .inl hs⟩, ?_, ?_⟩
      · rw [hother b hb, if_pos hs]
        exact fun heq => ht (h.injective _ _ (h.grounded _ hb).2.2 hm heq)
      · rw [hother b hb]
        exact (ho.literal b hb (.inl hs)).2 howned
  rw [← hmap, List.map_map, List.filter_filter, List.filter_map]
  have hpred : ((fun x => holdsLiteral v g x && (x != P.vertex m)) ∘
      (fun e : EdgeId × Edge => e.2.other (P.vertex m)) ∘ P.edgeOf g) =
      fun b => other b != P.vertex m && holdsLiteral v g (other b) := by
    funext b
    exact Bool.and_comm ..
  rw [hpred, hfiltered]
  refine List.map_congr_left fun b hb => ?_
  obtain ⟨hbond, hs, -⟩ := ho.bond b (Option.mem_toList.1 hb)
  exact (hother b hbond).trans (by rw [if_pos hs])

theorem dependsOn_rest {y : Fact ν (Bond ν)} (hy : ¬y.DependsOn F p) :
    y.DependsOn {y ∈ F | ¬y.DependsOn F p} q ↔ y.DependsOn F q := by
  cases y with
  | edgeProperty b entry =>
    constructor
    · rintro ⟨s, l, t, hb, hends⟩
      exact ⟨s, l, t, hb.1, hends⟩
    · rintro ⟨s, l, t, hb, hends⟩
      exact ⟨s, l, t, ⟨hb, fun hp => hy ⟨s, l, t, hb, hp⟩⟩, hends⟩
  | _ => exact Iff.rfl

/-- A middle vertex goes, and the literal vertex that it owns with it. -/
theorem removeMiddleVertex_yields [DecidableEq ν] {v : Vocabulary} {m : ν} {owned : Option (Bond ν)}
    (h : g.Shows P F) (hm : .vertex m ∈ F) (ho : Owns v g P F m owned) :
    Yields (removeMiddleVertex v (P.vertex m) r) g fun r' g' =>
      g'.Shows P {y ∈ F | ¬y.DependsOn F m ∧ ∀ b, owned = some b → ¬y.DependsOn F b.target} ∧
      (∀ x ∈ r.touched, x ∈ r'.touched) ∧ r'.released = r.released ∧
      ∀ x, x ∈ r'.dead ↔
        x ∈ r.dead ∨ x = P.vertex m ∨ ∃ b, owned = some b ∧ x = P.vertex b.target := by
  unfold removeMiddleVertex
  refine Yields.graph_bind ?_
  simp only [ho.list h hm]
  refine (h.deleteVertex hm).bind ?_
  rintro answer g₁ ⟨rfl, h₁⟩
  simp only [if_true, pure_bind]
  have hkept : ∀ (s : VertexSet) (xs : List VertexId), ∀ x ∈ s, x ∈ s.insertMany xs :=
    fun s xs x hx => by simp [Std.ExtTreeSet.mem_insertMany_list, hx]
  cases howned : owned with
  | none =>
    refine Yields.pure ⟨h₁.congr ?_, fun x hx => hkept _ _ x hx, rfl, fun x => ?_⟩
    · simp
    · simp only [Removal.changed, Removal.countVertex, Removal.countEdges, List.mem_cons,
        reduceCtorEq, false_and, exists_false, or_false]
      exact or_comm
  | some b =>
    obtain ⟨hb, -, hne⟩ := ho.bond b howned
    have htarget : .vertex b.target ∈ {y ∈ F | ¬y.DependsOn F m} :=
      ⟨(h.grounded _ hb).2.2, fun heq => hne heq⟩
    refine (removeLiteralVertex_yields h₁ htarget).bind ?_
    rintro r₂ g₂ ⟨h₂, htouched, hreleased, hdead⟩
    refine Yields.pure ⟨h₂.congr ?_, fun x hx => ?_, hreleased, fun x => ?_⟩
    · ext y
      simp only [Set.mem_ofPred_eq, Option.some.injEq, forall_eq', and_assoc]
      refine and_congr_right fun _ => and_congr_right fun hy => ?_
      rw [dependsOn_rest hy]
    · rw [htouched]
      exact hkept _ _ x hx
    · simp only [hdead, Removal.changed, Removal.countVertex, Removal.countEdges, List.mem_cons,
        Option.some.injEq, exists_eq_left']
      tauto

theorem recordsNothing_iff {v : Vocabulary} {m : ν} (h : g.Shows P F) (hm : .vertex m ∈ F) :
    recordsNothing v g (P.vertex m) ↔
      (∀ q, .bond ⟨m, v.contextEdgeLabel, q⟩ ∉ F) ∧ ∀ x, .property m ⟨v.contextsKey, x⟩ ∉ F := by
  obtain ⟨bs, -, hmap, hmem⟩ := h.edgesAt_eq hm (some v.contextEdgeLabel) .outgoing
  have hedges : (g.edgesAt (P.vertex m) (some v.contextEdgeLabel) .outgoing).isEmpty ↔
      ∀ q, .bond ⟨m, v.contextEdgeLabel, q⟩ ∉ F := by
    rw [← hmap, List.isEmpty_iff, List.map_eq_nil_iff, List.eq_nil_iff_forall_not_mem]
    constructor
    · intro hnone q hq
      exact hnone _ ((hmem ⟨m, v.contextEdgeLabel, q⟩).2 ⟨hq, rfl, by simp⟩)
    · rintro hnone ⟨s, l, q⟩ hb
      obtain ⟨hb, rfl, hl⟩ := (hmem _).1 hb
      simp only [Option.mem_def, Option.some.injEq, forall_eq'] at hl
      exact hnone q (hl ▸ hb)
  have hproperties : ((g.propertiesOf (P.vertex m)).values v.contextsKey).isEmpty ↔
      ∀ x, .property m ⟨v.contextsKey, x⟩ ∉ F := by
    rw [List.isEmpty_iff, List.eq_nil_iff_forall_not_mem]
    simp only [EntrySet.mem_values, h.mem_propertiesOf hm]
  rw [recordsNothing, Bool.and_eq_true, hedges, hproperties]

theorem namesContexts_iff {v : Vocabulary} :
    f.namesContexts v i n ↔ (∃ x ∈ f.edges, x.kind = .context ∧ i = x.source) ∨
      ∃ value, ⟨v.contextsKey, value⟩ ∈ n.properties := by
  have hvalues : (!(n.properties.values v.contextsKey).isEmpty) ↔
      ∃ value, ⟨v.contextsKey, value⟩ ∈ n.properties := by
    rw [Bool.not_eq_true', ← Bool.not_eq_true, List.isEmpty_iff, List.eq_nil_iff_forall_not_mem]
    simp only [EntrySet.mem_values, not_forall, not_not]
  rw [namesContexts, Bool.or_eq_true, hvalues, List.any_eq_true]
  simp only [Bool.and_eq_true, beq_iff_eq, @eq_comm _ i]

theorem removeMiddle_skip {v : Vocabulary} (hn : n.hasTag .middle = false) :
    (f.removeMiddle v a r i n : GraphM Transaction Removal) = pure r := by
  simp [removeMiddle, hn]

/-- A middle vertex that records nothing goes, unless the fragment names graphs and took none of
them out. -/
theorem removeMiddle_yields [DecidableEq ν] {v : Vocabulary} {m : ν} {owned : Option (Bond ν)}
    (goes : Prop) [Decidable goes] (h : g.Shows P F) (hm : .vertex m ∈ F)
    (ho : Owns v g P F m owned) (hn : n.hasTag .middle) (ha : a[i]? = some (P.vertex m))
    (hgoes : goes ↔ ((∀ q, .bond ⟨m, v.contextEdgeLabel, q⟩ ∉ F) ∧
      ∀ x, .property m ⟨v.contextsKey, x⟩ ∉ F) ∧
      (f.namesContexts v i n = false ∨ i ∈ r.detached ∨ (i, v.contextsKey) ∈ r.emptied)) :
    Yields (f.removeMiddle v a r i n) g fun r' g' =>
      g'.Shows P (if goes then
        {y ∈ F | ¬y.DependsOn F m ∧ ∀ b, owned = some b → ¬y.DependsOn F b.target} else F) ∧
      (∀ x ∈ r.touched, x ∈ r'.touched) ∧ r'.released = r.released ∧
      ∀ x, x ∈ r'.dead ↔ x ∈ r.dead ∨ (goes ∧ (x = P.vertex m ∨
        ∃ b, owned = some b ∧ x = P.vertex b.target)) := by
  obtain ⟨data, hok, -⟩ := Graph.vertex_ok (h.vertex_mem hm)
  have hread : Yields (GraphM.read (·.vertex (P.vertex m))) g fun _ g' => g = g' :=
    Yields.read hok rfl
  unfold removeMiddle
  rw [if_pos hn, ha]
  refine hread.bind ?_
  rintro data _ rfl
  refine Yields.graph_bind ?_
  have hcond : (recordsNothing v g (P.vertex m) &&
      (!f.namesContexts v i n || (r.detached.contains i || r.emptied.contains (i, v.contextsKey)))) ↔
      goes := by
    rw [Bool.and_eq_true, Bool.or_eq_true, Bool.or_eq_true, recordsNothing_iff h hm,
      Bool.not_eq_true', List.contains_iff_mem, List.contains_iff_mem, hgoes]
  by_cases hg : goes
  · rw [if_pos (hcond.2 hg), if_pos hg]
    refine (removeMiddleVertex_yields h hm ho).mono fun r' g' => ?_
    rintro ⟨h', htouched, hreleased, hdead⟩
    exact ⟨h', htouched, hreleased, fun x => by rw [hdead, and_iff_right hg]⟩
  · rw [if_neg (mt hcond.1 hg), if_neg hg]
    exact Yields.pure ⟨h, fun x hx => hx, rfl, fun x => by simp [hg]⟩

/-! ## All of it -/

/-- What a removal does before it drops index entries. -/
def clear {σ : Type} [GraphAccess σ] (f : Fragment) (v : Vocabulary) (a : Assignment)
    (r : Removal) : GraphM σ Removal := do
  let r ← f.removeContents a r
  let r ← f.edges.foldlM (removeEdge a) r
  f.nodes.zipIdx.foldlM (fun r (n, i) => f.removeMiddle v a r i n) r

/-- The vertices of the keyed nodes, which may have nothing left to stand for. -/
def keyedVertices (f : Fragment) (a : Assignment) : List VertexId :=
  (f.nodes.zipIdx.filter (·.1.isKeyed)).filterMap fun n => a[n.2]?

theorem removeAssigned_eq {v : Vocabulary} :
    (f.removeAssigned v a : GraphM Transaction (RemovalReport × List TextChange)) = (do
      let r ← f.clear v a { touched := Std.ExtTreeSet.ofList (f.keyedVertices a) }
      f.nodes.zipIdx.forM fun (n, i) => releaseIndex a r i n
      let r' ← r.touched.toList.foldlM (collect v) r
      return (r'.report, f.removedTexts a r)) := by
  simp only [removeAssigned, clear, keyedVertices, bind_assoc]

end Fragment

end QuadStore
