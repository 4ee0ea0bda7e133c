import Mathlib
import QuadStore.Proofs.Graph.Growing
import QuadStore.Proofs.Graph.Showing
/-!
# Writing to a graph that shows facts

A graph that gains facts shows them too. A mutation that takes something out of a vertex or an edge
that stands for a name takes some facts out, and the graph goes on showing the rest.
-/

namespace QuadStore

namespace Graph

variable {ν : Type} {g g' : Graph} {P : Placement ν} {F X : Facts ν} {p q : ν} {entry : Entry}
  {b : Bond ν} {f : Fact ν (Bond ν)} {vertices edges : Nat}

namespace Shows

/-! ## Sets of facts -/

/-- A placement may be changed where the facts do not speak of it. -/
theorem extend {P' : Placement ν} (h : g.Shows P F) (hP : P'.Extends P F) : g.Shows P' F where
  wellFormed := h.wellFormed
  grounded := h.grounded
  injective p q hp hq heq := by
    rw [hP.vertex p hp, hP.vertex q hq] at heq
    exact h.injective p q hp hq heq
  facts := by
    rw [h.facts]
    exact Set.image_congr fun f hf => (hP.map_eq hf (h.grounded f hf)).symm

/-- A graph that gained facts shows them too, if the vertices among them are told apart. -/
theorem gains_of_injective (h : g.Shows P F)
    (hgains : g.Gains (Fact.map P '' X) vertices edges g') (hX : ∀ f ∈ X, f.Grounded (F ∪ X))
    (hinjective : ∀ p q, .vertex p ∈ F ∪ X → .vertex q ∈ F ∪ X → P.vertex p = P.vertex q → p = q) :
    g'.Shows P (F ∪ X) where
  wellFormed := hgains.wellFormed
  grounded := by
    rintro f (hf | hf)
    · exact (h.grounded f hf).mono Set.subset_union_left
    · exact hX f hf
  injective := hinjective
  facts := by rw [hgains.facts, h.facts, Set.image_union]

/-- Facts about vertices that are there. -/
theorem gains (h : g.Shows P F) (hgains : g.Gains (Fact.map P '' X) vertices edges g')
    (hX : ∀ f ∈ X, f.Grounded (F ∪ X)) (hvertex : ∀ p, .vertex p ∈ X → .vertex p ∈ F) :
    g'.Shows P (F ∪ X) :=
  h.gains_of_injective hgains hX fun p q hp hq =>
    h.injective p q (hp.elim id (hvertex p)) (hq.elim id (hvertex q))

/-- Facts about a vertex that is new. -/
theorem gains_vertex (h : g.Shows P F) (hgains : g.Gains (Fact.map P '' X) vertices edges g')
    (hX : ∀ f ∈ X, f.Grounded (F ∪ X)) (hnew : P.vertex p ∉ g.vertices)
    (hvertex : ∀ q, .vertex q ∈ X → q = p) : g'.Shows P (F ∪ X) := by
  have hother : ∀ q, .vertex q ∈ F → P.vertex q ≠ P.vertex p := fun q hq heq =>
    hnew (heq ▸ h.vertex_mem hq)
  refine h.gains_of_injective hgains hX ?_
  rintro q r (hq | hq) (hr | hr) heq
  · exact h.injective q r hq hr heq
  · exact absurd (hvertex r hr ▸ heq) (hother q hq)
  · exact absurd (hvertex q hq ▸ heq).symm (hother r hr)
  · rw [hvertex q hq, hvertex r hr]

theorem filter (h : g.Shows P F) {keep : Fact ν (Bond ν) → Prop}
    {keep' : Fact VertexId EdgeId → Prop} (hwf : g'.WellFormed)
    (hfacts : g'.facts = {f ∈ g.facts | keep' f}) (hkeep : ∀ f ∈ F, keep' (f.map P) ↔ keep f)
    (hgrounded : ∀ f ∈ F, keep f → f.Grounded {f ∈ F | keep f}) :
    g'.Shows P {f ∈ F | keep f} where
  wellFormed := hwf
  grounded f hf := hgrounded f hf.1 hf.2
  injective p q hp hq := h.injective p q hp.1 hq.1
  facts := by
    rw [hfacts, h.facts]
    ext f'
    constructor
    · rintro ⟨⟨f, hf, rfl⟩, hf'⟩
      exact ⟨f, ⟨hf, (hkeep f hf).1 hf'⟩, rfl⟩
    · rintro ⟨f, ⟨hf, hf'⟩, rfl⟩
      exact ⟨⟨f, hf, rfl⟩, (hkeep f hf).2 hf'⟩

/-- Taking out a fact that no other fact rests on. -/
theorem erase (h : g.Shows P F) (hwf : g'.WellFormed) (hfacts : g'.facts = g.facts \ {f.map P})
    (hf : f.Grounded F) (hvertex : ∀ p, f ≠ .vertex p) (hedge : ∀ b, f ≠ .bond b) :
    g'.Shows P (F \ {f}) := by
  change g'.Shows P {f' ∈ F | f' ∉ ({f} : Set (Fact ν (Bond ν)))}
  refine h.filter hwf hfacts (fun f' hf' => ?_) fun f' hf' hne => ?_
  · simp only [Set.mem_singleton_iff, not_iff_not]
    refine ⟨fun heq => ?_, fun heq => congrArg _ heq⟩
    exact h.map_injective (h.grounded f' hf') hf (fun p hp => hp ▸ hf')
      (fun p hp => absurd hp (hvertex p)) heq
  · have hground := h.grounded f' hf'
    cases f' with
    | vertex p => trivial
    | property p _ | key p _ | indexed p _ => exact ⟨hground, fun heq => hvertex p heq.symm⟩
    | edge b s l t =>
      exact ⟨hground.1, ⟨hground.2.1, fun heq => hvertex s heq.symm⟩,
        ⟨hground.2.2, fun heq => hvertex t heq.symm⟩⟩
    | edgeProperty b _ => exact ⟨hground, fun heq => hedge b heq.symm⟩

theorem congr {F' : Facts ν} (h : g.Shows P F) (hF : F = F') : g.Shows P F' := hF ▸ h

theorem erase_self (h : g.Shows P F) (hf : f ∉ F) : g.Shows P (F \ {f}) :=
  h.congr (Set.sdiff_singleton_eq_self hf).symm

/-! ## Properties -/

theorem removeProperty (h : g.Shows P F) (hp : .vertex p ∈ F) :
    Yields (GraphM.perform (.removeProperty (P.vertex p) entry)) g
      fun (a : Bool) g' => (a ↔ .property p entry ∈ F) ∧ g'.Shows P (F \ {.property p entry}) := by
  have hv := h.vertex_mem hp
  have hmem : entry ∈ g.propertiesOf (P.vertex p) ↔ .property p entry ∈ F := h.mem_propertiesOf hp
  by_cases hold : entry ∈ g.propertiesOf (P.vertex p)
  · have hperforms : g.Performs (.removeProperty (P.vertex p) entry) .. := .removeProperty hv hold
    exact Yields.perform hperforms ⟨by simpa using hmem.1 hold, h.erase
      (hperforms.wellFormed h.wellFormed) facts_propertyRemoved hp (by simp) (by simp [Fact.bond])⟩
  · exact Yields.perform (.removeProperty_gone hv hold) ⟨by simpa using mt hmem.2 hold,
      h.erase_self (mt hmem.2 hold)⟩

theorem removeEdgeProperty (h : g.Shows P F) (hb : .bond b ∈ F) :
    Yields (GraphM.perform (.removeEdgeProperty (P.edge b) entry)) g
      fun (a : Bool) g' =>
        (a ↔ .edgeProperty b entry ∈ F) ∧ g'.Shows P (F \ {.edgeProperty b entry}) := by
  obtain ⟨x, hx, -⟩ := h.edge_of_bond hb
  have he := mem_of_getElem?_eq hx
  have hmem : entry ∈ g.edgePropertiesOf (P.edge b) ↔ .edgeProperty b entry ∈ F :=
    h.mem_edgePropertiesOf hb
  by_cases hold : entry ∈ g.edgePropertiesOf (P.edge b)
  · have hperforms : g.Performs (.removeEdgeProperty (P.edge b) entry) .. :=
      .removeEdgeProperty he hold
    exact Yields.perform hperforms ⟨by simpa using hmem.1 hold, h.erase
      (hperforms.wellFormed h.wellFormed) facts_edgePropertyRemoved hb (by simp)
      (by simp [Fact.bond])⟩
  · exact Yields.perform (.removeEdgeProperty_gone he hold) ⟨by simpa using mt hmem.2 hold,
      h.erase_self (mt hmem.2 hold)⟩

/-! ## Indexes -/

theorem unindexVertex (h : g.Shows P F) (hp : .vertex p ∈ F) :
    Yields (GraphM.perform (.unindexVertex (P.vertex p) entry)) g
      fun _ g' => g'.Shows P (F \ {.indexed p entry}) := by
  have hmem : P.vertex p ∈ g.lookupValue entry ↔ .indexed p entry ∈ F := by
    rw [h.wellFormed.lookupValue, h.mem_indexedOf hp]
  by_cases hold : P.vertex p ∈ g.lookupValue entry
  · have hperforms : g.Performs (.unindexVertex (P.vertex p) entry) .. := .unindexVertex hold
    exact Yields.perform hperforms (h.erase (hperforms.wellFormed h.wellFormed)
      facts_valueUnindexed hp (by simp) (by simp [Fact.bond]))
  · exact Yields.perform (.unindexVertex_gone hold) (h.erase_self (mt hmem.2 hold))

/-! ## Deletion -/

theorem map_onEdge (h : g.Shows P F) (hb : .bond b ∈ F) (hf : f ∈ F) :
    (f.map P).OnEdge (P.edge b) ↔ f.OnEdge b := by
  have hground := h.grounded f hf
  cases f with
  | edge c s l t =>
    obtain ⟨rfl, -, -⟩ := hground
    exact ⟨h.edge_injective hf hb, congrArg _⟩
  | edgeProperty c entry => exact ⟨h.edge_injective hground hb, congrArg _⟩
  | _ => exact Iff.rfl

theorem deleteEdge (h : g.Shows P F) (hb : .bond b ∈ F) :
    Yields (GraphM.perform (.deleteEdge (P.edge b))) g
      fun (a : Bool) g' => a ∧ g'.Shows P {f ∈ F | ¬f.OnEdge b} := by
  obtain ⟨x, hx, -⟩ := h.edge_of_bond hb
  have hperforms : g.Performs (.deleteEdge (P.edge b)) .. := .deleteEdge hx
  refine Yields.perform hperforms ⟨rfl, h.filter (hperforms.wellFormed h.wellFormed)
    (facts_edgeRemoved (x := x)) (fun f hf => not_congr (h.map_onEdge hb hf)) fun f hf hkeep => ?_⟩
  have hground := h.grounded f hf
  cases f with
  | vertex p => trivial
  | property p _ | key p _ | indexed p _ => exact ⟨hground, id⟩
  | edge c s l t => exact ⟨hground.1, ⟨hground.2.1, id⟩, hground.2.2, id⟩
  | edgeProperty c entry => exact ⟨hground, hkeep⟩

theorem map_dependsOn (h : g.Shows P F) (hp : .vertex p ∈ F) (hf : f ∈ F) :
    (f.map P).DependsOn g.facts (P.vertex p) ↔ f.DependsOn F p := by
  have hplace : ∀ q, .vertex q ∈ F → (P.vertex q = P.vertex p ↔ q = p) := fun q hq =>
    ⟨h.injective q p hq hp, congrArg _⟩
  have hground := h.grounded f hf
  cases f with
  | vertex q => exact hplace q hf
  | property q _ | key q _ | indexed q _ => exact hplace q hground
  | edge c s l t => exact or_congr (hplace s hground.2.1) (hplace t hground.2.2)
  | edgeProperty c entry =>
    constructor
    · rintro ⟨s, l, t, hedge, hends⟩
      obtain ⟨x, hx, rfl, rfl, rfl⟩ := edge_mem_facts.1 hedge
      obtain ⟨c', hc', heq, hs, hl, ht⟩ := h.bond_of_edge hx
      obtain rfl := h.edge_injective hc' hground heq
      obtain ⟨-, hsource, htarget⟩ := h.grounded _ hc'
      rw [← hs, ← ht, hplace _ hsource, hplace _ htarget] at hends
      exact ⟨_, _, _, hc', hends⟩
    · rintro ⟨s, l, t, hedge, hends⟩
      exact ⟨_, _, _, h.map_mem hedge, hends.imp (congrArg _) (congrArg _)⟩

theorem deleteVertex (h : g.Shows P F) (hp : .vertex p ∈ F) :
    Yields (GraphM.perform (.deleteVertex (P.vertex p))) g
      fun (a : Bool) g' => a ∧ g'.Shows P {f ∈ F | ¬f.DependsOn F p} := by
  have hx := Std.ExtTreeMap.getElem?_eq_some_getElem (h.vertex_mem hp)
  have hperforms : g.Performs (.deleteVertex (P.vertex p)) .. := .deleteVertex hx
  refine Yields.perform hperforms ⟨rfl, h.filter (hperforms.wellFormed h.wellFormed)
    (facts_deletion h.wellFormed hx) (fun f hf => not_congr (h.map_dependsOn hp hf))
    fun f hf hkeep => ?_⟩
  have hground := h.grounded f hf
  cases f with
  | vertex q => trivial
  | property q _ | key q _ | indexed q _ => exact ⟨hground, hkeep⟩
  | edge c s l t =>
    obtain ⟨rfl, hs, ht⟩ := hground
    exact ⟨rfl, ⟨hs, fun heq => hkeep (.inl heq)⟩, ht, fun heq => hkeep (.inr heq)⟩
  | edgeProperty c entry => exact ⟨hground, fun hends => hkeep ⟨_, _, _, hground, hends⟩⟩

/-! ## Loops -/

/-- A loop adds what its steps add. -/
theorem forM {α : Type} (h : g.Shows P F) {items : List α} {step : α → GraphM Transaction Unit}
    {added : α → Facts ν}
    (hstep : ∀ a ∈ items, ∀ F' g', F ⊆ F' → g'.Shows P F' →
      Yields (step a) g' fun _ g'' => g''.Shows P (F' ∪ added a)) :
    Yields (items.forM step) g fun _ g' => g'.Shows P (F ∪ {f | ∃ a ∈ items, f ∈ added a}) := by
  induction items generalizing g F with
  | nil => exact Yields.pure (h.congr (by simp))
  | cons a rest ih =>
    refine (hstep a (List.mem_cons_self ..) F g subset_rfl h).bind fun _ g' h' => ?_
    refine (ih h' fun b hb F' g'' hF => hstep b (List.mem_cons_of_mem _ hb) F' g''
      (Set.subset_union_left.trans hF)).mono fun _ g'' h'' => h''.congr ?_
    ext f
    simp [or_assoc]

/-- What is found before a step is found by the step or after it, if the step finds what it takes
out. -/
theorem found_cons {α γ : Type} {gone : α → Facts ν} {found : α → Fact ν (Bond ν)}
    {tag : α → γ → Prop} {a : α} {rest : List α} {y : γ}
    (hfound : ∀ c ∈ rest, found c ∈ gone a → found a = found c ∧ ∀ y, tag c y → tag a y) :
    ((found a ∈ F ∧ tag a y) ∨ ∃ c ∈ rest, found c ∈ F \ gone a ∧ tag c y) ↔
      ∃ c ∈ a :: rest, found c ∈ F ∧ tag c y := by
  constructor
  · rintro (⟨hin, hy⟩ | ⟨c, hc, hin, hy⟩)
    · exact ⟨a, List.mem_cons_self .., hin, hy⟩
    · exact ⟨c, List.mem_cons_of_mem _ hc, hin.1, hy⟩
  · rintro ⟨c, hc, hin, hy⟩
    obtain rfl | hc := List.mem_cons.1 hc
    · exact .inl ⟨hin, hy⟩
    · by_cases hgone : found c ∈ gone a
      · obtain ⟨hsame, htag⟩ := hfound c hc hgone
        exact .inl ⟨hsame ▸ hin, htag y hy⟩
      · exact .inr ⟨c, hc, ⟨hin, hgone⟩, hy⟩

/-- A loop takes out what its steps take out, and leaves a mark for every step that found something.
The rest of what it carries stays. -/
theorem foldlM_remove {α β γ κ : Type} (h : g.Shows P F) {items : List α}
    {step : β → α → GraphM Transaction β} {b : β} (gone : α → Facts ν)
    (found : α → Fact ν (Bond ν)) (tag : α → γ → Prop) (marks : β → γ → Prop) (keep : β → κ)
    (hfound : ∀ a ∈ items, ∀ a' ∈ items, found a ∈ gone a' →
      found a' = found a ∧ ∀ y, tag a y → tag a' y)
    (hstep : ∀ a ∈ items, ∀ F₁ ⊆ F, (∀ x ∈ F, (∀ a ∈ items, x ∉ gone a) → x ∈ F₁) → ∀ b g',
      g'.Shows P F₁ → Yields (step b a) g' fun b' g'' => g''.Shows P (F₁ \ gone a) ∧
        keep b' = keep b ∧ ∀ y, marks b' y ↔ marks b y ∨ (found a ∈ F₁ ∧ tag a y)) :
    Yields (items.foldlM step b) g fun b' g' =>
      g'.Shows P (F \ {x | ∃ a ∈ items, x ∈ gone a}) ∧ keep b' = keep b ∧
        ∀ y, marks b' y ↔ marks b y ∨ ∃ a ∈ items, found a ∈ F ∧ tag a y := by
  let I (rest : List α) (b' : β) (g' : Graph) : Prop :=
    ∃ F₁ ⊆ F, g'.Shows P F₁ ∧ (∀ a ∈ rest, a ∈ items) ∧
      F₁ \ {x | ∃ a ∈ rest, x ∈ gone a} = F \ {x | ∃ a ∈ items, x ∈ gone a} ∧ keep b' = keep b ∧
      ∀ y, (marks b' y ∨ ∃ a ∈ rest, found a ∈ F₁ ∧ tag a y) ↔
        marks b y ∨ ∃ a ∈ items, found a ∈ F ∧ tag a y
  have hstart : I items b g := ⟨F, subset_rfl, h, fun _ ha => ha, rfl, rfl, fun _ => Iff.rfl⟩
  refine (Yields.foldlM (I := I) ?_ hstart).mono ?_
  · rintro a ha rest b' g' ⟨F₁, hF₁, h', hrest, htotal, hkeep, hmarks⟩
    have hleft : ∀ x ∈ F, (∀ a ∈ items, x ∉ gone a) → x ∈ F₁ := fun x hx hnot => by
      have hmem : x ∈ F \ {x | ∃ a ∈ items, x ∈ gone a} :=
        ⟨hx, fun ⟨a, ha, hgone⟩ => hnot a ha hgone⟩
      rw [← htotal] at hmem
      exact hmem.1
    refine (hstep a ha F₁ hF₁ hleft b' g' h').mono ?_
    rintro b'' g'' ⟨h'', hkeep', hmarks'⟩
    refine ⟨F₁ \ gone a, Set.sdiff_subset.trans hF₁, h'',
      fun c hc => hrest c (List.mem_cons_of_mem _ hc), ?_, hkeep'.trans hkeep, fun y => ?_⟩
    · rw [← htotal]
      ext x
      simp only [Set.mem_sdiff, Set.mem_ofPred_eq, List.mem_cons, exists_eq_or_imp, not_or, and_assoc]
    · rw [← hmarks y, hmarks' y, or_assoc, found_cons fun c hc hgone =>
        hfound c (hrest c (List.mem_cons_of_mem _ hc)) a ha hgone]
  · rintro b' g' ⟨F₁, -, h', -, htotal, hkeep, hmarks⟩
    refine ⟨h'.congr ?_, hkeep, fun y => ?_⟩
    · rw [← htotal]
      simp
    · rw [← hmarks y]
      simp

end Shows

end Graph

end QuadStore
