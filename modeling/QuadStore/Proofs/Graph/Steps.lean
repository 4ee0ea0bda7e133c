import Mathlib
import QuadStore.Proofs.Graph.Facts
import QuadStore.Proofs.Sequence
/-!
# Steps on a graph

What steps in a transaction answer and leave behind, told by the graph alone. Steps that yield
something succeed on the graph they are told of; steps that ensure something may fail there.
-/

namespace QuadStore

variable {α β γ : Type} {g : Graph}

/-- The steps succeed on the graph, and `Q` holds of what they answer and of the graph they leave.
-/
def Yields (steps : GraphM Transaction α) (g : Graph) (Q : α → Graph → Prop) : Prop :=
  ∀ t : Transaction, t.graph = g → ∃ a t', steps t = .ok a t' ∧ Q a t'.graph

namespace Yields

theorem pure {a : α} {Q : α → Graph → Prop} (h : Q a g) : Yields (Pure.pure a) g Q := by
  rintro t rfl
  exact ⟨a, t, rfl, h⟩

theorem mono {steps : GraphM Transaction α} {Q R : α → Graph → Prop} (h : Yields steps g Q)
    (himp : ∀ a g', Q a g' → R a g') : Yields steps g R := by
  intro t ht
  obtain ⟨a, t', hrun, hq⟩ := h t ht
  exact ⟨a, t', hrun, himp a t'.graph hq⟩

theorem bind {steps : GraphM Transaction α} {next : α → GraphM Transaction β}
    {Q : α → Graph → Prop} {R : β → Graph → Prop} (h : Yields steps g Q)
    (hnext : ∀ a g', Q a g' → Yields (next a) g' R) : Yields (steps >>= next) g R := by
  intro t ht
  obtain ⟨a, t', hrun, hq⟩ := h t ht
  obtain ⟨b, t'', hrun', hr⟩ := hnext a t'.graph hq t' rfl
  exact ⟨b, t'', (run_bind_ok hrun).trans hrun', hr⟩

/-- Steps that look at the graph first. -/
theorem graph_bind {next : Graph → GraphM Transaction β} {R : β → Graph → Prop}
    (h : Yields (next g) g R) : Yields (GraphM.graph >>= next) g R := by
  rintro t rfl
  exact h t rfl

theorem read {f : Graph → Except GraphError α} {a : α} {Q : α → Graph → Prop} (hf : f g = .ok a)
    (h : Q a g) : Yields (GraphM.read f) g Q := by
  rintro t rfl
  refine ⟨a, t, ?_, h⟩
  have hread : f (GraphAccess.graph t) = .ok a := hf
  simp only [GraphM.read, hread]

/-- A mutation yields what one of the ways it can go says. -/
theorem perform {m : Mutation} {a : m.Answer} {cs : List Change} {Q : m.Answer → Graph → Prop}
    (hperforms : g.Performs m a cs) (h : Q a (g.applyAll cs)) :
    Yields (GraphM.perform m) g Q := by
  rintro t rfl
  refine ⟨a, t.record cs, ?_, h⟩
  have hperform : GraphAccess.perform m t = .ok (a, t.record cs) := by
    simp only [GraphAccess.perform, Transaction.perform, hperforms.effect_eq]
    rfl
  simp only [GraphM.perform, hperform]

/-- A loop keeps an invariant that speaks of the items to come. -/
theorem forM {step : α → GraphM Transaction Unit} {I : List α → Graph → Prop} {items : List α}
    (hstep : ∀ a ∈ items, ∀ rest g', I (a :: rest) g' → Yields (step a) g' fun _ => I rest)
    (h : I items g) : Yields (items.forM step) g fun _ => I [] := by
  induction items generalizing g with
  | nil => exact pure h
  | cons a rest ih =>
    refine (hstep a (List.mem_cons_self ..) rest g h).bind fun _ g' h' => ?_
    exact ih (fun b hb => hstep b (List.mem_cons_of_mem _ hb)) h'

theorem foldlM {step : β → α → GraphM Transaction β} {I : List α → β → Graph → Prop}
    {items : List α} {b : β}
    (hstep : ∀ a ∈ items, ∀ rest b g', I (a :: rest) b g' → Yields (step b a) g' (I rest))
    (h : I items b g) : Yields (items.foldlM step b) g (I []) := by
  induction items generalizing g b with
  | nil => exact pure h
  | cons a rest ih =>
    rw [List.foldlM_cons]
    refine (hstep a (List.mem_cons_self ..) rest b g h).bind fun _ g' h' => ?_
    exact ih (fun c hc => hstep c (List.mem_cons_of_mem _ hc)) h'

end Yields

/-! ## What steps leave if they succeed -/

/-- If the steps succeed on the graph, `Q` holds of what they answer and of the graph they leave. -/
def Ensures (steps : GraphM Transaction α) (g : Graph) (Q : α → Graph → Prop) : Prop :=
  ∀ t a t', t.graph = g → steps t = .ok a t' → Q a t'.graph

namespace Ensures

variable {Q R : α → Graph → Prop}

theorem pure {a : α} (h : Q a g) : Ensures (Pure.pure a) g Q := by
  rintro t b t' rfl hrun
  cases hrun
  exact h

theorem mono {steps : GraphM Transaction α} (h : Ensures steps g Q)
    (himp : ∀ a g', Q a g' → R a g') : Ensures steps g R :=
  fun t a t' ht hrun => himp a t'.graph (h t a t' ht hrun)

theorem bind {steps : GraphM Transaction α} {next : α → GraphM Transaction β}
    {R : β → Graph → Prop} (h : Ensures steps g Q)
    (hnext : ∀ a g', Q a g' → Ensures (next a) g' R) : Ensures (steps >>= next) g R := by
  intro t b t'' ht hrun
  obtain ⟨a, t', hsteps, hrun⟩ := run_bind_eq_ok.1 hrun
  exact hnext a t'.graph (h t a t' ht hsteps) t' b t'' rfl hrun

theorem graph_bind {next : Graph → GraphM Transaction β} {R : β → Graph → Prop}
    (h : Ensures (next g) g R) : Ensures (GraphM.graph >>= next) g R := by
  rintro t b t' rfl hrun
  exact h t b t' rfl hrun

theorem read {f : Graph → Except GraphError α} (h : ∀ a, f g = .ok a → Q a g) :
    Ensures (GraphM.read f) g Q := by
  rintro t a t' rfl hrun
  simp only [GraphM.read] at hrun
  split at hrun
  · rename_i b hb
    cases hrun
    exact h a hb
  · cases hrun

theorem perform {m : Mutation} {Q : m.Answer → Graph → Prop}
    (h : ∀ a cs, g.Performs m a cs → Q a (g.applyAll cs)) :
    Ensures (GraphM.perform m) g Q := by
  rintro t a t' rfl hrun
  simp only [GraphM.perform, GraphAccess.perform, Transaction.perform] at hrun
  cases heffect : t.graph.effect m with
  | error cause =>
    rw [heffect] at hrun
    cases hrun
  | ok x =>
    rw [heffect] at hrun
    cases hrun
    exact h _ _ (Graph.effect_eq_ok.1 heffect)

theorem foldlM {step : β → α → GraphM Transaction β} {I : β → Graph → Prop} {items : List α} {b : β}
    (hstep : ∀ a ∈ items, ∀ b g', I b g' → Ensures (step b a) g' I) (h : I b g) :
    Ensures (items.foldlM step b) g I := by
  induction items generalizing g b with
  | nil => exact pure h
  | cons a rest ih =>
    rw [List.foldlM_cons]
    refine (hstep a (List.mem_cons_self ..) b g h).bind fun b' g' h' => ?_
    exact ih (fun c hc => hstep c (List.mem_cons_of_mem _ hc)) h'

theorem forM {step : α → GraphM Transaction Unit} {I : Graph → Prop} {items : List α}
    (hstep : ∀ a ∈ items, ∀ g', I g' → Ensures (step a) g' fun _ => I) (h : I g) :
    Ensures (items.forM step) g fun _ => I := by
  induction items generalizing g with
  | nil => exact pure h
  | cons a rest ih =>
    refine (hstep a (List.mem_cons_self ..) g h).bind fun _ g' h' => ?_
    exact ih (fun c hc => hstep c (List.mem_cons_of_mem _ hc)) h'

end Ensures

/-- Steps that succeed leave what they leave if they succeed. -/
theorem Yields.and_ensures {steps : GraphM Transaction α} {Q R : α → Graph → Prop}
    (h : Yields steps g Q) (h' : Ensures steps g R) :
    Yields steps g fun a g' => Q a g' ∧ R a g' := by
  intro t ht
  obtain ⟨a, t', hrun, hq⟩ := h t ht
  exact ⟨a, t', hrun, hq, h' t a t' ht hrun⟩

end QuadStore
