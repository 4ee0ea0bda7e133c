import Mathlib
/-!
# Steps in sequence

Where steps succeed, the steps after them go on from the state that is left; where they fail, so
does the sequence.
-/

namespace QuadStore

variable {ε σ α β γ : Type} {x : EStateM ε σ α} {s s' : σ} {a : α} {cause : ε}

theorem run_bind_ok {next : α → EStateM ε σ β} (h : x s = .ok a s') :
    (x >>= next) s = next a s' := by
  change EStateM.bind x next s = _
  rw [EStateM.bind, h]

theorem run_bind_error {next : α → EStateM ε σ β} (h : x s = .error cause s') :
    (x >>= next) s = .error cause s' := by
  change EStateM.bind x next s = _
  rw [EStateM.bind, h]

theorem run_map_ok {f : α → β} (h : x s = .ok a s') : (f <$> x) s = .ok (f a) s' := by
  change EStateM.map f x s = _
  rw [EStateM.map, h]

theorem run_map_error {f : α → β} (h : x s = .error cause s') : (f <$> x) s = .error cause s' := by
  change EStateM.map f x s = _
  rw [EStateM.map, h]

/-- A sequence that succeeds does so in two parts. -/
theorem run_bind_eq_ok {next : α → EStateM ε σ β} {b : β} {s'' : σ} :
    (x >>= next) s = .ok b s'' ↔ ∃ a s', x s = .ok a s' ∧ next a s' = .ok b s'' := by
  cases h : x s with
  | ok a s' => simp [run_bind_ok h]
  | error cause s' => simp [run_bind_error h]

/-- A loop goes through if each of its steps does, and what is known of the state follows the items.
-/
theorem run_foldlM_ok {step : β → α → EStateM ε σ β} {next : γ → α → γ} {I : γ → σ → Prop}
    (hstep : ∀ b a c s, I c s → ∃ b' s', step b a s = .ok b' s' ∧ I (next c a) s')
    (items : List α) (b : β) {c : γ} (h : I c s) :
    ∃ b' s', items.foldlM step b s = .ok b' s' ∧ I (items.foldl next c) s' := by
  induction items generalizing s b c with
  | nil => exact ⟨b, s, rfl, h⟩
  | cons a rest ih =>
    obtain ⟨b₁, s₁, hfirst, h₁⟩ := hstep b a c s h
    obtain ⟨b₂, s₂, hrest, h₂⟩ := ih b₁ h₁
    exact ⟨b₂, s₂, (run_bind_ok hfirst).trans hrest, h₂⟩

end QuadStore
