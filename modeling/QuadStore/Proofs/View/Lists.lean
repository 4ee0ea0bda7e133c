import Mathlib
import QuadStore.Proofs.Graph.Showing
import QuadStore.View
/-!
# Readings that list

What a reading lists, told by membership. A reading that lists something succeeds, and may list it
more than once.
-/

namespace QuadStore

variable {α β γ : Type}

/-- The reading succeeds and lists what has the property, and nothing else. -/
def Lists (reading : Except Error (List α)) (Q : α → Prop) : Prop :=
  ∃ ys, reading = .ok ys ∧ ∀ y, y ∈ ys ↔ Q y

theorem ok_bind {a : α} {next : α → Except Error β} : (Except.ok a >>= next) = next a := rfl

namespace Lists

variable {Q Q' : α → Prop}

theorem nil (h : ∀ y, ¬Q y) : Lists (.ok []) Q :=
  ⟨[], rfl, fun y => iff_of_false (List.not_mem_nil) (h y)⟩

theorem congr {reading : Except Error (List α)} (h : Lists reading Q) (hQ : ∀ y, Q y ↔ Q' y) :
    Lists reading Q' := by
  obtain ⟨ys, hys, hmem⟩ := h
  exact ⟨ys, hys, fun y => (hmem y).trans (hQ y)⟩

theorem option {o : Option α} (h : ∀ y, o = some y ↔ Q y) : Lists (.ok o.toList) Q :=
  ⟨o.toList, rfl, fun y => by rw [Option.mem_toList, h]⟩

theorem append {reading reading' : Except Error (List α)} (h : Lists reading Q)
    (h' : Lists reading' Q') :
    Lists (do let found ← reading; return found ++ (← reading')) fun y => Q y ∨ Q' y := by
  obtain ⟨ys, rfl, hmem⟩ := h
  obtain ⟨ys', rfl, hmem'⟩ := h'
  exact ⟨ys ++ ys', rfl, fun y => by rw [List.mem_append, hmem, hmem']⟩

theorem filter {reading : Except Error (List α)} {p : α → Bool} (h : Lists reading Q) :
    Lists (do let found ← reading; return found.filter p) fun y => Q y ∧ p y := by
  obtain ⟨ys, rfl, hmem⟩ := h
  exact ⟨ys.filter p, rfl, fun y => by rw [List.mem_filter, hmem]⟩

section Items

variable {xs : List β} {R : β → α → Prop}

theorem mapM {f : β → Except Error α} (h : ∀ x ∈ xs, ∃ y, f x = .ok y ∧ ∀ z, R x z ↔ z = y) :
    Lists (xs.mapM f) fun y => ∃ x ∈ xs, R x y := by
  induction xs with
  | nil => exact nil (by simp)
  | cons x rest ih =>
    obtain ⟨y, hy, hR⟩ := h x (List.mem_cons_self ..)
    obtain ⟨ys, hys, hmem⟩ := ih fun z hz => h z (List.mem_cons_of_mem _ hz)
    refine ⟨y :: ys, ?_, fun z => ?_⟩
    · rw [List.mapM_cons, hy, hys]
      rfl
    · simp only [List.mem_cons, hmem, exists_eq_or_imp, hR]

theorem flatMapM {f : β → Except Error (List α)} (h : ∀ x ∈ xs, Lists (f x) (R x)) :
    Lists (do return (← xs.mapM f).flatten) fun y => ∃ x ∈ xs, R x y := by
  induction xs with
  | nil => exact nil (by simp)
  | cons x rest ih =>
    obtain ⟨ys, hys, hR⟩ := h x (List.mem_cons_self ..)
    obtain ⟨found, hfound, hmem⟩ := ih fun z hz => h z (List.mem_cons_of_mem _ hz)
    refine ⟨ys ++ found, ?_, fun z => ?_⟩
    · cases hrest : rest.mapM f with
      | error cause =>
        rw [hrest] at hfound
        cases hfound
      | ok yss =>
        rw [hrest] at hfound
        cases hfound
        rw [List.mapM_cons, hys, hrest]
        rfl
    · simp only [List.mem_append, List.mem_cons, hmem, exists_eq_or_imp, hR]

theorem filterMapM {γ : Type} {place : β → γ} {f : γ → Except Error (Option α)}
    (h : ∀ x ∈ xs, ∃ o, f (place x) = .ok o ∧ ∀ y, o = some y ↔ R x y) :
    Lists ((xs.map place).filterMapM f) fun y => ∃ x ∈ xs, R x y := by
  induction xs with
  | nil => exact nil (by simp)
  | cons x rest ih =>
    obtain ⟨o, ho, hR⟩ := h x (List.mem_cons_self ..)
    obtain ⟨ys, hys, hmem⟩ := ih fun z hz => h z (List.mem_cons_of_mem _ hz)
    refine ⟨o.toList ++ ys, ?_, fun z => ?_⟩
    · rw [List.map_cons, List.filterMapM_cons, ho, hys]
      cases o <;> rfl
    · simp only [List.mem_append, List.mem_cons, Option.mem_toList, hmem, exists_eq_or_imp, hR]

end Items

section Edges

variable {ν : Type} {g : Graph} {P : Placement ν} {F : Facts ν} {p : ν} {R : Bond ν → α → Prop}
  {label : Option String} {direction : Direction} {f : EdgeId × Edge → Except Error (Option α)}

/-- What is read off the edges at a vertex. -/
theorem keptEdges (hg : g.Shows P F) (hp : .vertex p ∈ F) {keep : EdgeId × Edge → Bool}
    (h : ∀ b, .bond b ∈ F → b.Meets p direction → (∀ l ∈ label, l = b.label) →
      keep (P.edgeOf g b) → ∃ o, f (P.edgeOf g b) = .ok o ∧ ∀ y, o = some y ↔ R b y) :
    Lists (((g.edgesAt (P.vertex p) label direction).filter keep).filterMapM f) fun y =>
      ∃ b, (.bond b ∈ F ∧ b.Meets p direction ∧ ∀ l ∈ label, l = b.label) ∧
        keep (P.edgeOf g b) ∧ R b y := by
  obtain ⟨bs, -, hmap, hmem⟩ := hg.edgesAt_eq hp label direction
  rw [← hmap, List.filter_map]
  refine (filterMapM (R := R) fun b hb => ?_).congr fun y => ?_
  · obtain ⟨hb, hkeep⟩ := List.mem_filter.1 hb
    obtain ⟨hbond, hmeets, hlabel⟩ := (hmem b).1 hb
    exact h b hbond hmeets hlabel hkeep
  · simp only [List.mem_filter, hmem, Function.comp_apply, and_assoc]

theorem edges (hg : g.Shows P F) (hp : .vertex p ∈ F)
    (h : ∀ b, .bond b ∈ F → b.Meets p direction → (∀ l ∈ label, l = b.label) →
      ∃ o, f (P.edgeOf g b) = .ok o ∧ ∀ y, o = some y ↔ R b y) :
    Lists ((g.edgesAt (P.vertex p) label direction).filterMapM f) fun y =>
      ∃ b, (.bond b ∈ F ∧ b.Meets p direction ∧ ∀ l ∈ label, l = b.label) ∧ R b y := by
  have hall : ∀ xs : List (EdgeId × Edge), xs.filter (fun _ => true) = xs := fun xs => by simp
  rw [← hall (g.edgesAt _ _ _)]
  exact (keptEdges hg hp fun b hb hmeets hlabel _ => h b hb hmeets hlabel).congr fun y => by simp

end Edges

end Lists

end QuadStore
