import Mathlib
import QuadStore.Statement.Basic
/-!
# Datasets

What a store is about, without a graph: triples with the named graphs they are asserted in. A triple
in no named graph is in the default graph.
-/

namespace QuadStore

abbrev Dataset := Std.ExtTreeMap Triple UriSet

namespace Dataset

variable {M : Dataset} {t u : Triple} {A C : UriSet}

/-- Assert a triple in more named graphs, or in the default graph. -/
def add (M : Dataset) (t : Triple) (C : UriSet) : Dataset := M.insert t (M[t]?.getD ∅ ∪ C)

/-- Take a triple out of named graphs, or out of the default graph if none is named. The triple goes
once something was taken out and nothing is left. -/
def remove (M : Dataset) (t : Triple) (C : UriSet) : Dataset :=
  match M[t]? with
  | none => M
  | some A =>
    if C.isEmpty then if A.isEmpty then M.erase t else M
    else if (A \ C).isEmpty && !(A ∩ C).isEmpty then M.erase t
    else M.insert t (A \ C)

theorem getElem?_add : (M.add t C)[u]? = if t = u then some (M[t]?.getD ∅ ∪ C) else M[u]? := by
  rw [add, Std.ExtTreeMap.getElem?_insert]
  simp

/-- A new triple that is asserted in no named graph is in the default graph. -/
theorem getElem?_add_default (h : M[t]? = none) : (M.add t ∅)[t]? = some ∅ := by
  have hunion : (∅ ∪ ∅ : UriSet) = ∅ := by
    ext c
    simp
  rw [getElem?_add, if_pos rfl, h, Option.getD_none, hunion]

theorem remove_of_none (h : M[t]? = none) : M.remove t C = M := by
  simp [remove, h]

theorem erase_of_none (h : M[t]? = none) : M.erase t = M := by
  apply Std.ExtTreeMap.ext_getElem?
  intro u
  rw [Std.ExtTreeMap.getElem?_erase]
  grind

theorem insert_self (h : M[t]? = some A) : M.insert t A = M := by
  apply Std.ExtTreeMap.ext_getElem?
  intro u
  rw [Std.ExtTreeMap.getElem?_insert]
  grind

/-! ## Removal -/

/-- Nothing of the triple is left when it is taken out of the graphs. -/
def Drops (A C : UriSet) : Prop := (A \ C).isEmpty ∧ (C.isEmpty ∨ ¬(A ∩ C).isEmpty)

instance : Decidable (Drops A C) := inferInstanceAs (Decidable (_ ∧ _))

theorem isEmpty_iff_forall {s : UriSet} : s.isEmpty ↔ ∀ c, c ∉ s := by
  rw [Std.ExtTreeSet.isEmpty_iff, Std.ExtTreeSet.eq_empty_iff_forall_not_mem]

theorem drops_iff :
    Drops A C ↔ (∀ c ∈ A, c ∈ C) ∧ ((∀ c, c ∉ C) ∨ ∃ c ∈ A, c ∈ C) := by
  simp only [Drops, isEmpty_iff_forall, Std.ExtTreeSet.mem_diff_iff, Std.ExtTreeSet.mem_inter_iff,
    not_and, not_not, not_forall, exists_prop]

/-- The triple is stored, and nothing of it is left when it is taken out of the graphs. -/
def Dropped (M : Dataset) (t : Triple) (C : UriSet) : Prop :=
  (∃ A, M[t]? = some A) ∧ Drops (M[t]?.getD ∅) C

/-- A removal leaves the triple in what remains of its graphs, or drops it. -/
theorem remove_of_some (h : M[t]? = some A) :
    M.remove t C = if Drops A C then M.erase t else M.insert t (A \ C) := by
  simp only [remove, Drops, h]
  by_cases hC : C.isEmpty
  · have hdiff : A \ C = A := by
      rw [Std.ExtTreeSet.isEmpty_iff] at hC
      subst hC
      ext
      simp
    simp only [hC, if_true, hdiff, true_or, and_true, insert_self h]
  · simp [hC]

theorem getElem?_remove (h : M[t]? = some A) :
    (M.remove t C)[u]? =
      if t = u then if Drops A C then none else some (A \ C) else M[u]? := by
  rw [remove_of_some h]
  split
  · rw [Std.ExtTreeMap.getElem?_erase]
    simp
  · rw [Std.ExtTreeMap.getElem?_insert]
    simp

theorem getElem?_remove_ne (hne : t ≠ u) : (M.remove t C)[u]? = M[u]? := by
  cases hA : M[t]? with
  | none => rw [remove_of_none hA]
  | some A => rw [getElem?_remove hA, if_neg hne]

/-- What is left after a removal was there before. -/
theorem some_of_remove {B : UriSet} (h : (M.remove t C)[u]? = some B) :
    ∃ A, M[u]? = some A ∧ ∀ c ∈ B, c ∈ A := by
  cases ht : M[t]? with
  | none =>
    rw [remove_of_none ht] at h
    exact ⟨B, h, fun _ hc => hc⟩
  | some A =>
    rw [getElem?_remove ht] at h
    split at h
    · subst_vars
      split at h
      · cases h
      · cases h
        exact ⟨A, ht, fun c hc => (Std.ExtTreeSet.mem_diff_iff.1 hc).1⟩
    · exact ⟨B, h, fun _ hc => hc⟩

/-- A triple that is dropped is gone. -/
theorem remove_self_eq_none (h : Drops (M[t]?.getD ∅) C) : (M.remove t C)[t]? = none := by
  cases hA : M[t]? with
  | none => rw [remove_of_none hA, hA]
  | some A =>
    rw [hA, Option.getD_some] at h
    rw [getElem?_remove hA, if_pos rfl, if_pos h]

/-- None of the graphs that are named is left. -/
theorem notMem_of_remove_self {B : UriSet} {c : Uri} (hB : (M.remove t C)[t]? = some B)
    (hc : c ∈ B) : c ∉ C := by
  cases hA : M[t]? with
  | none =>
    rw [remove_of_none hA, hA] at hB
    cases hB
  | some A =>
    rw [getElem?_remove hA, if_pos rfl] at hB
    split at hB
    · cases hB
    · cases hB
      exact (Std.ExtTreeSet.mem_diff_iff.1 hc).2

/-- Taking a triple out of the same graphs again changes nothing. -/
theorem remove_remove : (M.remove t C).remove t C = M.remove t C := by
  cases hA : M[t]? with
  | none => rw [remove_of_none hA, remove_of_none hA]
  | some A =>
    have hself := getElem?_remove (u := t) hA (C := C)
    rw [if_pos rfl] at hself
    by_cases hdrops : Drops A C
    · rw [if_pos hdrops] at hself
      exact remove_of_none hself
    · rw [if_neg hdrops] at hself
      have hkept : ¬Drops (A \ C) C := by
        simp only [drops_iff, Std.ExtTreeSet.mem_diff_iff] at hdrops ⊢
        rintro ⟨hall, hnone | ⟨c, hc, hc'⟩⟩
        · exact hdrops ⟨fun c hc => hall c ⟨hc, hnone c⟩, .inl hnone⟩
        · exact hc.2 hc'
      have hdiff : (A \ C) \ C = A \ C := by
        ext c
        simp only [Std.ExtTreeSet.mem_diff_iff]
        exact ⟨And.left, fun hc => ⟨hc, hc.2⟩⟩
      rw [remove_of_some hself, if_neg hkept, hdiff, insert_self hself]

/-- A removal takes back what was asserted, where nothing of it was there: the triple was not
stored, or it was in other named graphs only. -/
theorem remove_add (h : ∀ A, M[t]? = some A → A.isEmpty = false ∧ ∀ c ∈ C, c ∉ A) :
    (M.add t C).remove t C = M := by
  have hself := getElem?_add (M := M) (t := t) (u := t) (C := C)
  rw [if_pos rfl] at hself
  apply Std.ExtTreeMap.ext_getElem?
  intro u
  rw [getElem?_remove hself, getElem?_add]
  by_cases hu : t = u
  · subst hu
    rw [if_pos rfl]
    cases hA : M[t]? with
    | none =>
      have hdrops : Drops (∅ ∪ C) C := by
        rw [drops_iff]
        refine ⟨fun c hc => by simpa using hc, ?_⟩
        by_cases hnone : ∀ c, c ∉ C
        · exact .inl hnone
        · obtain ⟨c, hc⟩ := not_forall_not.1 hnone
          exact .inr ⟨c, by simpa using hc, hc⟩
      rw [Option.getD_none, if_pos hdrops]
    | some A =>
      obtain ⟨hnonempty, hdisjoint⟩ := h A hA
      rw [← Bool.not_eq_true, isEmpty_iff_forall, not_forall_not] at hnonempty
      obtain ⟨a, ha⟩ := hnonempty
      have hkept : ¬Drops (A ∪ C) C := by
        rw [drops_iff]
        rintro ⟨hall, -⟩
        exact hdisjoint a (hall a (by simp [ha])) ha
      have hdiff : (A ∪ C) \ C = A := by
        ext c
        simp only [Std.ExtTreeSet.mem_diff_iff, Std.ExtTreeSet.mem_union_iff]
        exact ⟨fun ⟨hc, hnot⟩ => hc.resolve_right hnot,
          fun hc => ⟨.inl hc, fun hC => hdisjoint c hC hc⟩⟩
      rw [Option.getD_some, if_neg hkept, hdiff]
  · rw [if_neg hu, if_neg hu]

/-- Whether a triple is dropped, told by what stands for its graphs. -/
theorem drops_iff_image {α : Type} {f : Uri → α} (hf : Function.Injective f) {S T : α → Prop}
    (hS : ∀ x, S x ↔ ∃ c ∈ A, x = f c) (hT : ∀ x, T x ↔ ∃ c ∈ C, x = f c) :
    Drops A C ↔ (∀ x, S x → T x) ∧ ((∀ x, ¬T x) ∨ ∃ x, T x ∧ S x) := by
  have hmem : ∀ {B : UriSet} {c : Uri}, (∃ d ∈ B, f c = f d) ↔ c ∈ B := fun {B c} =>
    ⟨fun ⟨d, hd, heq⟩ => hf heq ▸ hd, fun hc => ⟨c, hc, rfl⟩⟩
  rw [drops_iff]
  simp only [hS, hT]
  refine and_congr ?_ (or_congr ?_ ?_)
  · constructor
    · rintro hall x ⟨c, hc, rfl⟩
      exact ⟨c, hall c hc, rfl⟩
    · intro hall c hc
      exact hmem.1 (hall (f c) ⟨c, hc, rfl⟩)
  · constructor
    · rintro hnone x ⟨c, hc, -⟩
      exact hnone c hc
    · intro hnone c hc
      exact hnone (f c) ⟨c, hc, rfl⟩
  · constructor
    · rintro ⟨c, hA, hC⟩
      exact ⟨f c, ⟨c, hC, rfl⟩, c, hA, rfl⟩
    · rintro ⟨x, ⟨c, hC, rfl⟩, hA⟩
      exact ⟨c, hmem.1 hA, hC⟩

end Dataset

end QuadStore
