import Mathlib
import Std.Data.ExtTreeMap
import Std.Data.ExtTreeSet
/-!
# Maps and sets

Whether some binding of a map or some element of a set has a property, and lists as sets.
-/

namespace QuadStore

variable {α β : Type} [Ord α] [Std.TransOrd α] [Std.LawfulEqOrd α]

omit [Std.LawfulEqOrd α] in
theorem any_eq_forIn (m : Std.ExtTreeMap α β) (p : α → β → Bool) :
    m.any p = Id.run (do
      for (a, b) in m do
        if p a b then return true
      return false) := by
  obtain ⟨inner⟩ := m
  exact inner.inductionOn fun _ => rfl

omit [Std.LawfulEqOrd α] in
theorem any_eq_any_toList (m : Std.ExtTreeMap α β) (p : α → β → Bool) :
    m.any p = m.toList.any fun x => p x.1 x.2 := by
  rw [any_eq_forIn]
  simp only [Std.ExtTreeMap.forIn_eq_forIn_toList]
  induction m.toList with
  | nil => rfl
  | cons x rest ih =>
    rw [List.any_cons]
    cases hp : p x.1 x.2
    · simp only [List.forIn_cons, hp, Bool.false_or] at ih ⊢
      exact ih
    · simp [hp]

omit [Std.LawfulEqOrd α] in
theorem all_eq_forIn (m : Std.ExtTreeMap α β) (p : α → β → Bool) :
    m.all p = Id.run (do
      for (a, b) in m do
        if p a b = false then return false
      return true) := by
  obtain ⟨inner⟩ := m
  exact inner.inductionOn fun _ => rfl

omit [Std.LawfulEqOrd α] in
theorem all_eq_all_toList (m : Std.ExtTreeMap α β) (p : α → β → Bool) :
    m.all p = m.toList.all fun x => p x.1 x.2 := by
  rw [all_eq_forIn]
  simp only [Std.ExtTreeMap.forIn_eq_forIn_toList]
  induction m.toList with
  | nil => rfl
  | cons x rest ih =>
    rw [List.all_cons]
    cases hp : p x.1 x.2
    · simp [hp]
    · simp only [List.forIn_cons, hp, Bool.true_and] at ih ⊢
      exact ih

omit [Std.LawfulEqOrd α] in
theorem mem_of_getElem?_eq {m : Std.ExtTreeMap α β} {a : α} {b : β} (h : m[a]? = some b) :
    a ∈ m :=
  Std.ExtTreeMap.mem_iff_isSome_getElem?.2 (by rw [h]; rfl)

theorem map_any_iff {m : Std.ExtTreeMap α β} {p : α → β → Bool} :
    m.any p ↔ ∃ a b, m[a]? = some b ∧ p a b := by
  rw [any_eq_any_toList, List.any_eq_true]
  simp only [Prod.exists, Std.ExtTreeMap.mem_toList_iff_getElem?_eq_some]

theorem set_any_iff {s : Std.ExtTreeSet α} {p : α → Bool} : s.any p ↔ ∃ a ∈ s, p a := by
  have hmap : s.any p = s.inner.any fun a _ => p a := rfl
  rw [hmap, map_any_iff]
  constructor
  · rintro ⟨a, b, hab, hp⟩
    exact ⟨a, mem_of_getElem?_eq hab, hp⟩
  · rintro ⟨a, ha, hp⟩
    exact ⟨a, (), Std.ExtTreeMap.getElem?_eq_some_getElem ha, hp⟩

theorem set_all_iff {s : Std.ExtTreeSet α} {p : α → Bool} : s.all p ↔ ∀ a ∈ s, p a := by
  have hmap : s.all p = s.inner.all fun a _ => p a := rfl
  rw [hmap, all_eq_all_toList, List.all_eq_true]
  constructor
  · intro h a ha
    exact h (a, ()) (Std.ExtTreeMap.mem_toList_iff_getElem?_eq_some.2
      (Std.ExtTreeMap.getElem?_eq_some_getElem ha))
  · rintro h ⟨a, b⟩ hmem
    refine h a (Std.ExtTreeMap.mem_iff_isSome_getElem?.2 ?_)
    rw [Std.ExtTreeMap.mem_toList_iff_getElem?_eq_some.1 hmem]
    rfl

theorem size_erase_of_mem {m : Std.ExtTreeMap α β} {a : α} (h : a ∈ m) :
    (m.erase a).size + 1 = m.size := by
  have hmem : (a, m[a]) ∈ m.toList :=
    Std.ExtTreeMap.mem_toList_iff_getElem?_eq_some.2 (Std.ExtTreeMap.getElem?_eq_some_getElem h)
  have hpos := List.length_pos_of_mem hmem
  rw [Std.ExtTreeMap.length_toList] at hpos
  rw [Std.ExtTreeMap.size_erase, if_pos (Std.ExtTreeMap.contains_iff_mem.2 h)]
  omega

omit [Std.LawfulEqOrd α] in
theorem size_insert_of_notMem {m : Std.ExtTreeMap α β} {a : α} {b : β} (h : a ∉ m) :
    (m.insert a b).size = m.size + 1 := by
  rw [Std.ExtTreeMap.size_insert, if_neg (mt Std.ExtTreeMap.contains_iff_mem.1 h)]

/-- A list without repetitions that has one item or none. -/
theorem eq_toList_of_nodup {γ : Type} {xs : List γ} {o : Option γ} (hnodup : xs.Nodup)
    (hmem : ∀ x, x ∈ xs ↔ o = some x) : xs = o.toList := by
  cases o with
  | none =>
    rw [Option.toList_none, List.eq_nil_iff_forall_not_mem]
    intro x hx
    cases (hmem x).1 hx
  | some y =>
    refine List.perm_singleton.1 ((List.perm_ext_iff_of_nodup hnodup (List.nodup_singleton y)).2 ?_)
    intro x
    rw [hmem, List.mem_singleton, Option.some.injEq, eq_comm]

theorem exists_map_eq {γ δ : Type} (f : γ → δ) (ys : List δ) (q : γ → Prop)
    (h : ∀ y ∈ ys, ∃ x, q x ∧ f x = y) : ∃ xs : List γ, (∀ x ∈ xs, q x) ∧ xs.map f = ys := by
  induction ys with
  | nil => exact ⟨[], by simp, rfl⟩
  | cons y ys ih =>
    obtain ⟨x, hx, rfl⟩ := h y (List.mem_cons_self ..)
    obtain ⟨xs, hxs, rfl⟩ := ih fun z hz => h z (List.mem_cons_of_mem _ hz)
    exact ⟨x :: xs, List.forall_mem_cons.2 ⟨hx, hxs⟩, rfl⟩

theorem set_nodup_toList {s : Std.ExtTreeSet α} : s.toList.Nodup :=
  s.distinct_toList.imp fun h heq => h (Std.compare_eq_iff_eq.2 heq)

end QuadStore
