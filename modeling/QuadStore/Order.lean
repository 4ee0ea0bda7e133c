import Std.Data.ExtTreeSet
/-!
# Orders by key

A type is ordered by comparing keys, and two values compare equal only when they are the same as
soon as their keys determine them.
-/

namespace QuadStore

theorem eq_of_compare_eq {α : Type} [Ord α] [Std.LawfulEqOrd α] {a b : α}
    (h : compare a b = .eq) : a = b :=
  Std.LawfulEqCmp.eq_of_compare h

theorem compare_self {α : Type} [Ord α] [Std.LawfulEqOrd α] (a : α) : compare a a = .eq :=
  Std.ReflCmp.compare_self

theorem lawfulEqCmp_compareOn {α β : Type} [Ord β] [Std.LawfulEqOrd β] (key : α → β)
    (injective : ∀ {a b}, key a = key b → a = b) : Std.LawfulEqCmp (compareOn key) where
  compare_self {a} := compare_self (key a)
  eq_of_compare h := injective (eq_of_compare_eq h)

theorem lawfulEqCmp_compareLex {α β : Type} [Ord β] [Std.LawfulEqOrd β] (first : α → β)
    (rest : α → α → Ordering) [Std.ReflCmp rest]
    (injective : ∀ {a b}, first a = first b → rest a b = .eq → a = b) :
    Std.LawfulEqCmp (compareLex (compareOn first) rest) where
  compare_self {a} := compareLex_eq_eq.2 ⟨compare_self (first a), Std.ReflCmp.compare_self⟩
  eq_of_compare h :=
    injective (eq_of_compare_eq (compareLex_eq_eq.1 h).1) (compareLex_eq_eq.1 h).2

end QuadStore
