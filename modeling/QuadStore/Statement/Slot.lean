/-!
# Slots

A position of a statement is bound to a term or left open by a wildcard, which may have a name to
show.
-/

namespace QuadStore

structure Wildcard where
  name : Option String
deriving DecidableEq

namespace Wildcard

def anonymous : Wildcard := ⟨none⟩

/-- Names are for show: wildcards do not differ in order. -/
instance : Ord Wildcard where
  compare _ _ := .eq

def render (w : Wildcard) : String :=
  match w.name with
  | some name => "?" ++ name
  | none => "?"

end Wildcard

inductive Slot (α : Type) where
  | bound (term : α)
  | any (wildcard : Wildcard)
deriving DecidableEq

namespace Slot

variable {α : Type}

/-- Bound slots come before open ones. -/
instance [Ord α] : Ord (Slot α) where
  compare
    | bound a, bound b => compare a b
    | bound _, any _ => .lt
    | any _, bound _ => .gt
    | any a, any b => compare a b

def bound? : Slot α → Option α
  | bound a => some a
  | any _ => none

def isWildcard : Slot α → Bool
  | bound _ => false
  | any _ => true

def render (renderTerm : α → String) : Slot α → String
  | bound a => renderTerm a
  | any w => w.render

end Slot

end QuadStore
