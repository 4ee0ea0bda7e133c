import QuadStore.Term.Uri
/-!
# Contexts

A context is a part of the data set: the default graph, which has no name, or a named graph.
-/

namespace QuadStore

inductive Context where
  | default
  | named (uri : Uri)
deriving DecidableEq

namespace Context

def uri? : Context → Option Uri
  | default => none
  | named u => some u

theorem uri?_injective {a b : Context} (h : a.uri? = b.uri?) : a = b := by
  cases a <;> cases b <;> simp_all [uri?]

/-- The default graph comes first. -/
instance : Ord Context := ⟨compareOn uri?⟩

instance : Std.TransOrd Context := inferInstanceAs (Std.TransCmp (compareOn uri?))

instance : Std.LawfulEqOrd Context := lawfulEqCmp_compareOn uri? uri?_injective

def isDefault : Context → Bool
  | default => true
  | named _ => false

def render : Context → String
  | default => "<default>"
  | named u => u.render

end Context

abbrev ContextSet := Std.ExtTreeSet Context

end QuadStore
