import QuadStore.Term.BlankNode
import QuadStore.Term.Literal
/-!
# Resources and values

A resource can be a subject; a value is a resource or a literal and can be an object.
-/

namespace QuadStore

inductive Resource where
  | uri (uri : Uri)
  | blank (node : BlankNode)
deriving DecidableEq

namespace Resource

/-- URIs come before blank nodes. -/
def orderKey : Resource → Nat × String
  | uri u => (0, u.text)
  | blank b => (1, b.label)

theorem orderKey_injective {a b : Resource} (h : a.orderKey = b.orderKey) : a = b := by
  cases a <;> cases b <;> simp_all [orderKey]
  · exact Uri.ext h
  · exact BlankNode.ext h

instance : Ord Resource :=
  ⟨compareLex (compareOn fun r => r.orderKey.1) (compareOn fun r => r.orderKey.2)⟩

instance : Std.TransOrd Resource :=
  inferInstanceAs
    (Std.TransCmp (compareLex (compareOn fun r : Resource => r.orderKey.1)
      (compareOn fun r : Resource => r.orderKey.2)))

instance : Std.LawfulEqOrd Resource :=
  lawfulEqCmp_compareLex _ _ fun h₁ h₂ =>
    orderKey_injective (Prod.ext h₁ (eq_of_compare_eq h₂))

def uri? : Resource → Option Uri
  | uri u => some u
  | blank _ => none

def render : Resource → String
  | uri u => u.render
  | blank b => b.render

end Resource

inductive Value where
  | resource (resource : Resource)
  | literal (literal : Literal)
deriving DecidableEq

namespace Value

def resource? : Value → Option Resource
  | resource r => some r
  | literal _ => none

def literal? : Value → Option Literal
  | literal l => some l
  | resource _ => none

theorem ext {a b : Value} (literal : a.literal? = b.literal?)
    (resource : a.resource? = b.resource?) : a = b := by
  cases a <;> cases b <;> simp_all [literal?, resource?]

/-- Resources come before literals. -/
instance : Ord Value := ⟨compareLex (compareOn literal?) (compareOn resource?)⟩

instance : Std.TransOrd Value :=
  inferInstanceAs (Std.TransCmp (compareLex (compareOn literal?) (compareOn resource?)))

instance : Std.LawfulEqOrd Value :=
  lawfulEqCmp_compareLex literal? (compareOn resource?) fun h₁ h₂ => ext h₁ (eq_of_compare_eq h₂)

def render : Value → String
  | resource r => r.render
  | literal l => l.render

end Value

end QuadStore
