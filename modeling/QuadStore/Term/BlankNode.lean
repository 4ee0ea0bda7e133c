import QuadStore.Error
import QuadStore.Order
import QuadStore.Text.Blank
/-!
# Blank nodes

A resource without a URI, told apart by a label that is not empty and holds no blank character.
-/

namespace QuadStore

def isBlankNodeLabel (s : List Char) : Bool := !s.isEmpty && s.all fun c => !Text.isBlank c

structure BlankNode where
  label : String
  valid : isBlankNodeLabel label.toList = true
deriving DecidableEq

namespace BlankNode

theorem ext {a b : BlankNode} (h : a.label = b.label) : a = b := by
  cases a; cases b; simp_all

instance : Ord BlankNode := ⟨compareOn BlankNode.label⟩

instance : Std.TransOrd BlankNode := inferInstanceAs (Std.TransCmp (compareOn BlankNode.label))

instance : Std.LawfulEqOrd BlankNode := lawfulEqCmp_compareOn BlankNode.label ext

def ofString (label : String) : Except TermError BlankNode :=
  if h : isBlankNodeLabel label.toList then .ok ⟨label, h⟩
  else
    .error (.invalidStatement
      ("blank node id " ++ Text.quoted label ++ " must be non-empty and contain no whitespace"))

theorem ofString_label (b : BlankNode) : ofString b.label = .ok b := by
  simp [ofString, b.valid]

def render (b : BlankNode) : String := "_:" ++ b.label

end BlankNode

end QuadStore
