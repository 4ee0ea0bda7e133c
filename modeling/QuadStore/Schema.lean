import QuadStore.Term.Uri
/-!
# Schema

What is known about the objects of a predicate: that they are resources, or that they are literals.
-/

namespace QuadStore

structure Schema where
  objectPredicates : UriSet := ∅
  literalPredicates : UriSet := ∅
deriving DecidableEq

namespace Schema

/-- The last declaration of a predicate counts. -/
def declareObject (s : Schema) (predicate : Uri) : Schema where
  objectPredicates := s.objectPredicates.insert predicate
  literalPredicates := s.literalPredicates.erase predicate

def declareLiteral (s : Schema) (predicate : Uri) : Schema where
  objectPredicates := s.objectPredicates.erase predicate
  literalPredicates := s.literalPredicates.insert predicate

def isEmpty (s : Schema) : Bool := s.objectPredicates.isEmpty && s.literalPredicates.isEmpty

/-- Whether the predicate ranges over resources, if that is known. -/
def rangesOverResources? (s : Schema) (predicate : Uri) : Option Bool :=
  if s.objectPredicates.contains predicate then some true
  else if s.literalPredicates.contains predicate then some false
  else none

end Schema

end QuadStore
