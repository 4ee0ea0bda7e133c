import QuadStore.Policy
import QuadStore.Schema
import QuadStore.Vocabulary
/-!
# Configuration

What a store is opened with.
-/

namespace QuadStore

structure SchemaConfig where
  objectPredicates : List Uri := []
  literalPredicates : List Uri := []
deriving DecidableEq

/-- Which predicates have their literals indexed by word. -/
structure FulltextConfig where
  all : Bool := false
  predicates : UriSet := ∅
deriving DecidableEq

structure Config where
  encoding : Policy := .verboseQuad
  vocabulary : Vocabulary := {}
  schema : SchemaConfig := {}
  fulltext : FulltextConfig := {}
deriving DecidableEq

namespace SchemaConfig

def declared (c : SchemaConfig) : Schema :=
  c.literalPredicates.foldl Schema.declareLiteral
    (c.objectPredicates.foldl Schema.declareObject {})

/-- The schema, unless no predicate is declared. -/
def declared? (c : SchemaConfig) : Option Schema :=
  if c.declared.isEmpty then none else some c.declared

end SchemaConfig

namespace FulltextConfig

def covers (c : FulltextConfig) (predicate : Uri) : Bool := c.all || c.predicates.contains predicate

def isEnabled (c : FulltextConfig) : Bool := c.all || !c.predicates.isEmpty

end FulltextConfig

namespace Config

def validate (c : Config) : Except ConfigError Unit := do
  c.vocabulary.validate
  match c.schema.literalPredicates.find? c.schema.objectPredicates.contains with
  | some predicate => throw (.conflictingSchema predicate.render)
  | none => return ()

end Config

end QuadStore
