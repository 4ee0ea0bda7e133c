import QuadStore.Error
/-!
# Encoding policies

How a triple is laid out in the graph.

- Dense: an edge from subject to object, or a property of the subject.
- Verbose quad: a vertex between subject and object, with an edge to each context.
- Always middle: a vertex after the subject that records the contexts and a literal's parts.
-/

namespace QuadStore

inductive Policy where
  | dense
  | verboseQuad
  | alwaysMiddle
deriving DecidableEq, Repr

namespace Policy

def all : List Policy := [dense, verboseQuad, alwaysMiddle]

def name : Policy → String
  | dense => "dense"
  | verboseQuad => "verbose-quad"
  | alwaysMiddle => "always-middle"

def ofName (name : String) : Except ConfigError Policy :=
  match all.find? (·.name == name) with
  | some policy => .ok policy
  | none => .error (.unknownEncoding name)

/-- Whether statements are found from a context alone. -/
def findsByContext : Policy → Bool
  | dense => false
  | verboseQuad => true
  | alwaysMiddle => true

end Policy

end QuadStore
