import QuadStore.Pattern
import QuadStore.View
/-!
# Resolving patterns

A pattern is resolved along its access path. What the path leads to is then held against the whole
pattern, and every triple is reported once.
-/

namespace QuadStore

namespace Pattern

/-- Compare a bound object the way it is stored. -/
def normalize (p : Pattern) (e : Encoder) : Pattern :=
  match p.predicate, p.object with
  | some predicate, some object => { p with object := some (e.classify predicate object) }
  | _, _ => p

/-- The part of a stored statement that a pattern matches. -/
def restrict (p : Pattern) (s : Statement) : Option Statement :=
  if p.accepts s.triple then (p.contexts.restrict s.contexts).map fun graphs => ⟨s.triple, graphs⟩
  else none

/-- Add a statement to those found; a triple found before takes its named graphs. -/
def addFound : List Statement → Statement → List Statement
  | [], s => [s]
  | t :: rest, s =>
    if t.triple = s.triple then ⟨t.triple, t.contexts ∪ s.contexts⟩ :: rest
    else t :: addFound rest s

/-- The matches among some statements, in the order in which their triples first appear. -/
def collect (p : Pattern) (found : List Statement) : List Statement :=
  (found.filterMap p.restrict).foldl addFound []

/-- The named graphs among the wanted contexts. -/
def wantedGraphs (p : Pattern) : List Uri :=
  match p.contexts with
  | .any => []
  | .among contexts => contexts.toList.filterMap Context.uri?

/-- The statements an access path leads to. -/
def follow (p : Pattern) (w : View) : AccessPath → Except Error (List Statement)
  | .wholeTriple | .subjectPredicate | .subjectObject | .subject =>
    match p.subject.bind w.vertexFor with
    | some v => w.statementsFrom v p.predicate
    | none => .ok []
  | .object =>
    match (p.object.bind Value.resource?).bind w.vertexFor with
    | some v => w.statementsTo v p.predicate
    | none => .ok []
  | .literal =>
    match p.object.bind Value.literal? with
    | some l => w.statementsOfLiteral l
    | none => .ok []
  | .context => do return (← p.wantedGraphs.mapM w.statementsOfContext).flatten

/-- The stored statements that match a pattern. -/
def resolve (p : Pattern) (e : Encoder) (g : Graph) : Except Error (List Statement) := do
  let p := p.normalize e
  match p.plan e.policy with
  | .error cause => throw (.query cause)
  | .ok path => return p.collect (← p.follow ⟨g, e.vocabulary⟩ path)

end Pattern

end QuadStore
