import QuadStore.Policy
import QuadStore.Statement.Basic
/-!
# Patterns

A pattern binds or leaves open each position of a statement. It is answered along an access path,
which starts from a bound position.
-/

namespace QuadStore

inductive ContextFilter where
  | any
  | among (contexts : ContextSet)
deriving DecidableEq

structure Pattern where
  subject : Option Resource := none
  predicate : Option Uri := none
  object : Option Value := none
  contexts : ContextFilter := .any
deriving DecidableEq

namespace ContextFilter

/-- The part of the named graphs of a triple that a filter lets through, or `none` if it lets
nothing through. A triple in no named graph is in the default graph. -/
def restrict (f : ContextFilter) (graphs : UriSet) : Option UriSet :=
  match f with
  | any => some graphs
  | among wanted =>
    if graphs.isEmpty then if wanted.contains .default then some ∅ else none
    else
      let kept := graphs.filter fun g => wanted.contains (.named g)
      if kept.isEmpty then none else some kept

end ContextFilter

namespace Pattern

/-- A query for no context at all asks for the default graph. -/
def ofQuery (q : Query) : Pattern where
  subject := q.subject.bound?
  predicate := some q.predicate
  object := q.object.bound?
  contexts :=
    match q.contexts with
    | .any _ => .any
    | .bound [] => .among (Std.ExtTreeSet.ofList [Context.default])
    | .bound contexts => .among (Std.ExtTreeSet.ofList contexts)

def shape (p : Pattern) : String :=
  let mark (bound : Bool) (name : String) := if bound then name else "?"
  "(" ++ mark p.subject.isSome "s" ++ ", " ++ mark p.predicate.isSome "p" ++ ", " ++
    mark p.object.isSome "o" ++ ", " ++ mark (p.contexts != .any) "c" ++ ")"

def render (p : Pattern) : String :=
  p.subject.elim "?" Resource.render ++ " " ++ p.predicate.elim "?" Uri.render ++ " " ++
    p.object.elim "?" Value.render ++
    match p.contexts with
    | .any => " ?"
    | .among contexts => String.join (contexts.toList.map fun c => " " ++ c.render)

/-- Whether a triple agrees with the bound positions. -/
def accepts (p : Pattern) (t : Triple) : Bool :=
  p.subject.all (· == t.subject) && p.predicate.all (· == t.predicate) &&
    p.object.all (· == t.object)

end Pattern

inductive AccessPath where
  | wholeTriple
  | subjectPredicate
  | subjectObject
  | subject
  | object
  | literal
  | context
deriving DecidableEq, Repr

namespace AccessPath

def name : AccessPath → String
  | wholeTriple => "Exists"
  | subjectPredicate => "SubjectPredicate"
  | subjectObject => "SubjectObject"
  | subject => "Subject"
  | object => "Object"
  | literal => "Literal"
  | context => "Context"

end AccessPath

namespace Pattern

/-- Contexts lead to statements only if all of them have a name and there is one. -/
def scansContexts (p : Pattern) (policy : Policy) : Bool :=
  match p.contexts with
  | .any => false
  | .among contexts =>
    policy.findsByContext && !contexts.isEmpty && contexts.all fun c => !c.isDefault

def accessPath? (p : Pattern) (policy : Policy) : Option AccessPath :=
  match p.subject, p.predicate, p.object with
  | some _, some _, some _ => some .wholeTriple
  | some _, some _, none => some .subjectPredicate
  | some _, none, some _ => some .subjectObject
  | some _, none, none => some .subject
  | none, _, some (.resource _) => some .object
  | none, _, some (.literal _) => some .literal
  | none, _, none => if p.scansContexts policy then some .context else none

def plan (p : Pattern) (policy : Policy) : Except QueryError AccessPath :=
  match p.accessPath? policy with
  | some path => .ok path
  | none => .error (.unsupportedPattern p.shape policy.name)

end Pattern

end QuadStore
