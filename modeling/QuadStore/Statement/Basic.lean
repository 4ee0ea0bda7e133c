import QuadStore.Statement.Slot
import QuadStore.Term.Context
import QuadStore.Term.Resource
/-!
# Statements

A statement is a triple together with the named graphs it is asserted in. Asserted in no named graph
it belongs to the default graph.

A query leaves subject, object or contexts open. A raw statement may leave any position open, and is
checked when it is taken for a statement or a query.
-/

namespace QuadStore

structure Triple where
  subject : Resource
  predicate : Uri
  object : Value
deriving DecidableEq

structure Statement where
  triple : Triple
  contexts : UriSet
deriving DecidableEq

structure Query where
  subject : Slot Resource
  predicate : Uri
  object : Slot Value
  contexts : Slot (List Context)
deriving DecidableEq

structure RawStatement where
  subject : Slot Resource
  predicate : Slot Uri
  object : Slot Value
  contexts : Slot (List Context)
deriving DecidableEq

namespace Triple

theorem ext {a b : Triple} (subject : a.subject = b.subject) (predicate : a.predicate = b.predicate)
    (object : a.object = b.object) : a = b := by
  cases a; cases b; simp_all

instance : Ord Triple :=
  ⟨compareLex (compareOn subject) (compareLex (compareOn predicate) (compareOn object))⟩

instance : Std.TransOrd Triple :=
  inferInstanceAs (Std.TransCmp
    (compareLex (compareOn subject) (compareLex (compareOn predicate) (compareOn object))))

instance : Std.LawfulEqOrd Triple :=
  lawfulEqCmp_compareLex subject _ fun h₁ h₂ =>
    have h := compareLex_eq_eq.1 h₂
    ext h₁ (eq_of_compare_eq h.1) (eq_of_compare_eq h.2)

end Triple

namespace Statement

def subject (s : Statement) : Resource := s.triple.subject

def predicate (s : Statement) : Uri := s.triple.predicate

def object (s : Statement) : Value := s.triple.object

/-- The named graphs of a list of contexts; the default graph adds none. -/
def namedGraphs (contexts : List Context) : UriSet :=
  Std.ExtTreeSet.ofList (contexts.filterMap Context.uri?)

def ofContexts (triple : Triple) (contexts : List Context) : Statement :=
  ⟨triple, namedGraphs contexts⟩

def contextList (s : Statement) : List Context := s.contexts.toList.map .named

def assertedIn (s : Statement) (contexts : List Context) : Statement :=
  ofContexts s.triple contexts

def hasTripleOf (a b : Statement) : Bool := a.triple == b.triple

instance : Ord Statement where
  compare a b := (compare a.triple b.triple).then (compare a.contextList b.contextList)

def toRaw (s : Statement) : RawStatement where
  subject := .bound s.subject
  predicate := .bound s.predicate
  object := .bound s.object
  contexts := .bound s.contextList

/-- The query that only this statement's triple in these contexts answers. -/
def toQuery (s : Statement) : Query where
  subject := .bound s.subject
  predicate := s.predicate
  object := .bound s.object
  contexts := .bound s.contextList

def render (s : Statement) : String :=
  s.subject.render ++ " " ++ s.predicate.render ++ " " ++ s.object.render ++
    String.join (s.contextList.map fun c => " " ++ c.render)

end Statement

namespace Query

instance : Ord Query where
  compare a b :=
    (compare a.subject b.subject).then
      ((compare a.predicate b.predicate).then
        ((compare a.object b.object).then (compare a.contexts b.contexts)))

def render (q : Query) : String :=
  q.subject.render Resource.render ++ " " ++ q.predicate.render ++ " " ++
    q.object.render Value.render ++
    match q.contexts with
    | .any w => " " ++ w.render
    | .bound contexts => String.join (contexts.map fun c => " " ++ c.render)

end Query

namespace RawStatement

instance : Ord RawStatement where
  compare a b :=
    (compare a.subject b.subject).then
      ((compare a.predicate b.predicate).then
        ((compare a.object b.object).then (compare a.contexts b.contexts)))

private def required {α : Type} (slot : Slot α) (reason : String) : Except TermError α :=
  match slot with
  | .bound a => .ok a
  | .any _ => .error (.invalidStatement reason)

def toStatement (r : RawStatement) : Except TermError Statement := do
  let predicate ← required r.predicate "predicate must not be a wildcard"
  let subject ← required r.subject "a complete statement needs a bound subject"
  let object ← required r.object "a complete statement needs a bound object"
  let contexts ← required r.contexts "a complete statement needs a concrete context list"
  return .ofContexts ⟨subject, predicate, object⟩ contexts

def toQuery (r : RawStatement) : Except TermError Query := do
  let predicate ← required r.predicate "predicate must not be a wildcard"
  return ⟨r.subject, predicate, r.object, r.contexts⟩

end RawStatement

end QuadStore
