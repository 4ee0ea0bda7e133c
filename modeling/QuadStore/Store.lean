import QuadStore.Encoder.Layout
import QuadStore.Fragment.Removal
import QuadStore.Resolution
/-!
# Statement stores

A store keeps statements in a graph. Each way to write runs in a transaction of its own, so that a
failure leaves the graph as it was. The text index follows what is written and takes nothing back.
-/

namespace QuadStore

structure Store where
  graph : Graph := {}
  encoder : Encoder
  textIndex : Option TextIndex := none
deriving DecidableEq

/-- A transaction under way, with the text index that follows it. -/
structure Work where
  transaction : Transaction
  textIndex : Option TextIndex
deriving DecidableEq

abbrev WorkM := EStateM Error Work

abbrev StoreM := EStateM Error Store

namespace Work

def applyTexts (w : Work) (changes : List TextChange) : Work :=
  { w with textIndex := w.textIndex.map (·.applyAll changes) }

/-- Run steps on the graph and hand the texts they leave to the index. -/
def run {α : Type} (steps : GraphM Transaction (α × List TextChange)) : WorkM α := fun w =>
  match steps w.transaction with
  | .ok (a, texts) t => .ok a ({ w with transaction := t }.applyTexts texts)
  | .error cause t => .error (.graph cause) { w with transaction := t }

def encode (e : Encoder) (s : Statement) : WorkM Fragment := fun w =>
  match e.fragment s with
  | .ok f => .ok f w
  | .error cause => .error (.fragment cause) w

def add (e : Encoder) (s : Statement) : WorkM MergeReport := do
  let f ← encode e s
  run f.mergeInto

def remove (e : Encoder) (s : Statement) : WorkM RemovalReport := do
  let f ← encode e s
  run (f.removeFrom e.vocabulary)

def resolve (e : Encoder) (p : Pattern) : WorkM (List Statement) := fun w =>
  match p.resolve e w.transaction.graph with
  | .ok found => .ok found w
  | .error cause => .error cause w

/-- Remove statements and count those whose removal changed the graph. -/
def removeAll (e : Encoder) (statements : List Statement) : WorkM Nat :=
  statements.foldlM (fun count s => do
    return if (← remove e s).removed then count + 1 else count) 0

end Work

namespace Store

/-- An empty store with a valid configuration. -/
def ofConfig (c : Config) : Except ConfigError Store := do
  return { encoder := ← Encoder.ofConfig c }

def setSchema (s : Store) (schema : Schema) : Store :=
  { s with encoder := { s.encoder with schema := some schema } }

def setTextIndex (s : Store) (x : TextIndex) : Store := { s with textIndex := some x }

def stats (s : Store) : GraphStats := s.graph.stats

/-- Commit the work if it succeeds and roll it back if it fails. -/
def transact {α : Type} (work : Encoder → WorkM α) : StoreM α := fun s =>
  match work s.encoder ⟨.start s.graph, s.textIndex⟩ with
  | .ok a w => .ok a { s with graph := w.transaction.commit, textIndex := w.textIndex }
  | .error cause w =>
    .error cause { s with graph := w.transaction.rollback, textIndex := w.textIndex }

/-- Add statements in one transaction. -/
def addAll (statements : List Statement) : StoreM MergeReport :=
  transact fun e =>
    statements.foldlM (fun total s => do return total.add (← Work.add e s)) {}

def add (s : Statement) : StoreM MergeReport := addAll [s]

/-- Take a statement out of the contexts it names, or out of the default graph if it names none, and
say whether anything changed. -/
def remove (s : Statement) : StoreM Bool :=
  transact fun e => do return (← Work.remove e s).removed

/-- Remove everything that answers a query and say how many statements were removed. -/
def removeMatching (q : Query) : StoreM Nat :=
  transact fun e => do Work.removeAll e (← Work.resolve e (Pattern.ofQuery q))

def find (s : Store) (p : Pattern) : Except Error (List Statement) := p.resolve s.encoder s.graph

def get (s : Store) (q : Query) : Except Error (List Statement) := s.find (Pattern.ofQuery q)

/-- Whether a statement is stored in every context it names. -/
def contains (s : Store) (statement : Statement) : Except Error Bool := do
  let object := s.encoder.classify statement.predicate statement.object
  return (← s.get statement.toQuery).any fun found =>
    found.subject == statement.subject && found.object == object &&
      statement.contexts.all found.contexts.contains

end Store

end QuadStore
