import QuadStore.Graph.Mutation
/-!
# Transactions and snapshots

A transaction writes to the graph in place and keeps a log of its changes. It ends with a commit, or
with a rollback, which takes the changes back, newest first. A snapshot can only be read.

The log holds changes rather than mutations or copies of what was there before: a mutation adds the
changes that it amounts to, none if it fails or finds nothing to do. The counters are not in the
log, so identifiers stay given out after a rollback.
-/

namespace QuadStore

structure Transaction where
  graph : Graph
  /-- What was changed since the beginning, newest first. -/
  log : List Change
deriving DecidableEq

namespace Transaction

def start (g : Graph) : Transaction := ⟨g, []⟩

def record (t : Transaction) (changes : List Change) : Transaction :=
  ⟨t.graph.applyAll changes, changes.reverse ++ t.log⟩

def perform (m : Mutation) (t : Transaction) : Except GraphError (m.Answer × Transaction) := do
  let (answer, changes) ← t.graph.effect m
  return (answer, t.record changes)

def commit (t : Transaction) : Graph := t.graph

def rollback (t : Transaction) : Graph := t.graph.applyAll (t.log.map Change.inverse)

end Transaction

structure Snapshot where
  graph : Graph
deriving DecidableEq

namespace Snapshot

def perform (m : Mutation) (_ : Snapshot) : Except GraphError (m.Answer × Snapshot) :=
  .error (.readOnly m.operation)

end Snapshot

/-- A place to read a graph from and to try mutations on. -/
class GraphAccess (σ : Type) where
  graph : σ → Graph
  perform : (m : Mutation) → σ → Except GraphError (m.Answer × σ)

instance : GraphAccess Transaction := ⟨Transaction.graph, Transaction.perform⟩

instance : GraphAccess Snapshot := ⟨Snapshot.graph, Snapshot.perform⟩

/-- Steps on a graph. A failure ends them, and what was written before it stays written. -/
abbrev GraphM (σ : Type) := EStateM GraphError σ

namespace GraphM

variable {σ : Type} [GraphAccess σ]

def graph : GraphM σ Graph := fun s => .ok (GraphAccess.graph s) s

def read {α : Type} (f : Graph → Except GraphError α) : GraphM σ α := fun s =>
  match f (GraphAccess.graph s) with
  | .ok a => .ok a s
  | .error cause => .error cause s

def perform (m : Mutation) : GraphM σ m.Answer := fun s =>
  match GraphAccess.perform m s with
  | .ok (answer, s) => .ok answer s
  | .error cause => .error cause s

end GraphM

end QuadStore
