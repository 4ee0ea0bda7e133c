import QuadStore.Fragment.Matching
import QuadStore.Graph.Transaction
import QuadStore.TextIndex
/-!
# Merging a fragment into a graph

What the graph lacks of the fragment is created; what it has is left as it is.
-/

namespace QuadStore

structure MergeReport where
  createdVertices : Nat := 0
  createdEdges : Nat := 0
deriving DecidableEq, Repr

namespace MergeReport

def add (a b : MergeReport) : MergeReport :=
  ⟨a.createdVertices + b.createdVertices, a.createdEdges + b.createdEdges⟩

end MergeReport

namespace Fragment

variable {σ : Type} [GraphAccess σ]

/-- The vertex an entry leads to, created if there is none, and how many were created. -/
def findOrCreateKeyed (entry : Entry) : GraphM σ (VertexId × Nat) := do
  match (← GraphM.graph).lookup? entry with
  | some v => return (v, 0)
  | none =>
    let v ← GraphM.perform .createVertex
    let _ ← GraphM.perform (.addProperty v entry)
    GraphM.perform (.registerKey v entry)
    return (v, 1)

/-- Assign vertices to the keyed nodes. -/
def assignKeyed (f : Fragment) : GraphM σ (Assignment × Nat) :=
  f.nodes.zipIdx.foldlM (fun (a, created) (n, i) => do
    match n.identity with
    | .unkeyed _ => return (a, created)
    | .keyed entry =>
      let (v, more) ← findOrCreateKeyed entry
      return (a.insert i v, created + more)) (∅, 0)

def createUnkeyed (properties : List (String × Option String)) : GraphM σ VertexId := do
  let v ← GraphM.perform .createVertex
  properties.forM fun (key, value) =>
    match value with
    | some value => do let _ ← GraphM.perform (.addProperty v ⟨key, value⟩)
    | none => return ()
  return v

/-- Create vertices for the nodes that have none. -/
def createMissing (f : Fragment) (a : Assignment) : GraphM σ (Assignment × Nat) :=
  f.nodes.zipIdx.foldlM (fun (a, created) (n, i) => do
    match a[i]?, n.identity with
    | none, .unkeyed properties => return (a.insert i (← createUnkeyed properties), created + 1)
    | _, _ => return (a, created)) (a, 0)

/-- Write what a node says about its vertex. -/
def mergeNode (v : VertexId) (n : Node) : GraphM σ Unit := do
  n.properties.toList.forM fun entry => do let _ ← GraphM.perform (.addProperty v entry)
  n.guarded.forM fun g => do let _ ← GraphM.perform (.addProperty v g.entry)
  n.index.forM fun x => GraphM.perform (.indexVertex v x.entry)

/-- The edge between two vertices, created if there is none, and how many were created. -/
def mergeEdge (source target : VertexId) (e : FragmentEdge) : GraphM σ Nat := do
  let (id, created) ←
    match (← GraphM.graph).findEdge? source e.label target with
    | some id => pure (id, 0)
    | none => do pure (← GraphM.perform (.createEdge source e.label target), 1)
  e.properties.toList.forM fun entry => do let _ ← GraphM.perform (.addEdgeProperty id entry)
  return created

def mergeNodes (f : Fragment) (a : Assignment) : GraphM σ Unit :=
  f.nodes.zipIdx.forM fun (n, i) =>
    match a[i]? with
    | some v => mergeNode v n
    | none => return ()

def mergeEdges (f : Fragment) (a : Assignment) : GraphM σ Nat :=
  f.edges.foldlM (fun created e => do
    match a[e.source]?, a[e.target]? with
    | some source, some target => return created + (← mergeEdge source target e)
    | _, _ => return created) 0

def textEntries (v : VertexId) (n : Node) : List TextEntry :=
  n.fulltext.map fun e => ⟨v, e.predicate, e.text⟩

/-- The texts of the fragment, to be indexed. -/
def mergedTexts (f : Fragment) (a : Assignment) : List TextChange :=
  f.nodes.zipIdx.flatMap fun (n, i) => (a[i]?.elim [] (textEntries · n)).map .insert

def mergeInto (f : Fragment) : GraphM σ (MergeReport × List TextChange) := do
  let (keyed, createdKeyed) ← f.assignKeyed
  let matched := (f.solve (← GraphM.graph) keyed).getD keyed
  let (a, createdUnkeyed) ← f.createMissing matched
  f.mergeNodes a
  let createdEdges ← f.mergeEdges a
  return (⟨createdKeyed + createdUnkeyed, createdEdges⟩, f.mergedTexts a)

end Fragment

end QuadStore
