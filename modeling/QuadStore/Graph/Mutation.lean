import QuadStore.Graph.Change
/-!
# Mutations

The ways to write to a graph. A mutation answers something and amounts to a list of changes, which
is empty when there is nothing to do.
-/

namespace QuadStore

inductive Mutation where
  | registerKey (v : VertexId) (entry : Entry)
  | unregisterKey (entry : Entry)
  | createVertex
  | deleteVertex (v : VertexId)
  | addProperty (v : VertexId) (entry : Entry)
  | removeProperty (v : VertexId) (entry : Entry)
  | removeKey (v : VertexId) (key : String)
  | createEdge (source : VertexId) (label : String) (target : VertexId)
  | deleteEdge (e : EdgeId)
  | addEdgeProperty (e : EdgeId) (entry : Entry)
  | removeEdgeProperty (e : EdgeId) (entry : Entry)
  | indexVertex (v : VertexId) (entry : Entry)
  | unindexVertex (v : VertexId) (entry : Entry)
deriving DecidableEq, Repr

namespace Mutation

/-- What a mutation answers: the identifier of what it created, or whether it changed anything. -/
@[reducible] def Answer : Mutation → Type
  | registerKey .. | indexVertex .. => Unit
  | createVertex => VertexId
  | createEdge .. => EdgeId
  | _ => Bool

/-- What the mutation is for, as an error says it. -/
def operation : Mutation → String
  | registerKey .. => "register a key"
  | unregisterKey _ => "unregister a key"
  | createVertex => "create a vertex"
  | deleteVertex _ => "delete a vertex"
  | addProperty .. => "add a property value"
  | removeProperty .. => "remove a property value"
  | removeKey .. => "remove a property"
  | createEdge .. => "create an edge"
  | deleteEdge _ => "delete an edge"
  | addEdgeProperty .. => "add an edge property value"
  | removeEdgeProperty .. => "remove an edge property value"
  | indexVertex .. => "index a vertex"
  | unindexVertex .. => "unindex a vertex"

end Mutation

namespace Graph

/-- Everything that leads to a vertex goes before the vertex does. -/
def deletionChanges (g : Graph) (v : VertexId) (data : Vertex) : List Change :=
  (g.edgesAt v none .both).map (fun e => Change.edgeRemoved e.1 e.2) ++
    data.keys.toList.map (fun entry => Change.keyMoved entry (some v) none) ++
    data.indexed.toList.map (fun entry => Change.valueUnindexed entry v) ++
    [.vertexRemoved v data.properties]

/-- The answer of a mutation and the changes it amounts to. -/
def effect (g : Graph) : (m : Mutation) → Except GraphError (m.Answer × List Change)
  | .registerKey v entry => do
    let _ ← g.vertex v
    let old := g.lookup? entry
    return ((), if old = some v then [] else [.keyMoved entry old (some v)])
  | .unregisterKey entry =>
    match g.lookup? entry with
    | some v => return (true, [.keyMoved entry (some v) none])
    | none => return (false, [])
  | .createVertex => return (⟨g.lastVertex + 1⟩, [.vertexAdded ⟨g.lastVertex + 1⟩ ∅])
  | .deleteVertex v =>
    match g.vertices[v]? with
    | some data => return (true, g.deletionChanges v data)
    | none => return (false, [])
  | .addProperty v entry => do
    if (← g.vertex v).properties.contains entry then return (false, [])
    else return (true, [.propertyAdded v entry])
  | .removeProperty v entry => do
    if (← g.vertex v).properties.contains entry then return (true, [.propertyRemoved v entry])
    else return (false, [])
  | .removeKey v key => do
    let values := (← g.vertex v).properties.values key
    return (!values.isEmpty, values.map fun value => .propertyRemoved v ⟨key, value⟩)
  | .createEdge source label target => do
    let _ ← g.vertex source
    let _ ← g.vertex target
    return (⟨g.lastEdge + 1⟩, [.edgeAdded ⟨g.lastEdge + 1⟩ ⟨source, label, target, ∅⟩])
  | .deleteEdge e =>
    match g.edges[e]? with
    | some edge => return (true, [.edgeRemoved e edge])
    | none => return (false, [])
  | .addEdgeProperty e entry => do
    if (← g.edge e).properties.contains entry then return (false, [])
    else return (true, [.edgePropertyAdded e entry])
  | .removeEdgeProperty e entry => do
    if (← g.edge e).properties.contains entry then return (true, [.edgePropertyRemoved e entry])
    else return (false, [])
  | .indexVertex v entry => do
    return ((), if (← g.vertex v).indexed.contains entry then [] else [.valueIndexed entry v])
  | .unindexVertex v entry =>
    if (g.lookupValue entry).contains v then return (true, [.valueUnindexed entry v])
    else return (false, [])

end Graph

end QuadStore
