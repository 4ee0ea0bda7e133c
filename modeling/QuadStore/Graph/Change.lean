import QuadStore.Graph.Basic
/-!
# Changes

A change is a step of writing that can be taken back: its inverse is a change too.

Changes are small, so that each has an inverse by itself. A property changes by one value of one
key, whatever the other values of the key are. An entry of the key index moves from its owner, if it
has one, to another or to none. To delete a vertex takes many changes: first its edges go, each with
its properties, then the entries of the indexes that lead to it, and last the vertex with its own
properties. Taken back newest first, the vertex is there again before anything leads to it.
-/

namespace QuadStore

inductive Change where
  | vertexAdded (v : VertexId) (properties : EntrySet)
  | vertexRemoved (v : VertexId) (properties : EntrySet)
  | edgeAdded (e : EdgeId) (edge : Edge)
  | edgeRemoved (e : EdgeId) (edge : Edge)
  | propertyAdded (v : VertexId) (entry : Entry)
  | propertyRemoved (v : VertexId) (entry : Entry)
  | edgePropertyAdded (e : EdgeId) (entry : Entry)
  | edgePropertyRemoved (e : EdgeId) (entry : Entry)
  | keyMoved (entry : Entry) (before after : Option VertexId)
  | valueIndexed (entry : Entry) (v : VertexId)
  | valueUnindexed (entry : Entry) (v : VertexId)
deriving DecidableEq

namespace Vertex

def mapProperties (f : EntrySet → EntrySet) (x : Vertex) : Vertex :=
  { x with properties := f x.properties }

def mapKeys (f : EntrySet → EntrySet) (x : Vertex) : Vertex := { x with keys := f x.keys }

def mapIndexed (f : EntrySet → EntrySet) (x : Vertex) : Vertex := { x with indexed := f x.indexed }

end Vertex

namespace Edge

def mapProperties (f : EntrySet → EntrySet) (x : Edge) : Edge :=
  { x with properties := f x.properties }

end Edge

namespace Graph

def modifyVertex (g : Graph) (v : VertexId) (f : Vertex → Vertex) : Graph :=
  { g with vertices := g.vertices.modify v f }

def modifyEdge (g : Graph) (e : EdgeId) (f : Edge → Edge) : Graph :=
  { g with edges := g.edges.modify e f }

/-- Add a vertex that no index leads to. -/
def insertVertex (g : Graph) (v : VertexId) (properties : EntrySet) : Graph :=
  { g with
    vertices := g.vertices.insert v { properties := properties }
    lastVertex := max g.lastVertex v.number }

/-- Take away a vertex that no index leads to and no edge meets. -/
def eraseVertex (g : Graph) (v : VertexId) : Graph := { g with vertices := g.vertices.erase v }

def insertEdge (g : Graph) (e : EdgeId) (edge : Edge) : Graph :=
  { g with
    edges := g.edges.insert e edge
    lastEdge := max g.lastEdge e.number }

def eraseEdge (g : Graph) (e : EdgeId) : Graph := { g with edges := g.edges.erase e }

/-- Let the entry no longer lead from the index to its owner, nor the owner list it. -/
def releaseKey (g : Graph) (entry : Entry) : Option VertexId → Graph
  | some v =>
    { g with
      vertices := g.vertices.modify v (Vertex.mapKeys (·.erase entry))
      keyIndex := g.keyIndex.erase entry }
  | none => g

def claimKey (g : Graph) (entry : Entry) : Option VertexId → Graph
  | some v =>
    { g with
      vertices := g.vertices.modify v (Vertex.mapKeys (·.insert entry))
      keyIndex := g.keyIndex.insert entry v }
  | none => g

def moveKey (g : Graph) (entry : Entry) (before after : Option VertexId) : Graph :=
  (g.releaseKey entry before).claimKey entry after

def indexValue (g : Graph) (entry : Entry) (v : VertexId) : Graph :=
  { g with
    vertices := g.vertices.modify v (Vertex.mapIndexed (·.insert entry))
    valueIndex := g.valueIndex.alter entry fun found => some ((found.getD ∅).insert v) }

/-- An entry that leads nowhere any more is dropped from the index. -/
def unindexValue (g : Graph) (entry : Entry) (v : VertexId) : Graph :=
  { g with
    vertices := g.vertices.modify v (Vertex.mapIndexed (·.erase entry))
    valueIndex := g.valueIndex.alter entry fun found =>
      found.bind fun vs => if (vs.erase v).isEmpty then none else some (vs.erase v) }

end Graph

namespace Change

def apply (g : Graph) : Change → Graph
  | vertexAdded v properties => g.insertVertex v properties
  | vertexRemoved v _ => g.eraseVertex v
  | edgeAdded e edge => g.insertEdge e edge
  | edgeRemoved e _ => g.eraseEdge e
  | propertyAdded v entry => g.modifyVertex v (Vertex.mapProperties (·.insert entry))
  | propertyRemoved v entry => g.modifyVertex v (Vertex.mapProperties (·.erase entry))
  | edgePropertyAdded e entry => g.modifyEdge e (Edge.mapProperties (·.insert entry))
  | edgePropertyRemoved e entry => g.modifyEdge e (Edge.mapProperties (·.erase entry))
  | keyMoved entry before after => g.moveKey entry before after
  | valueIndexed entry v => g.indexValue entry v
  | valueUnindexed entry v => g.unindexValue entry v

def inverse : Change → Change
  | vertexAdded v properties => vertexRemoved v properties
  | vertexRemoved v properties => vertexAdded v properties
  | edgeAdded e edge => edgeRemoved e edge
  | edgeRemoved e edge => edgeAdded e edge
  | propertyAdded v entry => propertyRemoved v entry
  | propertyRemoved v entry => propertyAdded v entry
  | edgePropertyAdded e entry => edgePropertyRemoved e entry
  | edgePropertyRemoved e entry => edgePropertyAdded e entry
  | keyMoved entry before after => keyMoved entry after before
  | valueIndexed entry v => valueUnindexed entry v
  | valueUnindexed entry v => valueIndexed entry v

end Change

namespace Graph

def applyAll (g : Graph) (changes : List Change) : Graph := changes.foldl Change.apply g

end Graph

end QuadStore
