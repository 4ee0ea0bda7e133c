import QuadStore.Error
import QuadStore.Order
import Std.Data.ExtTreeMap
/-!
# Property graphs

Vertices and edges carry properties, which are sets of entries: a key may have several values. A
vertex is found through the key index, where an entry leads to one vertex, and through the value
index, where an entry leads to any number of them. A vertex lists the entries that lead to it.

Identifiers grow with creation and are never given out twice.

A graph is four maps and two counters. Edges are kept by identifier alone: the edges of a vertex are
those of all edges that meet it, and come oldest first because identifiers grow.
-/

namespace QuadStore

structure VertexId where
  number : Nat
deriving DecidableEq, Repr

structure EdgeId where
  number : Nat
deriving DecidableEq, Repr

/-- A key with one of its values. -/
structure Entry where
  key : String
  value : String
deriving DecidableEq, Repr

theorem VertexId.ext {a b : VertexId} (h : a.number = b.number) : a = b := by
  cases a; cases b; simp_all

instance : Ord VertexId := ⟨compareOn VertexId.number⟩

instance : Std.TransOrd VertexId := inferInstanceAs (Std.TransCmp (compareOn VertexId.number))

instance : Std.LawfulEqOrd VertexId := lawfulEqCmp_compareOn VertexId.number VertexId.ext

theorem EdgeId.ext {a b : EdgeId} (h : a.number = b.number) : a = b := by
  cases a; cases b; simp_all

instance : Ord EdgeId := ⟨compareOn EdgeId.number⟩

instance : Std.TransOrd EdgeId := inferInstanceAs (Std.TransCmp (compareOn EdgeId.number))

instance : Std.LawfulEqOrd EdgeId := lawfulEqCmp_compareOn EdgeId.number EdgeId.ext

theorem Entry.ext {a b : Entry} (key : a.key = b.key) (value : a.value = b.value) : a = b := by
  cases a; cases b; simp_all

instance : Ord Entry := ⟨compareLex (compareOn Entry.key) (compareOn Entry.value)⟩

instance : Std.TransOrd Entry :=
  inferInstanceAs (Std.TransCmp (compareLex (compareOn Entry.key) (compareOn Entry.value)))

instance : Std.LawfulEqOrd Entry :=
  lawfulEqCmp_compareLex Entry.key (compareOn Entry.value) fun h₁ h₂ =>
    Entry.ext h₁ (eq_of_compare_eq h₂)

abbrev EntrySet := Std.ExtTreeSet Entry

abbrev VertexSet := Std.ExtTreeSet VertexId

namespace EntrySet

/-- The values of a key, in order. -/
def values (s : EntrySet) (key : String) : List String :=
  (s.toList.filter fun e => e.key == key).map (·.value)

/-- The keys that have a value, in order and each once. -/
def keys (s : EntrySet) : List String := (s.toList.map (·.key)).eraseDups

def has (s : EntrySet) (key value : String) : Bool := s.contains ⟨key, value⟩

end EntrySet

structure Vertex where
  properties : EntrySet := ∅
  /-- The entries of the key index that lead here. -/
  keys : EntrySet := ∅
  /-- The entries of the value index that lead here. -/
  indexed : EntrySet := ∅
deriving DecidableEq

structure Edge where
  source : VertexId
  label : String
  target : VertexId
  properties : EntrySet := ∅
deriving DecidableEq

/-- Which edges of a vertex are meant. -/
inductive Direction where
  | outgoing
  | incoming
  | both
deriving DecidableEq, Repr

namespace Edge

/-- Whether the edge meets the vertex in this direction. -/
def meets (e : Edge) (v : VertexId) : Direction → Bool
  | .outgoing => e.source == v
  | .incoming => e.target == v
  | .both => e.source == v || e.target == v

/-- The end that is not `v`, or `v` itself for a loop. -/
def other (e : Edge) (v : VertexId) : VertexId := if e.source = v then e.target else e.source

end Edge

structure Graph where
  vertices : Std.ExtTreeMap VertexId Vertex := ∅
  edges : Std.ExtTreeMap EdgeId Edge := ∅
  keyIndex : Std.ExtTreeMap Entry VertexId := ∅
  valueIndex : Std.ExtTreeMap Entry VertexSet := ∅
  /-- The greatest vertex number given out so far. -/
  lastVertex : Nat := 0
  /-- The greatest edge number given out so far. -/
  lastEdge : Nat := 0
deriving DecidableEq

structure GraphStats where
  vertices : Nat
  edges : Nat
  /-- The size of the key index. -/
  keyed : Nat
deriving DecidableEq

namespace Graph

def vertexCount (g : Graph) : Nat := g.vertices.size

def edgeCount (g : Graph) : Nat := g.edges.size

def stats (g : Graph) : GraphStats := ⟨g.vertexCount, g.edgeCount, g.keyIndex.size⟩

def hasVertex (g : Graph) (v : VertexId) : Bool := g.vertices.contains v

def edge? (g : Graph) (e : EdgeId) : Option Edge := g.edges[e]?

/-- The properties of a vertex; a vertex that does not exist has none. -/
def propertiesOf (g : Graph) (v : VertexId) : EntrySet :=
  (g.vertices[v]?).elim ∅ (·.properties)

def edgePropertiesOf (g : Graph) (e : EdgeId) : EntrySet := (g.edges[e]?).elim ∅ (·.properties)

/-- The edges that meet a vertex, oldest first, if a label is given only those with it. -/
def edgesAt (g : Graph) (v : VertexId) (label : Option String) (direction : Direction) :
    List (EdgeId × Edge) :=
  g.edges.toList.filter fun e => e.2.meets v direction && label.all (· == e.2.label)

/-- The oldest edge between two vertices with this label. -/
def findEdge? (g : Graph) (source : VertexId) (label : String) (target : VertexId) :
    Option EdgeId :=
  ((g.edgesAt source (some label) .outgoing).find? fun e => e.2.target == target).map (·.1)

/-- The vertex an entry leads to. -/
def lookup? (g : Graph) (entry : Entry) : Option VertexId := g.keyIndex[entry]?

/-- The vertices indexed under an entry, in order. -/
def lookupValue (g : Graph) (entry : Entry) : List VertexId :=
  (g.valueIndex[entry]?).elim [] (·.toList)

/-! ## Reads that report what is missing -/

def vertex (g : Graph) (v : VertexId) : Except GraphError Vertex :=
  match g.vertices[v]? with
  | some data => .ok data
  | none => .error (.vertexNotFound v.number)

def edge (g : Graph) (e : EdgeId) : Except GraphError Edge :=
  match g.edges[e]? with
  | some data => .ok data
  | none => .error (.edgeNotFound e.number)

def property (g : Graph) (v : VertexId) (key : String) : Except GraphError (List String) := do
  return (← g.vertex v).properties.values key

def propertyKeys (g : Graph) (v : VertexId) : Except GraphError (List String) := do
  return (← g.vertex v).properties.keys

def edgeProperty (g : Graph) (e : EdgeId) (key : String) : Except GraphError (List String) := do
  return (← g.edge e).properties.values key

def edgePropertyKeys (g : Graph) (e : EdgeId) : Except GraphError (List String) := do
  return (← g.edge e).properties.keys

def findEdges (g : Graph) (v : VertexId) (label : Option String) (direction : Direction) :
    Except GraphError (List (EdgeId × Edge)) := do
  let _ ← g.vertex v
  return g.edgesAt v label direction

def hasEdges (g : Graph) (v : VertexId) : Except GraphError Bool := do
  return !(← g.findEdges v none .both).isEmpty

end Graph

end QuadStore
