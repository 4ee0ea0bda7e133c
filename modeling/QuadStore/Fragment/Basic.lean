import QuadStore.Graph.Basic
/-!
# Fragments

A fragment describes what one statement looks like in the graph. Its nodes stand for vertices: a
keyed node for the vertex its entry leads to, an unkeyed node for a vertex found by the structure
around it. Every edge connects nodes of the fragment.
-/

namespace QuadStore

/-- The role of a node. -/
inductive Tag where
  | subject
  | object
  | class_
  | context
  | middle
  | literal
deriving DecidableEq, Repr

inductive Identity where
  | keyed (entry : Entry)
  /-- The vertex has this one value under each key, or none. -/
  | unkeyed (properties : List (String × Option String))
deriving DecidableEq, Repr

/-- A value that goes once there is nothing under the guard key. -/
structure GuardedValue where
  entry : Entry
  guardKey : String
deriving DecidableEq, Repr

/-- When removal drops an entry of the value index. -/
inductive Release where
  | withVertex
  /-- Once no property has the value: the property of this key, or of any predicate. -/
  | whenNoProperty (key : Option String)
  /-- Once no outgoing edge with this label has the value under this key. -/
  | whenNoEdgeProperty (label key : String)
deriving DecidableEq, Repr

structure IndexEntry where
  entry : Entry
  release : Release
deriving DecidableEq, Repr

/-- A text to be found by its words, with the predicate it belongs to. -/
structure FulltextEntry where
  predicate : String
  text : String
deriving DecidableEq, Repr

structure Node where
  identity : Identity
  tags : List Tag
  properties : EntrySet := ∅
  guarded : List GuardedValue := []
  index : List IndexEntry := []
  fulltext : List FulltextEntry := []
  /-- Removal goes on without this node if it is not in the graph. -/
  optional : Bool := false
deriving DecidableEq

/-- What an edge means for removal. -/
inductive EdgeKind where
  /-- Goes once it has no properties. -/
  | relation
  /-- Has to be there for a node to be found, and goes with it. -/
  | structural
  /-- Goes at once. -/
  | context
deriving DecidableEq, Repr

structure FragmentEdge where
  source : Nat
  label : String
  target : Nat
  kind : EdgeKind
  properties : EntrySet := ∅
deriving DecidableEq

structure Fragment where
  nodes : List Node := []
  edges : List FragmentEdge := []
deriving DecidableEq

namespace Tag

def all : List Tag := [subject, object, class_, context, middle, literal]

def name : Tag → String
  | subject => "subject"
  | object => "object"
  | class_ => "class"
  | context => "context"
  | middle => "middle"
  | literal => "literal"

def ofName? (name : String) : Option Tag := all.find? (·.name == name)

end Tag

namespace EdgeKind

def all : List EdgeKind := [relation, structural, context]

def name : EdgeKind → String
  | relation => "relation"
  | structural => "structural"
  | context => "context"

def ofName? (name : String) : Option EdgeKind := all.find? (·.name == name)

end EdgeKind

namespace Identity

def entry? : Identity → Option Entry
  | keyed entry => some entry
  | unkeyed _ => none

end Identity

/-- The items of the second list that are not in the first go to its end, each once. -/
def appendNew {α : Type} [BEq α] (xs ys : List α) : List α :=
  ys.foldl (fun xs y => if xs.contains y then xs else xs ++ [y]) xs

namespace Node

def keyed (entry : Entry) (tag : Tag) : Node := { identity := .keyed entry, tags := [tag] }

def unkeyed (properties : List (String × Option String)) (tag : Tag) : Node :=
  { identity := .unkeyed properties, tags := [tag] }

def isKeyed (n : Node) : Bool := n.identity.entry?.isSome

theorem isKeyed_iff {n : Node} : n.isKeyed ↔ ∃ entry, n.identity = .keyed entry := by
  cases hi : n.identity <;> simp [isKeyed, Identity.entry?, hi]

theorem isKeyed_eq_false_iff {n : Node} :
    n.isKeyed = false ↔ ∃ properties, n.identity = .unkeyed properties := by
  cases hi : n.identity <;> simp [isKeyed, Identity.entry?, hi]

def hasTag (n : Node) (tag : Tag) : Bool := n.tags.contains tag

def addProperties (n : Node) (entries : List Entry) : Node :=
  { n with properties := n.properties.insertMany entries }

def addGuarded (n : Node) (values : List GuardedValue) : Node :=
  { n with guarded := n.guarded ++ values }

def addIndex (n : Node) (entries : List IndexEntry) : Node := { n with index := n.index ++ entries }

def addFulltext (n : Node) (entries : List FulltextEntry) : Node :=
  { n with fulltext := n.fulltext ++ entries }

/-- One node in the place of two with the same identity. -/
def merge (n other : Node) : Node where
  identity := n.identity
  tags := appendNew n.tags other.tags
  properties := n.properties ∪ other.properties
  guarded := appendNew n.guarded other.guarded
  index := appendNew n.index other.index
  fulltext := appendNew n.fulltext other.fulltext
  optional := n.optional && other.optional

end Node

namespace FragmentEdge

def addProperties (e : FragmentEdge) (entries : List Entry) : FragmentEdge :=
  { e with properties := e.properties.insertMany entries }

def connects (e : FragmentEdge) (source : Nat) (label : String) (target : Nat) (kind : EdgeKind) :
    Bool :=
  e.source == source && e.label == label && e.target == target && e.kind == kind

end FragmentEdge

namespace Fragment

def empty : Fragment := {}

/-- Add a node and say where it is. A keyed node merges into one with the same key; unkeyed nodes
are always distinct. -/
def addNode (f : Fragment) (n : Node) : Nat × Fragment :=
  match n.identity.entry?.bind fun _ => f.nodes.findIdx? (·.identity == n.identity) with
  | some i => (i, { f with nodes := f.nodes.modify i (·.merge n) })
  | none => (f.nodes.length, { f with nodes := f.nodes ++ [n] })

def modifyNode (f : Fragment) (i : Nat) (g : Node → Node) : Fragment :=
  { f with nodes := f.nodes.modify i g }

def modifyEdge (f : Fragment) (i : Nat) (g : FragmentEdge → FragmentEdge) : Fragment :=
  { f with edges := f.edges.modify i g }

def checkNode (f : Fragment) (label : String) (i : Nat) : Except FragmentError Unit :=
  if i < f.nodes.length then .ok () else .error (.danglingEdge label i f.nodes.length)

/-- Add an edge and say where it is; an edge is there only once. -/
def addEdge (f : Fragment) (source : Nat) (label : String) (target : Nat) (kind : EdgeKind) :
    Except FragmentError (Nat × Fragment) := do
  f.checkNode label source
  f.checkNode label target
  match f.edges.findIdx? (·.connects source label target kind) with
  | some i => return (i, f)
  | none =>
    return (f.edges.length, { f with edges := f.edges ++ [⟨source, label, target, kind, ∅⟩] })

def findTagged? (f : Fragment) (tag : Tag) : Option Nat := f.nodes.findIdx? (·.hasTag tag)

/-- A structural edge as seen from one of its ends. -/
structure Link where
  label : String
  neighbour : Nat
  /-- Whether the edge starts at the node it is seen from. -/
  outgoing : Bool
deriving DecidableEq, Repr

def link? (i : Nat) (e : FragmentEdge) : Option Link :=
  if e.kind ≠ .structural then none
  else if e.source = i then some ⟨e.label, e.target, true⟩
  else if e.target = i then some ⟨e.label, e.source, false⟩
  else none

/-- The structural edges that meet a node. -/
def links (f : Fragment) (i : Nat) : List Link := f.edges.filterMap (link? i)

end Fragment

end QuadStore
