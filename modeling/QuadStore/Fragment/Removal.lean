import QuadStore.Fragment.Merging
import QuadStore.Vocabulary
/-!
# Removing a fragment from a graph

What the fragment says is taken out of the graph, and then everything that only the fragment kept
there: edges without properties, middle vertices without contexts, literal vertices, index entries
and vertices of resources that nothing is said about any more.

Where a fragment names contexts, a part of it goes only if one of its contexts was taken out. Where
it names none, the part goes only if it has no context.
-/

namespace QuadStore

structure RemovalReport where
  /-- Whether the graph changed at all. -/
  removed : Bool := false
  deletedVertices : Nat := 0
  deletedEdges : Nat := 0
deriving DecidableEq, Repr

/-- How far a removal has come. -/
structure Removal where
  report : RemovalReport := {}
  /-- Nodes with the keys under which a value of theirs was taken out. -/
  emptied : List (Nat × String) := []
  /-- Nodes with the keys under which a guarded value of theirs was taken out. -/
  released : List (Nat × String) := []
  /-- Nodes that lost an edge to a context. -/
  detached : List Nat := []
  /-- Middle and literal vertices that were deleted. -/
  dead : List VertexId := []
  /-- Vertices that may have nothing left to stand for. -/
  touched : VertexSet := ∅
deriving DecidableEq

namespace Removal

def changed (r : Removal) : Removal := { r with report := { r.report with removed := true } }

def countEdges (r : Removal) (n : Nat) : Removal :=
  { r with report := { r.report with deletedEdges := r.report.deletedEdges + n } }

def countVertex (r : Removal) : Removal :=
  { r with report := { r.report with deletedVertices := r.report.deletedVertices + 1 } }

end Removal

namespace Fragment

variable {σ : Type} [GraphAccess σ]

/-! ## Properties -/

/-- Take the properties of a node out of its vertex. -/
def removeProperties (i : Nat) (v : VertexId) (n : Node) (r : Removal) : GraphM σ Removal :=
  n.properties.toList.foldlM (fun r entry => do
    if ← GraphM.perform (.removeProperty v entry) then
      return { r with emptied := (i, entry.key) :: r.emptied }.changed
    else return r) r

/-- Take out the guarded values of a node whose guard is gone. -/
def removeGuarded (i : Nat) (v : VertexId) (n : Node) (r : Removal) : GraphM σ Removal :=
  n.guarded.foldlM (fun r g => do
    let requested := !(n.properties.values g.guardKey).isEmpty
    let unguarded := (((← GraphM.graph).propertiesOf v).values g.guardKey).isEmpty
    if unguarded && (!requested || r.emptied.contains (i, g.guardKey)) then
      if ← GraphM.perform (.removeProperty v g.entry) then
        return { r with released := (i, g.entry.key) :: r.released }.changed
      else return r
    else return r) r

def removeContents (f : Fragment) (a : Assignment) (r : Removal) : GraphM σ Removal :=
  f.nodes.zipIdx.foldlM (fun r (n, i) => do
    match a[i]? with
    | some v => removeGuarded i v n (← removeProperties i v n r)
    | none => return r) r

/-! ## Edges -/

/-- An edge to a context goes at once. -/
def removeContextEdge (i : Nat) (id : EdgeId) (r : Removal) : GraphM σ Removal := do
  if ← GraphM.perform (.deleteEdge id) then
    return ({ r with detached := i :: r.detached }.changed).countEdges 1
  else return r

/-- A direct edge loses properties, and goes if it has none. -/
def removeRelation (e : FragmentEdge) (id : EdgeId) (r : Removal) : GraphM σ Removal := do
  let removedAny ← e.properties.toList.foldlM (fun removedAny entry => do
    return (← GraphM.perform (.removeEdgeProperty id entry)) || removedAny) false
  let r := if removedAny then r.changed else r
  let bare := ((← GraphM.graph).edgePropertiesOf id).isEmpty
  if bare && (e.properties.isEmpty || removedAny) then
    if ← GraphM.perform (.deleteEdge id) then return r.changed.countEdges 1 else return r
  else return r

def removeEdge (a : Assignment) (r : Removal) (e : FragmentEdge) : GraphM σ Removal := do
  match a[e.source]?, a[e.target]? with
  | some source, some target =>
    match (← GraphM.graph).findEdge? source e.label target, e.kind with
    | some id, .context => removeContextEdge e.source id r
    | some id, .relation => removeRelation e id r
    | _, _ => return r
  | _, _ => return r

/-! ## Middle vertices -/

/-- Whether a middle vertex records no context. -/
def recordsNothing (v : Vocabulary) (g : Graph) (middle : VertexId) : Bool :=
  (g.edgesAt middle (some v.contextEdgeLabel) .outgoing).isEmpty &&
    ((g.propertiesOf middle).values v.contextsKey).isEmpty

def holdsLiteral (v : Vocabulary) (g : Graph) (x : VertexId) : Bool :=
  (g.propertiesOf x).has v.kindKey literalKind

/-- Delete a literal vertex that goes with its middle vertex. -/
def removeLiteralVertex (r : Removal) (x : VertexId) : GraphM σ Removal := do
  let edges ← GraphM.read (·.findEdges x none .both)
  if ← GraphM.perform (.deleteVertex x) then
    return ({ r with dead := x :: r.dead }.countVertex).countEdges edges.length
  else return r

def removeMiddleVertex (v : Vocabulary) (middle : VertexId) (r : Removal) : GraphM σ Removal := do
  let g ← GraphM.graph
  let incident := g.edgesAt middle none .both
  let others := (incident.map fun e => e.2.other middle).filter (· != middle)
  let owned := others.filter (holdsLiteral v g)
  let kept := others.filter fun x => !holdsLiteral v g x
  let r := { r with touched := r.touched.insertMany kept }
  let r ← do
    if ← GraphM.perform (.deleteVertex middle) then
      pure (({ r with dead := middle :: r.dead }.changed.countVertex).countEdges incident.length)
    else pure r
  owned.foldlM removeLiteralVertex r

/-- Whether the fragment names contexts for the node. -/
def namesContexts (f : Fragment) (v : Vocabulary) (i : Nat) (n : Node) : Bool :=
  f.edges.any (fun e => e.kind == .context && e.source == i) ||
    !(n.properties.values v.contextsKey).isEmpty

def removeMiddle (f : Fragment) (v : Vocabulary) (a : Assignment) (r : Removal) (i : Nat)
    (n : Node) : GraphM σ Removal := do
  match if n.hasTag .middle then a[i]? else none with
  | none => return r
  | some middle =>
    let _ ← GraphM.read (·.vertex middle)
    let g ← GraphM.graph
    let lost := r.detached.contains i || r.emptied.contains (i, v.contextsKey)
    if recordsNothing v g middle && (!f.namesContexts v i n || lost) then
      removeMiddleVertex v middle r
    else return r

/-! ## Indexes -/

/-- Whether an index entry of a vertex is to be dropped. -/
def isReleased (g : Graph) (x : VertexId) (entry : IndexEntry) : Bool :=
  match entry.release with
  | .withVertex => false
  | .whenNoProperty (some key) => !(g.propertiesOf x).has key entry.entry.value
  | .whenNoProperty none =>
    !(g.propertiesOf x).any fun e => !isInternal e.key && e.value == entry.entry.value
  | .whenNoEdgeProperty label key =>
    !(g.edgesAt x (some label) .outgoing).any fun e => e.2.properties.has key entry.entry.value

def releaseIndex (a : Assignment) (r : Removal) (i : Nat) (n : Node) : GraphM σ Unit := do
  match a[i]? with
  | none => return ()
  | some x =>
    if r.dead.contains x || !(← GraphM.graph).hasVertex x then return ()
    else
      n.index.forM fun entry => do
        if isReleased (← GraphM.graph) x entry then
          let _ ← GraphM.perform (.unindexVertex x entry.entry)

/-- The texts that went with their vertex or with a guarded value. -/
def removedTexts (f : Fragment) (a : Assignment) (r : Removal) : List TextChange :=
  f.nodes.zipIdx.flatMap fun (n, i) =>
    match a[i]? with
    | none => []
    | some x =>
      (n.fulltext.filter fun e => r.dead.contains x || r.released.contains (i, e.predicate)).map
        fun e => .erase ⟨x, e.predicate, e.text⟩

/-! ## Vertices of resources -/

/-- Whether a vertex has only the property it is found by. -/
def isBare (v : Vocabulary) (properties : EntrySet) : Bool :=
  match properties.keys with
  | [key] => key == v.uriKey || key == v.blankKey
  | _ => false

def collect (v : Vocabulary) (r : Removal) (x : VertexId) : GraphM σ Removal := do
  let g ← GraphM.graph
  if g.hasVertex x && (g.edgesAt x none .both).isEmpty && isBare v (g.propertiesOf x) then
    if ← GraphM.perform (.deleteVertex x) then return r.changed.countVertex else return r
  else return r

/-! ## Removal -/

/-- Assign vertices to the keyed nodes, unless one that is not optional has none. -/
def lookupKeyed? (f : Fragment) (g : Graph) : Option Assignment :=
  f.nodes.zipIdx.foldlM (fun a (n, i) =>
    match n.identity with
    | .unkeyed _ => some a
    | .keyed entry =>
      match g.lookup? entry with
      | some v => some (a.insert i v)
      | none => if n.optional then some a else none) ∅

/-- The vertices of the fragment, if all of it that matters is in the graph. -/
def locate? (f : Fragment) (g : Graph) : Option Assignment := do
  f.solve g (← f.lookupKeyed? g)

def removeAssigned (f : Fragment) (v : Vocabulary) (a : Assignment) :
    GraphM σ (RemovalReport × List TextChange) := do
  let keyed := (f.nodes.zipIdx.filter (·.1.isKeyed)).filterMap fun n => a[n.2]?
  let r ← f.removeContents a { touched := Std.ExtTreeSet.ofList keyed }
  let r ← f.edges.foldlM (removeEdge a) r
  let r ← f.nodes.zipIdx.foldlM (fun r (n, i) => f.removeMiddle v a r i n) r
  f.nodes.zipIdx.forM fun (n, i) => releaseIndex a r i n
  let texts := f.removedTexts a r
  let r ← r.touched.toList.foldlM (collect v) r
  return (r.report, texts)

def removeFrom (f : Fragment) (v : Vocabulary) : GraphM σ (RemovalReport × List TextChange) := do
  match f.locate? (← GraphM.graph) with
  | none => return ({}, [])
  | some a => f.removeAssigned v a

end Fragment

end QuadStore
