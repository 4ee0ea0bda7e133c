import QuadStore.Fragment.Removal
/-!
# Searching and removing with every read checked

The search for the unkeyed nodes of a fragment and the removal of a fragment again, where each read
of a vertex or an edge is one that fails if it is missing. Nothing here falls back on what a missing
vertex would have.
-/

namespace QuadStore

namespace Fragment

namespace Checked

/-! ## The search -/

def candidates (g : Graph) (l : Link) (v : VertexId) : Except GraphError (List VertexId) := do
  let edges ← g.findEdges v (some l.label) (if l.outgoing then .incoming else .outgoing)
  return (edges.map fun e => e.2.other v).eraseDups

def identityHolds (g : Graph) (identity : Identity) (v : VertexId) : Except GraphError Bool :=
  match identity with
  | .keyed _ => return false
  | .unkeyed properties =>
    properties.allM fun p => do return (← g.property v p.1) == p.2.toList

def hasEdge (g : Graph) (source : VertexId) (label : String) (target : VertexId) :
    Except GraphError Bool := do
  return (← g.findEdges source (some label) .outgoing).any fun e => e.2.target == target

def linkHolds (g : Graph) (a : Assignment) (i : Nat) (v : VertexId) (l : Link) :
    Except GraphError Bool :=
  match if l.neighbour = i then some v else a[l.neighbour]? with
  | none => return true
  | some w => if l.outgoing then hasEdge g v l.label w else hasEdge g w l.label v

def fits (f : Fragment) (g : Graph) (a : Assignment) (i : Nat) (v : VertexId) :
    Except GraphError Bool :=
  if a.assigns v then return false
  else
    match f.nodes[i]? with
    | none => return false
    | some n => do
      if ← identityHolds g n.identity v then (f.links i).allM (linkHolds g a i v)
      else return false

/-- Steps of the search, which may fail. -/
abbrev SearchM := StateT Assignment (Except GraphError)

def attempt (f : Fragment) (g : Graph) (i : Nat) (v : VertexId) (next : SearchM Bool) :
    SearchM Bool := do
  if ← fits f g (← get) i v then
    modify (·.insert i v)
    if ← next then return true
    modify (·.erase i)
  return false

def backtrack (f : Fragment) (g : Graph) (pending : List Nat) : SearchM Bool := do
  if pending.isEmpty then return true
  match f.nextPending? (← get) pending with
  | none => return false
  | some (i, (link, v), rest) =>
    (← candidates g link v).anyM fun w => attempt f g i w (backtrack f g rest.val)
termination_by pending.length
decreasing_by exact rest.property

def solve (f : Fragment) (g : Graph) (a : Assignment) : Except GraphError (Option Assignment) := do
  let (found, a') ← (backtrack f g (f.pending a)).run a
  return if found then some a' else none

def locate (f : Fragment) (g : Graph) : Except GraphError (Option Assignment) :=
  match f.lookupKeyed? g with
  | none => return none
  | some a => solve f g a

/-! ## Properties and edges -/

variable {σ : Type} [GraphAccess σ]

def removeGuarded (i : Nat) (v : VertexId) (n : Node) (r : Removal) : GraphM σ Removal :=
  n.guarded.foldlM (fun r g => do
    let requested := !(n.properties.values g.guardKey).isEmpty
    let unguarded := (← GraphM.read (·.property v g.guardKey)).isEmpty
    if unguarded && (!requested || r.emptied.contains (i, g.guardKey)) then
      if ← GraphM.perform (.removeProperty v g.entry) then
        return { r with released := (i, g.entry.key) :: r.released }.changed
      else return r
    else return r) r

def removeContents (f : Fragment) (a : Assignment) (r : Removal) : GraphM σ Removal :=
  f.nodes.zipIdx.foldlM (fun r (n, i) => do
    match a[i]? with
    | some v => removeGuarded i v n (← removeProperties i v n r)
    | none => return r) r

def findEdge (source : VertexId) (label : String) (target : VertexId) :
    GraphM σ (Option EdgeId) := do
  let edges ← GraphM.read (·.findEdges source (some label) .outgoing)
  return (edges.find? fun e => e.2.target == target).map (·.1)

def removeRelation (e : FragmentEdge) (id : EdgeId) (r : Removal) : GraphM σ Removal := do
  let removedAny ← e.properties.toList.foldlM (fun removedAny entry => do
    return (← GraphM.perform (.removeEdgeProperty id entry)) || removedAny) false
  let r := if removedAny then r.changed else r
  let bare := (← GraphM.read (·.edgePropertyKeys id)).isEmpty
  if bare && (e.properties.isEmpty || removedAny) then
    if ← GraphM.perform (.deleteEdge id) then return r.changed.countEdges 1 else return r
  else return r

def removeEdge (a : Assignment) (r : Removal) (e : FragmentEdge) : GraphM σ Removal := do
  match a[e.source]?, a[e.target]? with
  | some source, some target =>
    match e.kind with
    | .structural => return r
    | .context =>
      match ← findEdge source e.label target with
      | some id => removeContextEdge e.source id r
      | none => return r
    | .relation =>
      match ← findEdge source e.label target with
      | some id => removeRelation e id r
      | none => return r
  | _, _ => return r

/-! ## Middle vertices -/

def recordsNothing (v : Vocabulary) (middle : VertexId) : GraphM σ Bool := do
  if (← GraphM.read (·.findEdges middle (some v.contextEdgeLabel) .outgoing)).isEmpty then
    return (← GraphM.read (·.property middle v.contextsKey)).isEmpty
  else return false

def holdsLiteral (v : Vocabulary) (x : VertexId) : GraphM σ Bool := do
  return (← GraphM.read (·.property x v.kindKey)).contains literalKind

def removeMiddleVertex (v : Vocabulary) (middle : VertexId) (r : Removal) : GraphM σ Removal := do
  let incident ← GraphM.read (·.findEdges middle none .both)
  let others := (incident.map fun e => e.2.other middle).filter (· != middle)
  let owned ← others.filterM (holdsLiteral v)
  let kept := others.filter fun x => !owned.contains x
  let r := { r with touched := r.touched.insertMany kept }
  let r ← do
    if ← GraphM.perform (.deleteVertex middle) then
      pure (({ r with dead := middle :: r.dead }.changed.countVertex).countEdges incident.length)
    else pure r
  owned.foldlM removeLiteralVertex r

def removeMiddle (f : Fragment) (v : Vocabulary) (a : Assignment) (r : Removal) (i : Nat)
    (n : Node) : GraphM σ Removal := do
  match if n.hasTag .middle then a[i]? else none with
  | none => return r
  | some middle =>
    let lost := r.detached.contains i || r.emptied.contains (i, v.contextsKey)
    if (← recordsNothing v middle) && (!f.namesContexts v i n || lost) then
      removeMiddleVertex v middle r
    else return r

/-! ## Indexes and vertices of resources -/

def isReleased (x : VertexId) (entry : IndexEntry) : GraphM σ Bool :=
  match entry.release with
  | .withVertex => return false
  | .whenNoProperty (some key) => do
    return !(← GraphM.read (·.property x key)).contains entry.entry.value
  | .whenNoProperty none => do
    let keys ← GraphM.read (·.propertyKeys x)
    return !(← keys.anyM fun key => do
      if isInternal key then return false
      else return (← GraphM.read (·.property x key)).contains entry.entry.value)
  | .whenNoEdgeProperty label key => do
    let edges ← GraphM.read (·.findEdges x (some label) .outgoing)
    return !(← edges.anyM fun e => do
      return (← GraphM.read (·.edgeProperty e.1 key)).contains entry.entry.value)

def releaseIndex (a : Assignment) (r : Removal) (i : Nat) (n : Node) : GraphM σ Unit := do
  match a[i]? with
  | none => return ()
  | some x =>
    if r.dead.contains x || !(← GraphM.graph).hasVertex x then return ()
    else
      n.index.forM fun entry => do
        if ← isReleased x entry then
          let _ ← GraphM.perform (.unindexVertex x entry.entry)

def onlyIdentityLeft (v : Vocabulary) (x : VertexId) : GraphM σ Bool := do
  match ← GraphM.read (·.propertyKeys x) with
  | [key] => return key == v.uriKey || key == v.blankKey
  | _ => return false

def collect (v : Vocabulary) (r : Removal) (x : VertexId) : GraphM σ Removal := do
  if !(← GraphM.graph).hasVertex x then return r
  else if ← GraphM.read (·.hasEdges x) then return r
  else if ← onlyIdentityLeft v x then
    if ← GraphM.perform (.deleteVertex x) then return r.changed.countVertex else return r
  else return r

/-! ## Removal -/

def removeAssigned (f : Fragment) (v : Vocabulary) (a : Assignment) :
    GraphM σ (RemovalReport × List TextChange) := do
  let keyed := (f.nodes.zipIdx.filter (·.1.isKeyed)).filterMap fun n => a[n.2]?
  let r ← removeContents f a { touched := Std.ExtTreeSet.ofList keyed }
  let r ← f.edges.foldlM (removeEdge a) r
  let r ← f.nodes.zipIdx.foldlM (fun r (n, i) => removeMiddle f v a r i n) r
  f.nodes.zipIdx.forM fun (n, i) => releaseIndex a r i n
  let texts := f.removedTexts a r
  let r ← r.touched.toList.foldlM (collect v) r
  return (r.report, texts)

def removeFrom (f : Fragment) (v : Vocabulary) : GraphM σ (RemovalReport × List TextChange) := do
  match ← GraphM.read (locate f) with
  | none => return ({}, [])
  | some a => removeAssigned f v a

end Checked

end Fragment

end QuadStore
