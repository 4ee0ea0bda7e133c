import QuadStore.Fragment.Basic
/-!
# Matching

The unkeyed nodes of a fragment are found by structure: each in turn next to a vertex that is
already assigned, over one of the fragment's structural edges. The candidates are tried oldest edge
first, and the first assignment of all nodes wins.

At an assigned vertex that is missing the search finds no edges. `Fragment.Checked` has the search
again with reads that fail there instead: it ends in the same way, or it fails where there is no
match to find (`Checked.backtrack_ends`).
-/

namespace QuadStore

/-- The vertices that stand for nodes of a fragment. -/
abbrev Assignment := Std.ExtTreeMap Nat VertexId

namespace Assignment

def assigns (a : Assignment) (v : VertexId) : Bool := a.any fun _ w => w == v

end Assignment

namespace Fragment

/-- A link of a node whose neighbour is assigned, with the neighbour's vertex. -/
def anchor? (f : Fragment) (a : Assignment) (i : Nat) : Option (Link × VertexId) :=
  (f.links i).findSome? fun l => a[l.neighbour]?.map fun v => (l, v)

/-- The vertices a link leads to from its neighbour, by the age of the edges. -/
def candidates (g : Graph) (l : Link) (v : VertexId) : List VertexId :=
  ((g.edgesAt v (some l.label) (if l.outgoing then .incoming else .outgoing)).map
    fun e => e.2.other v).eraseDups

/-- Whether a vertex has exactly the properties an identity lists. -/
def identityHolds (g : Graph) (identity : Identity) (v : VertexId) : Bool :=
  match identity with
  | .keyed _ => false
  | .unkeyed properties =>
    properties.all fun p => (g.propertiesOf v).values p.1 == p.2.toList

def hasEdge (g : Graph) (source : VertexId) (label : String) (target : VertexId) : Bool :=
  (g.edgesAt source (some label) .outgoing).any fun e => e.2.target == target

/-- Whether the link is there once the node it is seen from stands for the vertex. A link to a node
without a vertex asks for nothing yet. -/
def linkHolds (g : Graph) (a : Assignment) (i : Nat) (v : VertexId) (l : Link) : Bool :=
  match if l.neighbour = i then some v else a[l.neighbour]? with
  | none => true
  | some w => if l.outgoing then hasEdge g v l.label w else hasEdge g w l.label v

/-- Whether the node may stand for the vertex, as far as the assigned nodes tell. -/
def fits (f : Fragment) (g : Graph) (a : Assignment) (i : Nat) (v : VertexId) : Bool :=
  !a.assigns v && f.nodes[i]?.any (fun n => identityHolds g n.identity v) &&
    (f.links i).all (linkHolds g a i v)

/-- The first pending node with an anchor, and the nodes that stay pending. -/
def nextPending? (f : Fragment) (a : Assignment) :
    (pending : List Nat) →
      Option (Nat × (Link × VertexId) × { rest : List Nat // rest.length < pending.length })
  | [] => none
  | i :: pending =>
    match f.anchor? a i with
    | some anchor => some (i, anchor, ⟨pending, by simp⟩)
    | none =>
      (f.nextPending? a pending).map fun (j, anchor, rest) =>
        (j, anchor, ⟨i :: rest.val, by have := rest.property; simp; omega⟩)

/-- Let the node stand for the vertex if it may, and go on. The vertex is taken back when that leads
nowhere. -/
def attempt (f : Fragment) (g : Graph) (i : Nat) (v : VertexId) (next : StateM Assignment Bool) :
    StateM Assignment Bool := do
  if f.fits g (← get) i v then
    modify (·.insert i v)
    if ← next then return true
    modify (·.erase i)
  return false

/-- Assign the pending nodes in place and say whether there was a way. -/
def backtrack (f : Fragment) (g : Graph) (pending : List Nat) : StateM Assignment Bool := do
  if pending.isEmpty then return true
  match f.nextPending? (← get) pending with
  | none => return false
  | some (i, (link, v), rest) =>
    (candidates g link v).anyM fun w => f.attempt g i w (f.backtrack g rest.val)
termination_by pending.length
decreasing_by exact rest.property

/-- The unkeyed nodes without a vertex, in order. -/
def pending (f : Fragment) (a : Assignment) : List Nat :=
  (f.nodes.zipIdx.filter fun n => !n.1.isKeyed && !a.contains n.2).map (·.2)

/-- Extend an assignment of the keyed nodes to the unkeyed ones, in place, or leave it as it was. -/
def solveInPlace (f : Fragment) (g : Graph) : StateM Assignment Bool := do
  f.backtrack g (f.pending (← get))

/-- The assignment that is found. -/
def solve (f : Fragment) (g : Graph) (a : Assignment) : Option Assignment :=
  let (found, a') := (f.solveInPlace g).run a
  if found then some a' else none

end Fragment

end QuadStore
