import Mathlib
import QuadStore.Fragment.Removal
import QuadStore.Proofs.Fragment.Applying
import QuadStore.Proofs.Fragment.Locating
import QuadStore.Proofs.Fragment.Matching
import QuadStore.Proofs.Graph.Steps
/-!
# What a removal spares

Lookup and search find vertices of the graph only. As long as properties, edges and index entries are
taken out, all vertices stay, so these steps succeed in every graph.
-/

namespace QuadStore

namespace Graph

variable {g g' g'' : Graph} {x : VertexId} {id : EdgeId}

/-- Every vertex of the first graph is in the second. -/
def Spares (g g' : Graph) : Prop := ∀ v ∈ g.vertices, v ∈ g'.vertices

theorem Spares.refl (g : Graph) : g.Spares g := fun _ hv => hv

theorem Spares.trans (h : g.Spares g') (h' : g'.Spares g'') : g.Spares g'' :=
  fun v hv => h' v (h v hv)

theorem removeProperty_spares (hx : x ∈ g.vertices) (entry : Entry) :
    Yields (GraphM.perform (.removeProperty x entry)) g fun _ g' => g.Spares g' := by
  by_cases hold : entry ∈ g.propertiesOf x
  · exact .perform (.removeProperty hx hold) fun v hv => mem_vertices_modifyVertex.2 hv
  · exact .perform (.removeProperty_gone hx hold) (.refl g)

/-- The edge stays as well. -/
theorem removeEdgeProperty_spares (hid : id ∈ g.edges) (entry : Entry) :
    Yields (GraphM.perform (.removeEdgeProperty id entry)) g fun _ g' =>
      g.Spares g' ∧ id ∈ g'.edges := by
  by_cases hold : entry ∈ g.edgePropertiesOf id
  · exact .perform (.removeEdgeProperty hid hold) ⟨.refl g, Std.ExtTreeMap.mem_modify.2 hid⟩
  · exact .perform (.removeEdgeProperty_gone hid hold) ⟨.refl g, hid⟩

theorem deleteEdge_spares (id : EdgeId) :
    Yields (GraphM.perform (.deleteEdge id)) g fun _ g' => g.Spares g' := by
  by_cases hid : id ∈ g.edges
  · exact .perform (.deleteEdge (Std.ExtTreeMap.getElem?_eq_some_getElem hid)) (.refl g)
  · exact .perform (.deleteEdge_gone hid) (.refl g)

theorem unindexVertex_spares (v : VertexId) (entry : Entry) :
    Yields (GraphM.perform (.unindexVertex v entry)) g fun _ g' => g.Spares g' := by
  by_cases hold : v ∈ g.lookupValue entry
  · exact .perform (.unindexVertex hold) fun w hw => Std.ExtTreeMap.mem_modify.2 hw
  · exact .perform (.unindexVertex_gone hold) (.refl g)

end Graph

/-! ## Vertices that are found -/

namespace Assignment

variable {a : Assignment} {Q : Nat → VertexId → Prop} {i : Nat} {v : VertexId}

theorem forall_insert (h : ∀ (j : Nat) (w : VertexId), a[j]? = some w → Q j w) (hv : Q i v) :
    ∀ (j : Nat) (w : VertexId), (a.insert i v)[j]? = some w → Q j w := by
  intro j w hw
  rw [Std.ExtTreeMap.getElem?_insert] at hw
  split at hw
  · rename_i heq
    cases Std.LawfulEqOrd.compare_eq_iff_eq.1 heq
    cases hw
    exact hv
  · exact h j w hw

theorem forall_erase (h : ∀ (j : Nat) (w : VertexId), a[j]? = some w → Q j w) :
    ∀ (j : Nat) (w : VertexId), (a.erase i)[j]? = some w → Q j w := by
  intro j w hw
  rw [Std.ExtTreeMap.getElem?_erase] at hw
  split at hw
  · cases hw
  · exact h j w hw

end Assignment

namespace Graph

variable {g g' : Graph} {a : Assignment} {i : Nat} {v : VertexId}

/-- The assigned vertices are in the graph. -/
def Hosts (g : Graph) (a : Assignment) : Prop :=
  ∀ (i : Nat) (v : VertexId), a[i]? = some v → v ∈ g.vertices

theorem hosts_empty : g.Hosts ∅ := by
  intro i v h
  simp at h

theorem Hosts.insert (h : g.Hosts a) (hv : v ∈ g.vertices) : g.Hosts (a.insert i v) :=
  Assignment.forall_insert h hv

theorem Hosts.spares (h : g.Hosts a) (hg : g.Spares g') : g'.Hosts a :=
  fun i v hv => hg v (h i v hv)

end Graph

namespace Fragment

variable {f : Fragment} {g : Graph} {a a' : Assignment} {r : Removal} {n : Node} {i : Nat}
  {x w : VertexId} {id : EdgeId} {pending : List Nat}

/-- The other end of an edge is there. -/
theorem vertex_of_edge {y : Edge} {label : Option String} {direction : Direction}
    (hg : g.WellFormed) (h : (id, y) ∈ g.edgesAt x label direction) : y.other x ∈ g.vertices := by
  obtain ⟨hsource, htarget⟩ := hg.ends id y (Graph.mem_edgesAt.1 h).1
  unfold Edge.other
  split
  · exact htarget
  · exact hsource

theorem vertex_of_candidate {l : Link} (hg : g.WellFormed) (h : w ∈ candidates g l x) :
    w ∈ g.vertices := by
  rw [candidates, List.mem_eraseDups, List.mem_map] at h
  obtain ⟨⟨id, y⟩, hy, rfl⟩ := h
  exact vertex_of_edge hg hy

theorem search_hosts (hg : g.WellFormed) (ha : g.Hosts a) (h : f.search g pending a = some a') :
    g.Hosts a' := by
  induction hn : pending.length using Nat.strong_induction_on generalizing pending a with
  | _ n ih =>
    unfold search at h
    split at h
    · cases h
      exact ha
    · split at h
      · cases h
      · rename_i i l v rest hnext
        obtain ⟨w, hw, hfound⟩ := List.exists_of_findSome?_eq_some h
        split at hfound
        · exact ih _ (hn ▸ rest.property) (ha.insert (vertex_of_candidate hg hw)) hfound rfl
        · cases hfound

theorem lookupNode_hosts {y : Node × Nat} (hg : g.WellFormed) (ha : g.Hosts a)
    (h : lookupNode g a y = some a') : g.Hosts a' := by
  unfold lookupNode at h
  cases hi : y.1.identity with
  | unkeyed properties =>
    rw [hi] at h
    cases h
    exact ha
  | keyed entry =>
    rw [hi] at h
    dsimp only at h
    split at h
    · rename_i v hv
      cases h
      exact ha.insert (hg.vertex_of_lookup hv)
    · split at h
      · cases h
        exact ha
      · cases h

theorem lookupKeyed?_hosts (hg : g.WellFormed) (h : f.lookupKeyed? g = some a) : g.Hosts a := by
  suffices hall : ∀ (ns : List (Node × Nat)) (b : Assignment), g.Hosts b →
      ns.foldlM (lookupNode g) b = some a → g.Hosts a from hall _ _ Graph.hosts_empty h
  intro ns
  induction ns with
  | nil =>
    intro b hb h
    cases h
    exact hb
  | cons y ns ih =>
    intro b hb h
    rw [List.foldlM_cons, Option.bind_eq_bind, Option.bind_eq_some_iff] at h
    obtain ⟨c, hc, hrest⟩ := h
    exact ih c (lookupNode_hosts hg hb hc) hrest

theorem locate?_hosts (hg : g.WellFormed) (h : f.locate? g = some a) : g.Hosts a := by
  rw [locate?, Option.bind_eq_bind, Option.bind_eq_some_iff] at h
  obtain ⟨keyed, hkeyed, hsolve⟩ := h
  rw [solve_eq_search] at hsolve
  exact search_hosts hg (lookupKeyed?_hosts hg hkeyed) hsolve

/-! ## Properties -/

/-- Steps that report a change if there was one, and go on as before if not. -/
theorem branch_spares {steps : GraphM Transaction Bool} {done kept : Removal}
    (h : Yields steps g fun _ g' => g.Spares g') :
    Yields (do if ← steps then return done else return kept) g fun _ g' => g.Spares g' := by
  refine h.bind fun changed g' hg' => ?_
  cases changed with
  | true => exact .pure hg'
  | false => exact .pure hg'

theorem removeProperties_spares (hx : x ∈ g.vertices) :
    Yields (removeProperties i x n r) g fun _ g' => g.Spares g' :=
  Yields.foldlM (I := fun _ (_ : Removal) g' => g.Spares g')
    (fun entry _ _ _ _ hg' => (branch_spares (Graph.removeProperty_spares (hg' x hx) entry)).mono
      fun _ _ => hg'.trans) (.refl g)

/-- Take out a guarded value if its guard is gone. -/
def removeGuardedValue {σ : Type} [GraphAccess σ] (i : Nat) (v : VertexId) (n : Node) (r : Removal)
    (y : GuardedValue) : GraphM σ Removal := do
  let requested := !(n.properties.values y.guardKey).isEmpty
  let unguarded := (((← GraphM.graph).propertiesOf v).values y.guardKey).isEmpty
  if unguarded && (!requested || r.emptied.contains (i, y.guardKey)) then
    if ← GraphM.perform (.removeProperty v y.entry) then
      return { r with released := (i, y.entry.key) :: r.released }.changed
    else return r
  else return r

theorem removeGuarded_eq :
    (removeGuarded i x n r : GraphM Transaction Removal) =
      n.guarded.foldlM (removeGuardedValue i x n) r := rfl

theorem removeGuardedValue_spares {y : GuardedValue} (hx : x ∈ g.vertices) :
    Yields (removeGuardedValue i x n r y) g fun _ g' => g.Spares g' := by
  refine Yields.graph_bind ?_
  dsimp only
  split
  · exact branch_spares (Graph.removeProperty_spares hx y.entry)
  · exact .pure (.refl g)

theorem removeGuarded_spares (hx : x ∈ g.vertices) :
    Yields (removeGuarded i x n r) g fun _ g' => g.Spares g' := by
  rw [removeGuarded_eq]
  exact Yields.foldlM (I := fun _ (_ : Removal) g' => g.Spares g')
    (fun _ _ _ _ _ hg' => (removeGuardedValue_spares (hg' x hx)).mono fun _ _ => hg'.trans)
    (.refl g)

/-- Take out what a node says of its vertex. -/
def removeNode {σ : Type} [GraphAccess σ] (a : Assignment) (r : Removal) :
    Node × Nat → GraphM σ Removal
  | (n, i) => do
    match a[i]? with
    | some v => removeGuarded i v n (← removeProperties i v n r)
    | none => return r

theorem removeContents_eq :
    (f.removeContents a r : GraphM Transaction Removal) = f.nodes.zipIdx.foldlM (removeNode a) r :=
  rfl

theorem removeNode_spares {y : Node × Nat} (ha : g.Hosts a) :
    Yields (removeNode a r y) g fun _ g' => g.Spares g' := by
  obtain ⟨n, i⟩ := y
  dsimp only [removeNode]
  cases hx : a[i]? with
  | none => exact .pure (.refl g)
  | some x =>
    have hvertex : x ∈ g.vertices := ha i x hx
    refine (removeProperties_spares hvertex).bind fun r' g' hg' => ?_
    exact (removeGuarded_spares (hg' x hvertex)).mono fun _ _ => hg'.trans

theorem removeContents_spares (ha : g.Hosts a) :
    Yields (f.removeContents a r) g fun _ g' => g.Spares g' := by
  rw [removeContents_eq]
  exact Yields.foldlM (I := fun _ (_ : Removal) g' => g.Spares g')
    (fun _ _ _ _ _ hg' => (removeNode_spares (ha.spares hg')).mono fun _ _ => hg'.trans) (.refl g)

/-! ## Edges -/

theorem removeEdgeProperties_spares {entries : List Entry} (hid : id ∈ g.edges) :
    Yields (entries.foldlM (fun removedAny entry => do
      return (← GraphM.perform (.removeEdgeProperty id entry)) || removedAny) false) g
      fun _ g' => g.Spares g' ∧ id ∈ g'.edges :=
  Yields.foldlM (I := fun _ (_ : Bool) g' => g.Spares g' ∧ id ∈ g'.edges)
    (fun entry _ _ _ _ hg' => (Graph.removeEdgeProperty_spares hg'.2 entry).bind
      fun _ _ hg'' => .pure ⟨hg'.1.trans hg''.1, hg''.2⟩) ⟨.refl g, hid⟩

theorem removeRelation_spares {y : FragmentEdge} (hid : id ∈ g.edges) :
    Yields (removeRelation y id r) g fun _ g' => g.Spares g' := by
  refine (removeEdgeProperties_spares hid).bind fun removedAny g' hg' => Yields.graph_bind ?_
  dsimp only
  split
  · exact (branch_spares (Graph.deleteEdge_spares id)).mono fun _ _ => hg'.1.trans
  · exact .pure hg'.1

theorem mem_edges_of_findEdge {label : String} (h : g.findEdge? x label w = some id) :
    id ∈ g.edges := by
  obtain ⟨z, hz, -⟩ := (Graph.findEdge?_eq_some.1 h).1
  exact mem_of_getElem?_eq hz

theorem removeEdge_spares {y : FragmentEdge} :
    Yields (removeEdge a r y) g fun _ g' => g.Spares g' := by
  unfold removeEdge
  split
  · refine Yields.graph_bind ?_
    split
    · exact branch_spares (Graph.deleteEdge_spares _)
    · rename_i hfind _
      exact removeRelation_spares (mem_edges_of_findEdge hfind)
    · exact .pure (.refl g)
  · exact .pure (.refl g)

theorem removeEdges_spares :
    Yields (f.edges.foldlM (removeEdge a) r) g fun _ g' => g.Spares g' :=
  Yields.foldlM (I := fun _ (_ : Removal) g' => g.Spares g')
    (fun _ _ _ _ _ hg' => removeEdge_spares.mono fun _ _ => hg'.trans) (.refl g)

/-! ## Index entries -/

/-- Drop an index entry that is to be dropped. -/
def releaseEntry {σ : Type} [GraphAccess σ] (x : VertexId) (entry : IndexEntry) : GraphM σ Unit := do
  if isReleased (← GraphM.graph) x entry then
    let _ ← GraphM.perform (.unindexVertex x entry.entry)

theorem releaseEntry_spares {entry : IndexEntry} :
    Yields (releaseEntry x entry) g fun _ g' => g.Spares g' := by
  refine Yields.graph_bind ?_
  split
  · exact (Graph.unindexVertex_spares x entry.entry).bind fun _ _ hg' => .pure hg'
  · exact .pure (.refl g)

theorem releaseIndex_spares :
    Yields (releaseIndex a r i n) g fun _ g' => g.Spares g' := by
  unfold releaseIndex
  split
  · exact .pure (.refl g)
  · refine Yields.graph_bind ?_
    split
    · exact .pure (.refl g)
    · exact Yields.forM (I := fun _ g' => g.Spares g')
        (fun _ _ _ _ hg' => releaseEntry_spares.mono fun _ _ => hg'.trans) (.refl g)

end Fragment

end QuadStore
