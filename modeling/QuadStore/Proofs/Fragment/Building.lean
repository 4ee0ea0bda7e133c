import Mathlib
import QuadStore.Fragment.Basic
import QuadStore.Proofs.Graph.Effect
/-!
# Building fragments

Whatever nodes and edges are added to a fragment in whatever order, no key and no edge is in it twice
and every edge ends at nodes. A position that was once answered denotes the same node or edge ever
after, though the node may take in others of its key.
-/

namespace QuadStore

theorem map_modify_eq {α β : Type} {read : α → β} {change : α → α}
    (h : ∀ x, read (change x) = read x) (xs : List α) (i : Nat) :
    (xs.modify i change).map read = xs.map read := by
  refine List.ext_getElem? fun j => ?_
  rw [List.getElem?_map, List.getElem?_map, List.getElem?_modify, Option.map_eq_map, Option.map_map]
  congr 1
  funext x
  by_cases hij : i = j <;> simp [hij, h]

theorem forall_mem_modify {α : Type} {P : α → Prop} {change : α → α} {xs : List α} {i : Nat}
    (h : ∀ x ∈ xs, P x) (hchange : ∀ x, xs[i]? = some x → P x → P (change x)) :
    ∀ x ∈ xs.modify i change, P x := by
  intro x hx
  obtain ⟨j, hj⟩ := List.mem_iff_getElem?.1 hx
  rw [List.getElem?_modify] at hj
  obtain ⟨y, hy, rfl⟩ := Option.map_eq_some_iff.1 hj
  have hmem : P y := h y (List.mem_of_getElem? hy)
  by_cases hij : i = j
  · subst hij
    simpa using hchange y hy hmem
  · simpa [hij] using hmem

namespace Node

variable {n m : Node} {tag : Tag}

theorem hasTag_merge : (n.merge m).hasTag tag ↔ n.hasTag tag ∨ m.hasTag tag := by
  have happend (xs ys : List Tag) : tag ∈ appendNew xs ys ↔ tag ∈ xs ∨ tag ∈ ys := by
    unfold appendNew
    induction ys generalizing xs with
    | nil => simp
    | cons y ys ih =>
      rw [List.foldl_cons, ih, List.mem_cons]
      by_cases hy : xs.contains y
      · rw [if_pos hy]
        rw [List.contains_iff_mem] at hy
        constructor
        · tauto
        · rintro (h | rfl | h)
          exacts [.inl h, .inl hy, .inr h]
      · rw [if_neg hy, List.mem_append, List.mem_singleton, or_assoc]
  simp only [hasTag, merge, List.contains_iff_mem, happend]

end Node

namespace FragmentEdge

variable {x : FragmentEdge} {source target : Nat} {label : String} {kind : EdgeKind}

/-- What tells an edge from the others of its fragment. -/
def place (x : FragmentEdge) : Nat × String × Nat × EdgeKind :=
  (x.source, x.label, x.target, x.kind)

theorem connects_iff :
    x.connects source label target kind ↔ x.place = (source, label, target, kind) := by
  simp only [connects, place, Bool.and_eq_true, beq_iff_eq, Prod.mk.injEq, and_assoc]

end FragmentEdge

namespace Fragment

variable {f f' f'' : Fragment} {n : Node} {i source target : Nat} {label : String} {kind : EdgeKind}
  {cause : FragmentError}

/-! ## Sound fragments -/

/-- What each node stands for. -/
def identities (f : Fragment) : List Identity := f.nodes.map (·.identity)

/-- The entries of the keyed nodes. -/
def keys (f : Fragment) : List Entry := f.identities.filterMap Identity.entry?

def places (f : Fragment) : List (Nat × String × Nat × EdgeKind) := f.edges.map (·.place)

/-- No key and no edge is there twice, and every edge ends at nodes. -/
structure Sound (f : Fragment) : Prop where
  keys : f.keys.Nodup
  places : f.places.Nodup
  ends : ∀ x ∈ f.edges, x.source < f.nodes.length ∧ x.target < f.nodes.length

/-- Every position of the first fragment denotes the same in the second. -/
structure Extends (f f' : Fragment) : Prop where
  identities : f.identities <+: f'.identities
  places : f.places <+: f'.places

theorem Extends.refl (f : Fragment) : f.Extends f := ⟨List.prefix_rfl, List.prefix_rfl⟩

theorem Extends.trans (h : f.Extends f') (h' : f'.Extends f'') : f.Extends f'' :=
  ⟨h.identities.trans h'.identities, h.places.trans h'.places⟩

theorem empty_sound : empty.Sound := ⟨List.nodup_nil, List.nodup_nil, by simp [empty]⟩

/-! ## Nodes -/

/-- A node of a key that is there is merged into the node of the key; any other goes to the end. -/
theorem addNode_cases (f : Fragment) (n : Node) :
    (n.isKeyed ∧ ∃ i m, f.nodes[i]? = some m ∧ m.identity = n.identity ∧
      f.addNode n = (i, { f with nodes := f.nodes.modify i (·.merge n) })) ∨
    ((∀ entry, n.identity = .keyed entry → entry ∉ f.keys) ∧
      f.addNode n = (f.nodes.length, { f with nodes := f.nodes ++ [n] })) := by
  unfold addNode
  cases hentry : n.identity with
  | unkeyed properties => exact .inr ⟨by simp, by simp [Identity.entry?]⟩
  | keyed entry =>
    simp only [Identity.entry?, Option.bind_some]
    cases hfind : f.nodes.findIdx? (·.identity == .keyed entry) with
    | some i =>
      obtain ⟨hi, hsame, -⟩ := List.findIdx?_eq_some_iff_getElem.1 hfind
      exact .inl ⟨Node.isKeyed_iff.2 ⟨entry, hentry⟩, i, f.nodes[i],
        List.getElem?_eq_getElem hi, by simpa using hsame, rfl⟩
    | none =>
      refine .inr ⟨?_, rfl⟩
      rintro _ ⟨rfl⟩ hmem
      obtain ⟨identity, hidentity, hkey⟩ := List.mem_filterMap.1 hmem
      obtain ⟨m, hm, rfl⟩ := List.mem_map.1 hidentity
      have hne : m.identity ≠ .keyed entry := by
        simpa using List.findIdx?_eq_none_iff.1 hfind m hm
      cases hm' : m.identity with
      | keyed other =>
        rw [hm', Identity.entry?, Option.some.injEq] at hkey
        exact hne (hkey ▸ hm')
      | unkeyed properties => simp [hm', Identity.entry?] at hkey

theorem addNode_edges (f : Fragment) (n : Node) : (f.addNode n).2.edges = f.edges := by
  obtain ⟨-, i, m, -, -, heq⟩ | ⟨-, heq⟩ := f.addNode_cases n <;> rw [heq]

theorem identities_modify (change : Node → Node) (h : ∀ n, (change n).identity = n.identity) :
    (f.modifyNode i change).identities = f.identities :=
  map_modify_eq h f.nodes i

theorem addNode_extends (f : Fragment) (n : Node) : f.Extends (f.addNode n).2 := by
  obtain ⟨-, i, m, -, -, heq⟩ | ⟨-, heq⟩ := f.addNode_cases n
  · rw [heq]
    exact ⟨(identities_modify (·.merge n) fun _ => rfl) ▸ List.prefix_rfl, List.prefix_rfl⟩
  · rw [heq]
    exact ⟨by simp [identities], List.prefix_rfl⟩

/-- The answer is where the node is. -/
theorem identities_addNode (f : Fragment) (n : Node) :
    (f.addNode n).2.identities[(f.addNode n).1]? = some n.identity := by
  obtain ⟨-, i, m, hm, hsame, heq⟩ | ⟨-, heq⟩ := f.addNode_cases n
  · have hidentities : (f.addNode n).2.identities = f.identities := by
      rw [heq]
      exact identities_modify (·.merge n) fun _ => rfl
    rw [hidentities, heq, identities, List.getElem?_map, hm, Option.map_some, hsame]
  · simp [heq, identities]

theorem Sound.addNode (h : f.Sound) (n : Node) : (f.addNode n).2.Sound := by
  obtain ⟨-, i, m, -, -, heq⟩ | ⟨hnew, heq⟩ := f.addNode_cases n
  · have hidentities : (f.addNode n).2.identities = f.identities := by
      rw [heq]
      exact identities_modify (·.merge n) fun _ => rfl
    refine ⟨?_, by rw [Fragment.places, addNode_edges]; exact h.places, ?_⟩
    · rw [Fragment.keys, hidentities]
      exact h.keys
    · rw [heq]
      simpa using h.ends
  · rw [heq]
    refine ⟨?_, h.places, fun x hx => ?_⟩
    · simp only [Fragment.keys, identities, List.map_append, List.map_singleton,
        List.filterMap_append] at hnew ⊢
      cases hentry : n.identity with
      | unkeyed properties =>
        rw [show List.filterMap Identity.entry? [.unkeyed properties] = [] from rfl, List.append_nil]
        exact h.keys
      | keyed entry =>
        rw [List.nodup_append_comm]
        exact List.nodup_cons.2 ⟨hnew entry hentry, h.keys⟩
    · have hends := h.ends x hx
      simp only [List.length_append, List.length_singleton]
      omega

/-! ## Edges -/

theorem checkNode_eq_ok : f.checkNode label i = .ok () ↔ i < f.nodes.length := by
  unfold checkNode
  split <;> simp_all

/-- An edge that is there is found, and any other between nodes goes to the end. -/
theorem addEdge_cases (h : f.addEdge source label target kind = .ok (i, f')) :
    source < f.nodes.length ∧ target < f.nodes.length ∧
      ((f.places[i]? = some (source, label, target, kind) ∧ f' = f) ∨
        ((source, label, target, kind) ∉ f.places ∧ i = f.edges.length ∧
          f' = { f with edges := f.edges ++ [⟨source, label, target, kind, ∅⟩] })) := by
  obtain ⟨_, hsource, h⟩ := Graph.bind_eq_ok.1 h
  obtain ⟨_, htarget, h⟩ := Graph.bind_eq_ok.1 h
  refine ⟨checkNode_eq_ok.1 hsource, checkNode_eq_ok.1 htarget, ?_⟩
  split at h
  · rename_i j hfind
    obtain ⟨rfl, rfl⟩ := Prod.mk.inj (Except.ok.inj h)
    obtain ⟨hj, hconnects, -⟩ := List.findIdx?_eq_some_iff_getElem.1 hfind
    refine .inl ⟨?_, rfl⟩
    rw [places, List.getElem?_map, List.getElem?_eq_getElem hj, Option.map_some,
      FragmentEdge.connects_iff.1 hconnects]
  · rename_i hfind
    obtain ⟨rfl, rfl⟩ := Prod.mk.inj (Except.ok.inj h)
    refine .inr ⟨fun hmem => ?_, rfl, rfl⟩
    obtain ⟨x, hx, hplace⟩ := List.mem_map.1 hmem
    have hnone := List.findIdx?_eq_none_iff.1 hfind x hx
    rw [FragmentEdge.connects_iff.2 hplace] at hnone
    cases hnone

/-- An edge is refused for its first end that is no node. -/
theorem addEdge_eq_error_iff : f.addEdge source label target kind = .error cause ↔
    (f.nodes.length ≤ source ∧ cause = .danglingEdge label source f.nodes.length) ∨
      (source < f.nodes.length ∧ f.nodes.length ≤ target ∧
        cause = .danglingEdge label target f.nodes.length) := by
  unfold addEdge checkNode
  by_cases hsource : source < f.nodes.length
  · by_cases htarget : target < f.nodes.length
    · simp only [hsource, htarget, if_true, bind, Except.bind, pure, Except.pure]
      cases f.edges.findIdx? (·.connects source label target kind) <;> simp <;> omega
    · simp only [hsource, htarget, if_true, if_false, bind, Except.bind, Except.error.injEq]
      constructor
      · rintro rfl
        exact .inr ⟨trivial, by omega, rfl⟩
      · rintro (h | h)
        · omega
        · exact h.2.2.symm
  · simp only [hsource, if_false, bind, Except.bind, Except.error.injEq]
    constructor
    · rintro rfl
      exact .inl ⟨by omega, rfl⟩
    · rintro (h | h)
      · exact h.2.symm
      · exact h.1.elim

theorem Sound.addEdge (h : f.Sound) (hadd : f.addEdge source label target kind = .ok (i, f')) :
    f'.Sound := by
  obtain ⟨hsource, htarget, ⟨-, rfl⟩ | ⟨hnew, -, rfl⟩⟩ := addEdge_cases hadd
  · exact h
  · refine ⟨h.keys, ?_, fun x hx => ?_⟩
    · simp only [Fragment.places, List.map_append, List.map_singleton] at hnew ⊢
      rw [List.nodup_append_comm]
      exact List.nodup_cons.2 ⟨hnew, h.places⟩
    · obtain hx | hx := List.mem_append.1 hx
      · exact h.ends x hx
      · rw [List.mem_singleton.1 hx]
        exact ⟨hsource, htarget⟩

theorem places_modify (change : FragmentEdge → FragmentEdge) (h : ∀ x, (change x).place = x.place) :
    (f.modifyEdge i change).places = f.places :=
  map_modify_eq h f.edges i

theorem addEdge_extends (hadd : f.addEdge source label target kind = .ok (i, f')) :
    f.Extends f' := by
  obtain ⟨-, -, ⟨-, rfl⟩ | ⟨-, -, rfl⟩⟩ := addEdge_cases hadd
  · exact .refl f'
  · exact ⟨List.prefix_rfl, by simp [places]⟩

theorem places_addEdge (hadd : f.addEdge source label target kind = .ok (i, f')) :
    f'.places[i]? = some (source, label, target, kind) := by
  obtain ⟨-, -, ⟨hplace, rfl⟩ | ⟨-, rfl, rfl⟩⟩ := addEdge_cases hadd
  · exact hplace
  · simp [places, FragmentEdge.place]

/-! ## Runs of additions -/

/-- A call that adds to a fragment. -/
inductive Addition where
  | node (n : Node)
  | edge (source : Nat) (label : String) (target : Nat) (kind : EdgeKind)

/-- Make an addition; one that is refused leaves the fragment as it was. -/
def extend (f : Fragment) : Addition → Except FragmentError Nat × Fragment
  | .node n => (.ok (f.addNode n).1, (f.addNode n).2)
  | .edge source label target kind =>
    match f.addEdge source label target kind with
    | .ok (i, f') => (.ok i, f')
    | .error cause => (.error cause, f)

def extendAll (f : Fragment) (additions : List Addition) : Fragment :=
  additions.foldl (fun f x => (f.extend x).2) f

/-- The position denotes what was added. -/
def Addition.At (f : Fragment) (i : Nat) : Addition → Prop
  | .node n => f.identities[i]? = some n.identity
  | .edge source label target kind => f.places[i]? = some (source, label, target, kind)

/-- The addition is an edge of which an end is no node; the first such end is told. -/
def Addition.Refused (f : Fragment) (cause : FragmentError) : Addition → Prop
  | .node _ => False
  | .edge source label target _ =>
    (f.nodes.length ≤ source ∧ cause = .danglingEdge label source f.nodes.length) ∨
      (source < f.nodes.length ∧ f.nodes.length ≤ target ∧
        cause = .danglingEdge label target f.nodes.length)

theorem Addition.At.extends {x : Addition} (h : x.At f i) (hf : f.Extends f') : x.At f' i := by
  have hkeep {α : Type} {xs ys : List α} {a : α} (hstart : xs <+: ys) (ha : xs[i]? = some a) :
      ys[i]? = some a := by
    obtain ⟨rest, rfl⟩ := hstart
    rw [List.getElem?_append_left (List.getElem?_eq_some_iff.1 ha).1, ha]
  cases x with
  | node n => exact hkeep hf.identities h
  | edge source label target kind => exact hkeep hf.places h

theorem extend_edge (f : Fragment) (source : Nat) (label : String) (target : Nat)
    (kind : EdgeKind) :
    (∃ i f', f.addEdge source label target kind = .ok (i, f') ∧
      f.extend (.edge source label target kind) = (.ok i, f')) ∨
    ∃ cause, f.addEdge source label target kind = .error cause ∧
      f.extend (.edge source label target kind) = (.error cause, f) := by
  simp only [extend]
  cases f.addEdge source label target kind with
  | ok answer => exact .inl ⟨answer.1, answer.2, rfl, rfl⟩
  | error cause => exact .inr ⟨cause, rfl, rfl⟩

theorem extend_extends (f : Fragment) (x : Addition) : f.Extends (f.extend x).2 := by
  cases x with
  | node n => exact f.addNode_extends n
  | edge source label target kind =>
    obtain ⟨i, f', hadd, heq⟩ | ⟨cause, -, heq⟩ := f.extend_edge source label target kind
    · rw [heq]
      exact addEdge_extends hadd
    · rw [heq]
      exact .refl f

theorem Sound.extend (h : f.Sound) (x : Addition) : (f.extend x).2.Sound := by
  cases x with
  | node n => exact h.addNode n
  | edge source label target kind =>
    obtain ⟨i, f', hadd, heq⟩ | ⟨cause, -, heq⟩ := f.extend_edge source label target kind
    · rw [heq]
      exact h.addEdge hadd
    · rw [heq]
      exact h

/-- An addition is answered by where it is, unless it is refused. -/
theorem extend_answer (f : Fragment) (x : Addition) :
    (∃ i, (f.extend x).1 = .ok i ∧ x.At (f.extend x).2 i) ∨
      ∃ cause, f.extend x = (.error cause, f) ∧ x.Refused f cause := by
  cases x with
  | node n => exact .inl ⟨_, rfl, f.identities_addNode n⟩
  | edge source label target kind =>
    obtain ⟨i, f', hadd, heq⟩ | ⟨cause, hadd, heq⟩ := f.extend_edge source label target kind
    · exact .inl ⟨i, by rw [heq], by rw [heq]; exact places_addEdge hadd⟩
    · exact .inr ⟨cause, heq, addEdge_eq_error_iff.1 hadd⟩

theorem extendAll_extends (f : Fragment) (additions : List Addition) :
    f.Extends (f.extendAll additions) := by
  induction additions generalizing f with
  | nil => exact .refl f
  | cons x additions ih => exact (f.extend_extends x).trans (ih _)

theorem Sound.extendAll (h : f.Sound) (additions : List Addition) :
    (f.extendAll additions).Sound := by
  induction additions generalizing f with
  | nil => exact h
  | cons x additions ih => exact ih (h.extend x)

/-! ## What holds of all nodes -/

theorem forall_addNode {P : Node → Prop} (h : ∀ m ∈ f.nodes, P m) (hn : P n)
    (hmerge : ∀ m, m.identity = n.identity → n.isKeyed → P m → P (m.merge n)) :
    ∀ m ∈ (f.addNode n).2.nodes, P m := by
  obtain ⟨hkeyed, i, m, hm, hsame, heq⟩ | ⟨-, heq⟩ := f.addNode_cases n
  · rw [heq]
    refine forall_mem_modify h fun x hx => ?_
    cases hm.symm.trans hx
    exact hmerge m hsame hkeyed
  · rw [heq]
    exact List.forall_mem_append.2 ⟨h, by simpa using hn⟩

theorem addEdge_nodes (hadd : f.addEdge source label target kind = .ok (i, f')) :
    f'.nodes = f.nodes := by
  obtain ⟨-, -, ⟨-, rfl⟩ | ⟨-, -, rfl⟩⟩ := addEdge_cases hadd <;> rfl

end Fragment

end QuadStore
