import Mathlib
import QuadStore.Proofs.Fragment.Applying
import QuadStore.Proofs.Fragment.Matching
import QuadStore.Proofs.Graph.Writing
/-!
# Merging adds the facts of a fragment

The nodes of a fragment play roles, which are names of vertices. Merging adds to a graph what the
fragment says of its roles, and leaves everything else as it was.
-/

namespace QuadStore

variable {ν : Type} {P : Placement ν} {F : Facts ν} {p q : ν} {entry : Entry}

/-! ## What a fragment says -/

namespace Identity

/-- What is said of a vertex by whose node it is. -/
def facts (p : ν) : Identity → Facts ν
  | keyed entry => {.vertex p, .property p entry, .key p entry}
  | unkeyed properties =>
    {f | f = .vertex p ∨ ∃ key value, (key, some value) ∈ properties ∧ f = .property p ⟨key, value⟩}

theorem vertex_mem_facts (identity : Identity) : .vertex p ∈ identity.facts p := by
  cases identity with
  | keyed entry => exact .inl rfl
  | unkeyed properties => exact .inl rfl

theorem vertex_of_facts {identity : Identity} (h : .vertex q ∈ identity.facts p) : q = p := by
  cases identity <;> simp_all [facts]

theorem grounded_of_facts {identity : Identity} {f : Fact ν (Bond ν)} (h : f ∈ identity.facts p) :
    f.Grounded (F ∪ identity.facts p) := by
  have hvertex : .vertex p ∈ F ∪ identity.facts p := .inr (vertex_mem_facts identity)
  cases identity with
  | keyed entry =>
    obtain rfl | rfl | rfl := h
    · trivial
    · exact hvertex
    · exact hvertex
  | unkeyed properties =>
    obtain rfl | ⟨key, value, -, rfl⟩ := h
    · trivial
    · exact hvertex

theorem map_keyed : Fact.map P '' (keyed entry).facts p =
    Fragment.keyedWritten (P.vertex p) entry := by
  simp only [facts, Fragment.keyedWritten, Set.image_insert_eq, Set.image_singleton, Fact.map]

theorem map_unkeyed {properties : List (String × Option String)} :
    Fact.map P '' (unkeyed properties).facts p = (unkeyed properties).written (P.vertex p) := by
  ext x
  constructor
  · rintro ⟨f, rfl | ⟨key, value, hmem, rfl⟩, rfl⟩
    · exact .inl rfl
    · exact .inr ⟨key, value, hmem, rfl⟩
  · rintro (rfl | ⟨key, value, hmem, rfl⟩)
    · exact ⟨_, .inl rfl, rfl⟩
    · exact ⟨_, .inr ⟨key, value, hmem, rfl⟩, rfl⟩

end Identity

namespace Node

/-- What is said of the vertex of a node beside its identity. -/
def contents (n : Node) (p : ν) : Facts ν :=
  {f | (∃ entry ∈ n.properties, f = .property p entry) ∨
    (∃ x ∈ n.guarded, f = .property p x.entry) ∨ ∃ x ∈ n.index, f = .indexed p x.entry}

theorem eq_of_contents {n : Node} {f : Fact ν (Bond ν)} (h : f ∈ n.contents p) :
    ∃ entry, f = .property p entry ∨ f = .indexed p entry := by
  rcases h with ⟨entry, -, rfl⟩ | ⟨x, -, rfl⟩ | ⟨x, -, rfl⟩
  · exact ⟨entry, .inl rfl⟩
  · exact ⟨x.entry, .inl rfl⟩
  · exact ⟨x.entry, .inr rfl⟩

theorem map_contents (n : Node) : Fact.map P '' n.contents p = n.written (P.vertex p) := by
  ext x
  constructor
  · rintro ⟨f, ⟨entry, hmem, rfl⟩ | ⟨y, hmem, rfl⟩ | ⟨y, hmem, rfl⟩, rfl⟩
    · exact .inl ⟨entry, hmem, rfl⟩
    · exact .inr (.inl ⟨y, hmem, rfl⟩)
    · exact .inr (.inr ⟨y, hmem, rfl⟩)
  · rintro (⟨entry, hmem, rfl⟩ | ⟨y, hmem, rfl⟩ | ⟨y, hmem, rfl⟩)
    · exact ⟨_, .inl ⟨entry, hmem, rfl⟩, rfl⟩
    · exact ⟨_, .inr (.inl ⟨y, hmem, rfl⟩), rfl⟩
    · exact ⟨_, .inr (.inr ⟨y, hmem, rfl⟩), rfl⟩

end Node

namespace FragmentEdge

def bond (e : FragmentEdge) (role : Nat → ν) : Bond ν := ⟨role e.source, e.label, role e.target⟩

def facts (e : FragmentEdge) (role : Nat → ν) : Facts ν :=
  {f | f = .bond (e.bond role) ∨ ∃ entry ∈ e.properties, f = .edgeProperty (e.bond role) entry}

theorem map_facts (e : FragmentEdge) (role : Nat → ν) : Fact.map P '' e.facts role =
    e.written (P.vertex (role e.source)) (P.vertex (role e.target)) (P.edge (e.bond role)) := by
  ext x
  constructor
  · rintro ⟨f, rfl | ⟨entry, hmem, rfl⟩, rfl⟩
    · exact .inl rfl
    · exact .inr ⟨entry, hmem, rfl⟩
  · rintro (rfl | ⟨entry, hmem, rfl⟩)
    · exact ⟨_, .inl rfl, rfl⟩
    · exact ⟨_, .inr ⟨entry, hmem, rfl⟩, rfl⟩

end FragmentEdge

namespace Fragment

/-- What is said of nodes by whose they are, with the indexes of the nodes. -/
def identityFacts (nodes : List (Node × Nat)) (role : Nat → ν) : Facts ν :=
  {x | ∃ y ∈ nodes, x ∈ y.1.identity.facts (role y.2)}

def keyedFacts (nodes : List (Node × Nat)) (role : Nat → ν) : Facts ν :=
  identityFacts (nodes.filter (·.1.isKeyed)) role

def contentFacts (nodes : List (Node × Nat)) (role : Nat → ν) : Facts ν :=
  {x | ∃ y ∈ nodes, x ∈ y.1.contents (role y.2)}

def edgeFacts (edges : List FragmentEdge) (role : Nat → ν) : Facts ν :=
  {x | ∃ e ∈ edges, x ∈ e.facts role}

/-- Everything a fragment says once its nodes play their roles. -/
def facts (f : Fragment) (role : Nat → ν) : Facts ν :=
  identityFacts f.nodes.zipIdx role ∪ contentFacts f.nodes.zipIdx role ∪ edgeFacts f.edges role

theorem identityFacts_cons {y : Node × Nat} {rest : List (Node × Nat)} {role : Nat → ν} :
    identityFacts (y :: rest) role = y.1.identity.facts (role y.2) ∪ identityFacts rest role := by
  ext x
  simp only [identityFacts, List.mem_cons, exists_eq_or_imp, Set.mem_ofPred_eq, Set.mem_union]

theorem keyedFacts_cons {y : Node × Nat} {rest : List (Node × Nat)} {role : Nat → ν} :
    keyedFacts (y :: rest) role =
      if y.1.isKeyed then y.1.identity.facts (role y.2) ∪ keyedFacts rest role
      else keyedFacts rest role := by
  unfold keyedFacts
  rw [List.filter_cons]
  split
  · exact identityFacts_cons
  · rfl

end Fragment

/-! ## Names with identities -/

/-- Every vertex is known by the identity of its name, and no other by its key. -/
structure Settled (identity : ν → Identity) (F : Facts ν) : Prop where
  facts : ∀ p, .vertex p ∈ F → (identity p).facts p ⊆ F
  key : ∀ p entry, .key p entry ∈ F → identity p = .keyed entry

/-- A key belongs to one name. -/
def KeyedOnce (identity : ν → Identity) : Prop :=
  ∀ p q entry, identity p = .keyed entry → identity q = .keyed entry → p = q

namespace Settled

variable {identity : ν → Identity} {F' : Facts ν}

theorem union (h : Settled identity F) (h' : Settled identity F') : Settled identity (F ∪ F') where
  facts p := by
    rintro (hp | hp)
    · exact (h.facts p hp).trans Set.subset_union_left
    · exact (h'.facts p hp).trans Set.subset_union_right
  key p entry := by
    rintro (hp | hp)
    · exact h.key p entry hp
    · exact h'.key p entry hp

theorem identityFacts (p : ν) : Settled identity ((identity p).facts p) where
  facts q hq := by rw [Identity.vertex_of_facts hq]
  key q entry hq := by
    cases hi : identity p with
    | keyed other => simp_all [Identity.facts]
    | unkeyed properties => simp [hi, Identity.facts] at hq

theorem key_mem (h : Settled identity F) (hp : .vertex p ∈ F) (hi : identity p = .keyed entry) :
    .key p entry ∈ F := by
  refine h.facts p hp ?_
  rw [hi]
  exact .inr (.inr rfl)

end Settled

namespace Fragment

variable {g : Graph} {identity : ν → Identity}

/-! ## Nodes and edges -/

theorem mergeNode_yields (h : g.Shows P F) (hp : .vertex p ∈ F) (n : Node) :
    Yields (mergeNode (P.vertex p) n) g fun _ g' => g'.Shows P (F ∪ n.contents p) := by
  refine (mergeNode_gains h.wellFormed (h.vertex_mem hp)).mono fun _ g' hgains => ?_
  refine h.gains (hgains.congr n.map_contents.symm) (fun f hf => ?_) fun q hq => ?_
  · obtain ⟨entry, rfl | rfl⟩ := Node.eq_of_contents hf <;> exact .inl hp
  · obtain ⟨entry, heq | heq⟩ := Node.eq_of_contents hq <;> cases heq

theorem mergeEdge_yields [DecidableEq ν] (h : g.Shows P F) {e : FragmentEdge} {role : Nat → ν}
    (hp : .vertex (role e.source) ∈ F) (hq : .vertex (role e.target) ∈ F) :
    Yields (mergeEdge (P.vertex (role e.source)) (P.vertex (role e.target)) e) g fun _ g' =>
      ∃ P' : Placement ν, P'.Extends P F ∧ g'.Shows P' (F ∪ e.facts role) := by
  refine (mergeEdge_gains h.wellFormed (h.vertex_mem hp) (h.vertex_mem hq)).mono ?_
  rintro created g' ⟨d, hfound, hgains⟩
  have hplaced : ∃ P' : Placement ν, P'.Extends P F ∧ P'.edge (e.bond role) = d := by
    by_cases hb : .bond (e.bond role) ∈ F
    · have hkept := hgains.findEdge h.wellFormed (h.findEdge?_of_bond hb)
      exact ⟨P, .refl, Option.some.inj (hkept.symm.trans hfound)⟩
    · exact Placement.exists_edge hb d
  obtain ⟨P', hP', rfl⟩ := hplaced
  rw [← hP'.vertex _ hp, ← hP'.vertex _ hq, ← e.map_facts role] at hgains
  refine ⟨P', hP', (h.extend hP').gains hgains ?_ fun q hq => ?_⟩
  · rintro f (rfl | ⟨entry, -, rfl⟩)
    · exact ⟨rfl, .inl hp, .inl hq⟩
    · exact .inr (.inl rfl)
  · obtain heq | ⟨entry, -, heq⟩ := hq <;> cases heq

/-! ## Vertices for nodes -/

section Vertices

variable [DecidableEq ν] {f : Fragment} {role : Nat → ν}

theorem findOrCreateKeyed_yields (h : g.Shows P F) (hs : Settled identity F)
    (honce : KeyedOnce identity) (hi : identity p = .keyed entry) :
    Yields (findOrCreateKeyed entry) g fun r g' => ∃ P' : Placement ν, P'.Extends P F ∧
      P'.vertex p = r.1 ∧ g'.Shows P' (F ∪ (identity p).facts p) := by
  refine (findOrCreateKeyed_gains h.wellFormed).mono ?_
  rintro ⟨v, created⟩ g' ⟨-, ⟨hlookup, hgains⟩ | ⟨hnone, hnew, hgains⟩⟩
  · obtain ⟨q, hq, rfl⟩ := h.lookup?_eq_some.1 hlookup
    obtain rfl := honce p q entry hi (hs.key q entry hq)
    have hknown : (identity p).facts p ⊆ F := hs.facts p (h.grounded _ hq)
    rw [hgains.same (Set.empty_subset _)]
    exact ⟨P, .refl, rfl, h.congr (Set.union_eq_left.2 hknown).symm⟩
  · have hp : .vertex p ∉ F := fun hp => h.lookup?_eq_none.1 hnone p (hs.key_mem hp hi)
    obtain ⟨P', hP', rfl⟩ := Placement.exists_vertex hp v
    rw [← Identity.map_keyed] at hgains
    refine ⟨P', hP', rfl, ?_⟩
    rw [hi]
    exact (h.extend hP').gains_vertex hgains (fun _ => Identity.grounded_of_facts) hnew
      fun _ => Identity.vertex_of_facts

theorem createUnkeyed_yields {properties : List (String × Option String)} (h : g.Shows P F)
    (hp : .vertex p ∉ F) :
    Yields (createUnkeyed properties) g fun v g' => ∃ P' : Placement ν, P'.Extends P F ∧
      P'.vertex p = v ∧ g'.Shows P' (F ∪ (Identity.unkeyed properties).facts p) := by
  refine (createUnkeyed_gains h.wellFormed).mono ?_
  rintro v g' ⟨hnew, hgains⟩
  obtain ⟨P', hP', rfl⟩ := Placement.exists_vertex hp v
  rw [← Identity.map_unkeyed] at hgains
  exact ⟨P', hP', rfl, (h.extend hP').gains_vertex hgains (fun _ => Identity.grounded_of_facts) hnew
    fun _ => Identity.vertex_of_facts⟩

/-- The nodes have the identities of their roles, each role is played once, and every edge connects
nodes. -/
structure Casts (f : Fragment) (identity : ν → Identity) (role : Nat → ν) : Prop where
  identity : ∀ (i : Nat) (n : Node), f.nodes[i]? = some n → n.identity = identity (role i)
  injective : ∀ i j, i < f.nodes.length → j < f.nodes.length → role i = role j → i = j
  ends : ∀ e ∈ f.edges, e.source < f.nodes.length ∧ e.target < f.nodes.length

/-- An assignment of the keyed nodes, and of no others, to the vertices of their roles. -/
structure AssignsKeyed (f : Fragment) (role : Nat → ν) (P : Placement ν) (a : Assignment) :
    Prop where
  keyed : ∀ (i : Nat) (n : Node), f.nodes[i]? = some n → n.isKeyed →
    a[i]? = some (P.vertex (role i))
  only : ∀ i ∈ a, ∃ n, f.nodes[i]? = some n ∧ n.isKeyed

/-- How far the keyed nodes are assigned while some are still to come: what has been said and what
they are going to say is what all of them say. -/
structure AssigningKeyed (f : Fragment) (identity : ν → Identity) (role : Nat → ν) (F : Facts ν)
    (rest : List (Node × Nat)) (a : Assignment) (P' : Placement ν) (F' : Facts ν) : Prop where
  base : F ⊆ F'
  settled : Settled identity F'
  total : F' ∪ keyedFacts rest role = F ∪ keyedFacts f.nodes.zipIdx role
  keyed : ∀ y ∈ f.nodes.zipIdx, y.1.isKeyed →
    y ∈ rest ∨ (.vertex (role y.2) ∈ F' ∧ a[y.2]? = some (P'.vertex (role y.2)))
  only : ∀ i ∈ a, ∃ n, f.nodes[i]? = some n ∧ n.isKeyed

namespace AssigningKeyed

variable {rest : List (Node × Nat)} {a : Assignment} {P' P'' : Placement ν} {F' : Facts ν}
  {y : Node × Nat} {n : Node} {i : Nat}

omit [DecidableEq ν]

theorem start (hs : Settled identity F) :
    f.AssigningKeyed identity role F f.nodes.zipIdx ∅ P F where
  base := subset_rfl
  settled := hs
  total := rfl
  keyed _ hy _ := .inl hy
  only := by simp

theorem skip (h : f.AssigningKeyed identity role F (y :: rest) a P' F') (hy : y.1.isKeyed = false) :
    f.AssigningKeyed identity role F rest a P' F' where
  base := h.base
  settled := h.settled
  total := by
    rw [← h.total, keyedFacts_cons, hy]
    rfl
  keyed z hz hk := by
    refine (h.keyed z hz hk).imp_left fun hin => ?_
    obtain rfl | hin := List.mem_cons.1 hin
    · rw [hy] at hk
      cases hk
    · exact hin
  only := h.only

theorem step (h : f.AssigningKeyed identity role F ((n, i) :: rest) a P' F')
    (hn : f.nodes[i]? = some n) (hk : n.isKeyed) (hidentity : n.identity = identity (role i))
    (hP : P''.Extends P' F') :
    f.AssigningKeyed identity role F rest (a.insert i (P''.vertex (role i))) P''
      (F' ∪ (identity (role i)).facts (role i)) where
  base := h.base.trans Set.subset_union_left
  settled := h.settled.union (.identityFacts _)
  total := by
    rw [← h.total, keyedFacts_cons, if_pos hk, ← hidentity, Set.union_assoc]
  keyed z hz hkz := by
    have hself : (a.insert i (P''.vertex (role i)))[i]? = some (P''.vertex (role i)) :=
      Std.ExtTreeMap.getElem?_insert_self
    obtain hin | ⟨hvertex, hassigned⟩ := h.keyed z hz hkz
    · obtain rfl | hin := List.mem_cons.1 hin
      · exact .inr ⟨.inr (Identity.vertex_mem_facts _), hself⟩
      · exact .inl hin
    · obtain ⟨m, j⟩ := z
      refine .inr ⟨.inl hvertex, ?_⟩
      by_cases hij : i = j
      · subst hij
        exact hself
      · simp only [Std.ExtTreeMap.getElem?_insert, Std.compare_eq_iff_eq, hij, if_false, hassigned,
          hP.vertex _ hvertex]
  only j hj := by
    rw [Std.ExtTreeMap.mem_insert, Std.compare_eq_iff_eq] at hj
    obtain rfl | hj := hj
    · exact ⟨n, hn, hk⟩
    · exact h.only j hj

theorem done (h : f.AssigningKeyed identity role F [] a P' F') :
    F' = F ∪ keyedFacts f.nodes.zipIdx role ∧ f.AssignsKeyed role P' a := by
  refine ⟨?_, fun i n hn hk => ?_, h.only⟩
  · rw [← h.total]
    simp [keyedFacts, identityFacts]
  · obtain hnil | hassigned := h.keyed (n, i) (List.mem_zipIdx_iff_getElem?.2 hn) hk
    · cases hnil
    · exact hassigned.2

end AssigningKeyed

theorem assignKeyed_yields (h : g.Shows P F) (hs : Settled identity F) (honce : KeyedOnce identity)
    (hf : f.Casts identity role) :
    Yields f.assignKeyed g fun r g' => ∃ P' : Placement ν, P'.Extends P F ∧
      Settled identity (F ∪ keyedFacts f.nodes.zipIdx role) ∧ f.AssignsKeyed role P' r.1 ∧
      g'.Shows P' (F ∪ keyedFacts f.nodes.zipIdx role) := by
  let I (rest : List (Node × Nat)) (r : Assignment × Nat) (g' : Graph) : Prop :=
    ∃ (P' : Placement ν) (F' : Facts ν), P'.Extends P F ∧ g'.Shows P' F' ∧
      f.AssigningKeyed identity role F rest r.1 P' F'
  have hstart : I f.nodes.zipIdx (∅, 0) g := ⟨P, F, .refl, h, .start hs⟩
  refine (Yields.foldlM (I := I) ?_ hstart).mono ?_
  · rintro ⟨n, i⟩ hmem rest ⟨a, created⟩ g' ⟨P', F', hP', h', hsofar⟩
    have hn : f.nodes[i]? = some n := List.mem_zipIdx_iff_getElem?.1 hmem
    have hidentity := hf.identity i n hn
    simp only
    cases hi : n.identity with
    | unkeyed properties =>
      have hk := Node.isKeyed_eq_false_iff.2 ⟨_, hi⟩
      exact Yields.pure ⟨P', F', hP', h', hsofar.skip hk⟩
    | keyed entry =>
      have hk := Node.isKeyed_iff.2 ⟨_, hi⟩
      refine (findOrCreateKeyed_yields h' hsofar.settled honce (hidentity.symm.trans hi)).bind ?_
      rintro ⟨v, more⟩ g'' ⟨P'', hP'', rfl, h''⟩
      exact Yields.pure ⟨P'', _, hP''.trans hP' hsofar.base, h'', hsofar.step hn hk hidentity hP''⟩
  · rintro ⟨a, created⟩ g' ⟨P', F', hP', h', hsofar⟩
    obtain ⟨rfl, hassigns⟩ := hsofar.done
    exact ⟨P', hP', hsofar.settled, hassigns, h'⟩

/-- How far the other nodes have got their vertices: each node to come has the one of its role, or
its role has none yet. -/
structure Completing (f : Fragment) (identity : ν → Identity) (role : Nat → ν) (F : Facts ν)
    (rest : List (Node × Nat)) (a : Assignment) (P' : Placement ν) (F' : Facts ν) : Prop where
  base : F ⊆ F'
  settled : Settled identity F'
  total : F' ∪ identityFacts rest role = F ∪ identityFacts f.nodes.zipIdx role
  indexes : (rest.map (·.2)).Nodup
  done : ∀ y ∈ f.nodes.zipIdx,
    y ∈ rest ∨ (.vertex (role y.2) ∈ F' ∧ a[y.2]? = some (P'.vertex (role y.2)))
  waiting : ∀ y ∈ rest, y ∈ f.nodes.zipIdx ∧
    (.vertex (role y.2) ∈ F' ∧ a[y.2]? = some (P'.vertex (role y.2)) ∨
      .vertex (role y.2) ∉ F' ∧ a[y.2]? = none ∧ y.1.isKeyed = false)

namespace Completing

variable {rest : List (Node × Nat)} {a : Assignment} {P' P'' : Placement ν} {F' : Facts ν}
  {n : Node} {i : Nat}

omit [DecidableEq ν]

theorem start (hs : Settled identity F)
    (hplaced : ∀ (i : Nat) (n : Node), f.nodes[i]? = some n →
      .vertex (role i) ∈ F ∧ a[i]? = some (P.vertex (role i)) ∨
        .vertex (role i) ∉ F ∧ a[i]? = none ∧ n.isKeyed = false) :
    f.Completing identity role F f.nodes.zipIdx a P F where
  base := subset_rfl
  settled := hs
  total := rfl
  indexes := by
    rw [List.zipIdx_map_snd]
    exact List.nodup_range'
  done _ hy := .inl hy
  waiting y hy := ⟨hy, hplaced y.2 y.1 (List.mem_zipIdx_iff_getElem?.1 hy)⟩

theorem skip (h : f.Completing identity role F ((n, i) :: rest) a P' F')
    (hidentity : n.identity = identity (role i)) (hvertex : .vertex (role i) ∈ F')
    (hassigned : a[i]? = some (P'.vertex (role i))) :
    f.Completing identity role F rest a P' F' where
  base := h.base
  settled := h.settled
  total := by
    have hknown : n.identity.facts (role i) ⊆ F' := hidentity ▸ h.settled.facts _ hvertex
    rw [← h.total, identityFacts_cons, ← Set.union_assoc, Set.union_eq_left.2 hknown]
  indexes := (List.nodup_cons.1 h.indexes).2
  done z hz := by
    refine (h.done z hz).elim (fun hin => ?_) .inr
    obtain rfl | hin := List.mem_cons.1 hin
    · exact .inr ⟨hvertex, hassigned⟩
    · exact .inl hin
  waiting z hz := h.waiting z (List.mem_cons_of_mem _ hz)

theorem step (h : f.Completing identity role F ((n, i) :: rest) a P' F')
    (hf : f.Casts identity role) (hn : f.nodes[i]? = some n) (hP : P''.Extends P' F') :
    f.Completing identity role F rest (a.insert i (P''.vertex (role i))) P''
      (F' ∪ n.identity.facts (role i)) where
  base := h.base.trans Set.subset_union_left
  settled := by
    rw [hf.identity i n hn]
    exact h.settled.union (.identityFacts _)
  total := by rw [← h.total, identityFacts_cons, Set.union_assoc]
  indexes := (List.nodup_cons.1 h.indexes).2
  done z hz := by
    have hself : (a.insert i (P''.vertex (role i)))[i]? = some (P''.vertex (role i)) :=
      Std.ExtTreeMap.getElem?_insert_self
    obtain hin | ⟨hvertex, hassigned⟩ := h.done z hz
    · obtain rfl | hin := List.mem_cons.1 hin
      · exact .inr ⟨.inr (Identity.vertex_mem_facts _), hself⟩
      · exact .inl hin
    · obtain ⟨m, j⟩ := z
      refine .inr ⟨.inl hvertex, ?_⟩
      by_cases hij : i = j
      · subst hij
        exact hself
      · simp only [Std.ExtTreeMap.getElem?_insert, Std.compare_eq_iff_eq, hij, if_false, hassigned,
          hP.vertex _ hvertex]
  waiting z hz := by
    obtain ⟨hmem, hz'⟩ := h.waiting z (List.mem_cons_of_mem _ hz)
    have hne : i ≠ z.2 := fun heq =>
      (List.nodup_cons.1 h.indexes).1 (List.mem_map.2 ⟨z, hz, heq.symm⟩)
    have hget : (a.insert i (P''.vertex (role i)))[z.2]? = a[z.2]? := by
      simp [Std.ExtTreeMap.getElem?_insert, hne]
    refine ⟨hmem, hz'.imp (fun hplaced => ?_) fun hwaiting => ?_⟩
    · rw [hget, hP.vertex _ hplaced.1]
      exact ⟨.inl hplaced.1, hplaced.2⟩
    · rw [hget]
      refine ⟨?_, hwaiting.2⟩
      rintro (hvertex | hvertex)
      · exact hwaiting.1 hvertex
      · have hrole : role z.2 = role i := Identity.vertex_of_facts hvertex
        have hi := (List.getElem?_eq_some_iff.1 hn).1
        have hj := (List.getElem?_eq_some_iff.1 (List.mem_zipIdx_iff_getElem?.1 hmem)).1
        exact hne (hf.injective _ _ hj hi hrole).symm

end Completing

/-- Every node is assigned the vertex of its role. -/
def AssignsAll (f : Fragment) (role : Nat → ν) (P : Placement ν) (F : Facts ν) (a : Assignment) :
    Prop :=
  ∀ (i : Nat) (n : Node), f.nodes[i]? = some n →
    .vertex (role i) ∈ F ∧ a[i]? = some (P.vertex (role i))

theorem createMissing_yields {a : Assignment} (h : g.Shows P F) (hs : Settled identity F)
    (hf : f.Casts identity role)
    (hplaced : ∀ (i : Nat) (n : Node), f.nodes[i]? = some n →
      .vertex (role i) ∈ F ∧ a[i]? = some (P.vertex (role i)) ∨
        .vertex (role i) ∉ F ∧ a[i]? = none ∧ n.isKeyed = false) :
    Yields (f.createMissing a) g fun r g' => ∃ P' : Placement ν, P'.Extends P F ∧
      f.AssignsAll role P' (F ∪ identityFacts f.nodes.zipIdx role) r.1 ∧
      g'.Shows P' (F ∪ identityFacts f.nodes.zipIdx role) := by
  let I (rest : List (Node × Nat)) (r : Assignment × Nat) (g' : Graph) : Prop :=
    ∃ (P' : Placement ν) (F' : Facts ν), P'.Extends P F ∧ g'.Shows P' F' ∧
      f.Completing identity role F rest r.1 P' F'
  have hstart : I f.nodes.zipIdx (a, 0) g := ⟨P, F, .refl, h, .start hs hplaced⟩
  refine (Yields.foldlM (I := I) ?_ hstart).mono ?_
  · rintro ⟨n, i⟩ hmem rest ⟨a, created⟩ g' ⟨P', F', hP', h', hsofar⟩
    have hn : f.nodes[i]? = some n := List.mem_zipIdx_iff_getElem?.1 hmem
    simp only
    obtain ⟨hvertex, hassigned⟩ | ⟨hvertex, hnone, hk⟩ :=
      (hsofar.waiting (n, i) (List.mem_cons_self ..)).2
    · simp only at hassigned
      rw [hassigned]
      exact Yields.pure ⟨P', F', hP', h', hsofar.skip (hf.identity i n hn) hvertex hassigned⟩
    · simp only at hnone
      rw [hnone]
      obtain ⟨properties, hi⟩ : ∃ properties, n.identity = .unkeyed properties :=
        Node.isKeyed_eq_false_iff.1 hk
      simp only [hi]
      refine (createUnkeyed_yields h' hvertex).bind ?_
      rintro _ g'' ⟨P'', hP'', rfl, h''⟩
      rw [← hi] at h''
      exact Yields.pure ⟨P'', _, hP''.trans hP' hsofar.base, h'', hsofar.step hf hn hP''⟩
  · rintro ⟨a, created⟩ g' ⟨P', F', hP', h', hsofar⟩
    have hall : F' = F ∪ identityFacts f.nodes.zipIdx role := by
      rw [← hsofar.total]
      simp [identityFacts]
    subst hall
    refine ⟨P', hP', fun i n hn => ?_, h'⟩
    obtain hnil | hdone := hsofar.done (n, i) (List.mem_zipIdx_iff_getElem?.2 hn)
    · cases hnil
    · exact hdone

/-! ## The whole fragment -/

omit [DecidableEq ν] in
theorem mergeNodes_yields {a : Assignment} (h : g.Shows P F) (ha : f.AssignsAll role P F a) :
    Yields (f.mergeNodes a) g fun _ g' =>
      g'.Shows P (F ∪ contentFacts f.nodes.zipIdx role) := by
  refine h.forM fun y hy F' g' hF h' => ?_
  obtain ⟨n, i⟩ := y
  obtain ⟨hvertex, hassigned⟩ := ha i n (List.mem_zipIdx_iff_getElem?.1 hy)
  simp only [hassigned]
  exact mergeNode_yields h' (hF hvertex) n

theorem mergeEdges_yields {a : Assignment} (h : g.Shows P F) (hf : f.Casts identity role)
    (ha : f.AssignsAll role P F a) :
    Yields (f.mergeEdges a) g fun _ g' => ∃ P' : Placement ν, P'.Extends P F ∧
      g'.Shows P' (F ∪ edgeFacts f.edges role) := by
  have hplaced : ∀ i, i < f.nodes.length →
      .vertex (role i) ∈ F ∧ a[i]? = some (P.vertex (role i)) := fun i hi =>
    ha i _ (List.getElem?_eq_getElem hi)
  let I (rest : List FragmentEdge) (_ : Nat) (g' : Graph) : Prop :=
    ∃ (P' : Placement ν) (F' : Facts ν), P'.Extends P F ∧ F ⊆ F' ∧ g'.Shows P' F' ∧
      F' ∪ edgeFacts rest role = F ∪ edgeFacts f.edges role
  have hstart : I f.edges 0 g := ⟨P, F, .refl, subset_rfl, h, rfl⟩
  refine (Yields.foldlM (I := I) ?_ hstart).mono ?_
  · rintro e he rest created g' ⟨P', F', hP', hF', h', htotal⟩
    obtain ⟨hsource, hassigned⟩ := hplaced _ (hf.ends e he).1
    obtain ⟨htarget, hassigned'⟩ := hplaced _ (hf.ends e he).2
    simp only [hassigned, hassigned', ← hP'.vertex _ hsource, ← hP'.vertex _ htarget]
    refine (mergeEdge_yields h' (hF' hsource) (hF' htarget)).bind ?_
    rintro more g'' ⟨P'', hP'', h''⟩
    refine Yields.pure ⟨P'', _, hP''.trans hP' hF', hF'.trans Set.subset_union_left, h'', ?_⟩
    rw [← htotal]
    ext x
    simp only [edgeFacts, Set.mem_union, Set.mem_ofPred_eq, List.mem_cons, exists_eq_or_imp, or_assoc]
  · rintro created g' ⟨P', F', hP', hF', h', htotal⟩
    refine ⟨P', hP', h'.congr ?_⟩
    rw [← htotal]
    simp [edgeFacts]

/-- Either all unkeyed nodes are found where their roles are, or none of their roles is there. -/
def Resolves (f : Fragment) (g : Graph) (role : Nat → ν) (P : Placement ν) (F : Facts ν)
    (a : Assignment) : Prop :=
  (∃ a', f.solve g a = some a' ∧ f.AssignsAll role P F a') ∨
    (f.solve g a = none ∧
      ∀ (i : Nat) (n : Node), f.nodes[i]? = some n → n.isKeyed = false → .vertex (role i) ∉ F)

omit [DecidableEq ν] in
/-- After the search a node is assigned the vertex of its role, or its role is still to be created. -/
theorem Resolves.placed {a : Assignment} (h : f.Resolves g role P F a)
    (hkeyed : f.AssignsKeyed role P a)
    (hthere : ∀ (i : Nat) (n : Node), f.nodes[i]? = some n → n.isKeyed → .vertex (role i) ∈ F) :
    ∀ (i : Nat) (n : Node), f.nodes[i]? = some n →
      .vertex (role i) ∈ F ∧ ((f.solve g a).getD a)[i]? = some (P.vertex (role i)) ∨
        .vertex (role i) ∉ F ∧ ((f.solve g a).getD a)[i]? = none ∧ n.isKeyed = false := by
  intro i n hn
  obtain ⟨a', hsolve, hall⟩ | ⟨hsolve, hnone⟩ := h
  · rw [hsolve]
    exact .inl (hall i n hn)
  · rw [hsolve, Option.getD_none]
    cases hk : n.isKeyed with
    | true => exact .inl ⟨hthere i n hn hk, hkeyed.keyed i n hn hk⟩
    | false =>
      refine .inr ⟨hnone i n hn hk, Std.ExtTreeMap.getElem?_eq_none fun hmem => ?_, rfl⟩
      obtain ⟨m, hm, hk'⟩ := hkeyed.only i hmem
      rw [hn] at hm
      cases hm
      rw [hk] at hk'
      cases hk'

/-- Merging adds what the fragment says of its roles, and hands on the texts of its nodes. -/
theorem mergeInto_yields (h : g.Shows P F) (hs : Settled identity F) (honce : KeyedOnce identity)
    (hf : f.Casts identity role)
    (hresolves : ∀ (g' : Graph) (P' : Placement ν) (a : Assignment), P'.Extends P F →
      g'.Shows P' (F ∪ keyedFacts f.nodes.zipIdx role) → f.AssignsKeyed role P' a →
      f.Resolves g' role P' (F ∪ keyedFacts f.nodes.zipIdx role) a) :
    Yields f.mergeInto g fun x g' => ∃ (P' : Placement ν) (a : Assignment), P'.Extends P F ∧
      g'.Shows P' (F ∪ f.facts role) ∧ x.2 = f.mergedTexts a ∧
      ∀ (i : Nat) (n : Node), f.nodes[i]? = some n → a[i]? = some (P'.vertex (role i)) := by
  unfold mergeInto
  refine (assignKeyed_yields h hs honce hf).bind ?_
  rintro ⟨keyed, createdKeyed⟩ g₁ ⟨P₁, hP₁, hs₁, hkeyed, h₁⟩
  refine Yields.graph_bind ?_
  have hplaced := (hresolves g₁ P₁ keyed hP₁ h₁ hkeyed).placed hkeyed fun i n hn hk =>
    .inr ⟨(n, i), List.mem_filter.2 ⟨List.mem_zipIdx_iff_getElem?.2 hn, hk⟩,
      Identity.vertex_mem_facts _⟩
  refine (createMissing_yields h₁ hs₁ hf hplaced).bind ?_
  rintro ⟨a, createdUnkeyed⟩ g₂ ⟨P₂, hP₂, ha, h₂⟩
  refine (mergeNodes_yields h₂ ha).bind fun _ g₃ h₃ => ?_
  have ha₃ : f.AssignsAll role P₂ (F ∪ keyedFacts f.nodes.zipIdx role ∪
      identityFacts f.nodes.zipIdx role ∪ contentFacts f.nodes.zipIdx role) a := fun i n hn =>
    ⟨.inl (ha i n hn).1, (ha i n hn).2⟩
  refine (mergeEdges_yields h₃ hf ha₃).bind ?_
  rintro createdEdges g₄ ⟨P₄, hP₄, h₄⟩
  have hsub : F ⊆ F ∪ keyedFacts f.nodes.zipIdx role := Set.subset_union_left
  refine Yields.pure ⟨P₄, a, (hP₄.trans (hP₂.trans hP₁ hsub) ?_), h₄.congr ?_, rfl, fun i n hn => ?_⟩
  · exact (hsub.trans Set.subset_union_left).trans Set.subset_union_left
  · have hkeyedFacts : (keyedFacts f.nodes.zipIdx role : Facts ν) ⊆
        identityFacts f.nodes.zipIdx role := fun x ⟨y, hy, hx⟩ =>
      ⟨y, (List.mem_filter.1 hy).1, hx⟩
    rw [Set.union_assoc F, Set.union_eq_right.2 hkeyedFacts, facts]
    simp only [Set.union_assoc]
  · rw [(ha₃ i n hn).2, hP₄.vertex _ (ha₃ i n hn).1]

end Vertices

end Fragment

end QuadStore
