import Mathlib
import QuadStore.Proofs.Fragment.Searching
import QuadStore.Proofs.Fragment.Staging
import QuadStore.Proofs.Graph.History
/-!
# The first match

Where structural edges lead from every pending node to a vertex of the graph, the search in place
finds a match if there is one. What it finds comes first among all matches: the nodes are taken in
the order in which they become anchored, and vertices are preferred by the age of their edges.
-/

namespace QuadStore

namespace Fragment

variable {f : Fragment} {g : Graph} {pending : List Nat} {a a' b : Assignment} {i j : Nat}
  {u v w : VertexId} {l : Link}

/-! ## Matches -/

/-- A structural edge joins the nodes, in one direction or the other. -/
def Adjacent (f : Fragment) (i j : Nat) : Prop :=
  ∃ x ∈ f.edges, x.kind = .structural ∧
    ((x.source = i ∧ x.target = j) ∨ (x.source = j ∧ x.target = i))

/-- Structural edges lead from the node, over pending nodes, to one that stands for a vertex of the
graph. -/
inductive Connected (f : Fragment) (g : Graph) (a : Assignment) : Nat → Prop where
  | assigned {i j : Nat} {v : VertexId} (adjacent : f.Adjacent i j) (assigned : a[j]? = some v)
      (vertex : v ∈ g.vertices) : Connected f g a i
  | pending {i j : Nat} (adjacent : f.Adjacent i j) (pending : j ∈ f.pending a)
      (rest : Connected f g a j) : Connected f g a i

/-- The second assignment completes the first with vertices that are as the fragment wants them. -/
structure Matches (f : Fragment) (g : Graph) (a b : Assignment) : Prop where
  kept : ∀ i, i ∉ f.pending a → b[i]? = a[i]?
  vertex : ∀ i ∈ f.pending a, ∃ v ∈ g.vertices, b[i]? = some v
  identity : ∀ i ∈ f.pending a, ∀ n properties v, f.nodes[i]? = some n →
    n.identity = .unkeyed properties → b[i]? = some v →
      ∀ p ∈ properties, ∀ value, ⟨p.1, value⟩ ∈ g.propertiesOf v ↔ p.2 = some value
  distinct : ∀ i ∈ f.pending a, ∀ j ∈ f.pending a, b[i]? = b[j]? → i = j
  new : ∀ i ∈ f.pending a, ∀ (j : Nat) (v : VertexId), a[j]? = some v → b[i]? ≠ some v
  edges : ∀ x ∈ f.edges, x.kind = .structural →
    (x.source ∈ f.pending a ∨ x.target ∈ f.pending a) →
      ∀ v w : VertexId, b[x.source]? = some v → b[x.target]? = some w →
        ∃ (e : EdgeId) (y : Edge), g.edges[e]? = some y ∧ y.source = v ∧ y.label = x.label ∧
          y.target = w

theorem adjacent_iff : f.Adjacent i j ↔ ∃ l ∈ f.links i, l.neighbour = j := by
  constructor
  · rintro ⟨x, hx, hkind, ⟨rfl, rfl⟩ | ⟨rfl, rfl⟩⟩
    · exact ⟨⟨x.label, x.target, true⟩, mem_links.2 ⟨x, hx, by simp [link?, hkind]⟩, rfl⟩
    · by_cases hloop : x.source = x.target
      · exact ⟨⟨x.label, x.target, true⟩, mem_links.2 ⟨x, hx, by simp [link?, hkind, hloop]⟩,
          hloop.symm⟩
      · exact ⟨⟨x.label, x.source, false⟩, mem_links.2 ⟨x, hx, by simp [link?, hkind, hloop]⟩,
          rfl⟩
  · rintro ⟨l, hl, rfl⟩
    obtain ⟨x, hx, hkind, -, ⟨-, hs, ht⟩ | ⟨-, ht, hs⟩⟩ := edge_of_link hl
    · exact ⟨x, hx, hkind, .inl ⟨hs, ht⟩⟩
    · exact ⟨x, hx, hkind, .inr ⟨hs, ht⟩⟩

/-- Among connected nodes one is next to a node outside of them. -/
theorem anchored_of_connected (h : ∀ i ∈ f.pending a, f.Connected g a i) :
    f.Anchored a (f.pending a) := by
  rintro S ⟨i, hi⟩ hsub
  induction h i (hsub i hi) with
  | assigned adjacent assigned =>
    obtain ⟨l, hl, rfl⟩ := adjacent_iff.1 adjacent
    exact ⟨_, hi, l, hl, .inl (mem_of_getElem?_eq assigned)⟩
  | @pending i j adjacent pending _ ih =>
    by_cases hj : j ∈ S
    · exact ih hj
    · obtain ⟨l, hl, rfl⟩ := adjacent_iff.1 adjacent
      exact ⟨i, hi, l, hl, .inr ⟨pending, hj⟩⟩

theorem unkeyed_of_pending (h : i ∈ f.pending a) :
    ∃ n properties, f.nodes[i]? = some n ∧ n.identity = .unkeyed properties := by
  obtain ⟨⟨n, hn, hkeyed⟩, -⟩ := mem_pending.1 h
  obtain ⟨properties, hidentity⟩ := Node.isKeyed_eq_false_iff.1 (by simpa using hkeyed)
  exact ⟨n, properties, hn, hidentity⟩

theorem Matches.solves (h : f.Matches g a b) : Solves f g (f.pending a) a b where
  extends_ := h.kept
  placed i hi := by
    obtain ⟨v, -, hv⟩ := h.vertex i hi
    obtain ⟨n, properties, hn, hidentity⟩ := unkeyed_of_pending hi
    refine ⟨v, n, hv, hn, ?_⟩
    rw [hidentity, identityHolds_unkeyed]
    exact h.identity i hi n properties v hn hidentity hv
  distinct i hi j v hiv hjv := by
    by_cases hj : j ∈ f.pending a
    · exact h.distinct i hi j hj (hiv.trans hjv.symm)
    · exact absurd hiv (h.new i hi j v (h.kept j hj ▸ hjv))
  linked i hi l hl v w hv hw := by
    obtain ⟨x, hx, hkind, hlabel, ⟨hout, rfl, ht⟩ | ⟨hin, rfl, hs⟩⟩ := edge_of_link hl
    · obtain ⟨e, y, hy⟩ := h.edges x hx hkind (.inl hi) v w hv (ht ▸ hw)
      rw [Linked, if_pos hout, hasEdge_iff]
      exact ⟨e, y, hlabel ▸ hy⟩
    · obtain ⟨e, y, hy⟩ := h.edges x hx hkind (.inr hi) w v (hs ▸ hw) hv
      rw [Linked, if_neg (by simp [hin]), hasEdge_iff]
      exact ⟨e, y, hlabel ▸ hy⟩

/-- Where a link is there, its ends are. -/
theorem Linked.ends (hg : g.WellFormed) (h : Linked g l v w) :
    v ∈ g.vertices ∧ w ∈ g.vertices := by
  unfold Linked at h
  split at h
  · obtain ⟨e, x, hx, rfl, -, rfl⟩ := hasEdge_iff.1 h
    exact hg.ends e x hx
  · obtain ⟨e, x, hx, rfl, -, rfl⟩ := hasEdge_iff.1 h
    exact (hg.ends e x hx).symm

/-- Nothing matches a fragment of which a pending node is linked to a missing vertex. -/
theorem Matches.not_dangling (hg : g.WellFormed) (h : f.Matches g a b) : ¬f.Dangling g a := by
  rintro ⟨i, hi, l, hl, w, hw, hmissing⟩
  obtain ⟨v, -, hv⟩ := h.vertex i hi
  have hkept : b[l.neighbour]? = some w := by
    rw [h.kept _ fun hpending => by simp [pending_free _ hpending] at hw, hw]
  exact hmissing ((h.solves.linked i hi l hl v w hv hkept).ends hg).2

theorem Solves.matches (hg : g.WellFormed) (hconnected : ∀ i ∈ f.pending a, f.Connected g a i)
    (h : Solves f g (f.pending a) a b) : f.Matches g a b where
  kept := h.extends_
  vertex i hi := by
    obtain ⟨v, n, hv, -, -⟩ := h.placed i hi
    have hneighbour : ∃ j w, f.Adjacent i j ∧ b[j]? = some w := by
      cases hconnected i hi with
      | @assigned _ j w adjacent assigned =>
        refine ⟨j, w, adjacent, ?_⟩
        rw [h.extends_ j fun hj => by simp [pending_free j hj] at assigned, assigned]
      | @pending _ j adjacent pending =>
        obtain ⟨w, -, hw, -⟩ := h.placed j pending
        exact ⟨j, w, adjacent, hw⟩
    obtain ⟨j, w, hadjacent, hw⟩ := hneighbour
    obtain ⟨l, hl, rfl⟩ := adjacent_iff.1 hadjacent
    exact ⟨v, ((h.linked i hi l hl v w hv hw).ends hg).1, hv⟩
  identity i hi n properties v hn hidentity hv := by
    obtain ⟨u, m, hu, hm, hholds⟩ := h.placed i hi
    cases hn.symm.trans hm
    cases hv.symm.trans hu
    rwa [hidentity, identityHolds_unkeyed] at hholds
  distinct i hi j hj heq := by
    obtain ⟨v, n, hv, -⟩ := h.placed i hi
    exact h.distinct i hi j v hv (heq ▸ hv)
  new i hi j v hj hv := by
    have hfree := pending_free i hi
    have hkept : b[j]? = some v := by
      rw [h.extends_ j fun hmem => by simp [pending_free j hmem] at hj, hj]
    rw [h.distinct i hi j v hv hkept, hj] at hfree
    cases hfree
  edges x hx hkind hends v w hv hw := hasEdge_iff.1 (h.hasEdge hx hkind hends hv hw)

/-! ## The order of the search -/

/-- The order in which pending nodes become anchored, once the resolved ones are there: each time
the first pending node with a link to a resolved node, together with its first such link. -/
inductive AnchorOrder (f : Fragment) : Set Nat → List Nat → List (Nat × Link) → Prop where
  | nil {resolved : Set Nat} : AnchorOrder f resolved [] []
  | cons {resolved : Set Nat} {before after : List Nat} {i : Nat} {earlier later : List Link}
      {l : Link} {order : List (Nat × Link)}
      (first : ∀ j ∈ before, ∀ k ∈ f.links j, k.neighbour ∉ resolved)
      (links : f.links i = earlier ++ l :: later)
      (firstLink : ∀ k ∈ earlier, k.neighbour ∉ resolved)
      (anchor : l.neighbour ∈ resolved)
      (rest : AnchorOrder f (insert i resolved) (before ++ after) order) :
      AnchorOrder f resolved (before ++ i :: after) ((i, l) :: order)

/-- An edge leads to the first vertex that is older than all that lead to the second. -/
def Sooner (g : Graph) (l : Link) (u v w : VertexId) : Prop :=
  ∃ (e : EdgeId) (x : Edge), g.edges[e]? = some x ∧ l.Joins x v u ∧
    ∀ (d : EdgeId) (y : Edge), g.edges[d]? = some y → l.Joins y w u → e.number < d.number

/-- Where the assignments first differ, in the order of the search, the vertex of the first one is
found sooner. -/
inductive Precedes (g : Graph) : List (Nat × Link) → Assignment → Assignment → Prop where
  | sooner {order : List (Nat × Link)} {a b : Assignment} {i : Nat} {l : Link} {u v w : VertexId}
      (anchor : a[l.neighbour]? = some u) (left : a[i]? = some v) (right : b[i]? = some w)
      (sooner : Sooner g l u v w) : Precedes g ((i, l) :: order) a b
  | later {order : List (Nat × Link)} {a b : Assignment} {i : Nat} {l : Link}
      (same : a[i]? = b[i]?) (rest : Precedes g order a b) : Precedes g ((i, l) :: order) a b

theorem nextPending?_append_cons {before : List Nat} (after : List Nat)
    (hbefore : ∀ j ∈ before, f.anchor? a j = none) (hi : f.anchor? a i = some (l, v)) :
    ∃ rest, f.nextPending? a (before ++ i :: after) = some (i, (l, v), rest) ∧
      rest.val = before ++ after := by
  induction before with
  | nil =>
    unfold nextPending?
    simp [hi]
  | cons j before ih =>
    obtain ⟨hj, hbefore⟩ := List.forall_mem_cons.1 hbefore
    obtain ⟨rest, hnext, hrest⟩ := ih hbefore
    simp [nextPending?, hj, hnext, hrest]

theorem resolved_insert : insert i {j : Nat | j ∈ a} = {j : Nat | j ∈ a.insert i v} := by
  ext j
  rw [Set.mem_insert_iff, Set.mem_ofPred_eq, Set.mem_ofPred_eq, Std.ExtTreeMap.mem_insert,
    Std.compare_eq_iff_eq, eq_comm]

theorem erase_append_cons {before after : List Nat} (h : i ∉ before) :
    (before ++ i :: after).erase i = before ++ after := by
  rw [List.erase_append_right _ h, List.erase_cons_head]

/-- Anchored nodes have an order. -/
theorem exists_anchorOrder (h : f.Anchored a pending) :
    ∃ order, AnchorOrder f {j | j ∈ a} pending order := by
  induction hn : pending.length using Nat.strong_induction_on generalizing pending a with
  | _ n ih =>
    cases hfind : pending.find? fun j => (f.anchor? a j).isSome with
    | none =>
      have hnil : pending = [] := h.eq_nil fun i hi => by
        simpa using List.find?_eq_none.1 hfind i hi
      rw [hnil]
      exact ⟨[], .nil⟩
    | some i =>
      obtain ⟨hanchor, before, after, rfl, hbefore⟩ := List.find?_eq_some_iff_append.1 hfind
      have hfirst : ∀ j ∈ before, f.anchor? a j = none := fun j hj => by
        simpa using hbefore j hj
      have hi : i ∉ before := fun hmem => by simp [hfirst i hmem] at hanchor
      obtain ⟨⟨l, v⟩, hanchor⟩ := Option.isSome_iff_exists.1 hanchor
      obtain ⟨earlier, later, hlinks, hearlier, hv⟩ := anchor?_eq_some_iff.1 hanchor
      have hrest : f.Anchored (a.insert i v) (before ++ after) := erase_append_cons hi ▸ h.rest
      obtain ⟨order, horder⟩ := ih _ (by simp [← hn]) hrest rfl
      exact ⟨_, .cons (fun j hj => anchor?_eq_none_iff.1 (hfirst j hj)) hlinks hearlier
        (mem_of_getElem?_eq hv) (resolved_insert ▸ horder)⟩

/-! ## What the search prefers -/

theorem findSome?_filter_ne {α β : Type} [BEq α] [LawfulBEq α] {find : α → Option β} {x : α}
    {xs : List α} (h : find x = none) :
    (xs.filter fun y => !y == x).findSome? find = xs.findSome? find := by
  induction xs with
  | nil => rfl
  | cons y xs ih =>
    rw [List.filter_cons, List.findSome?_cons]
    split
    · rw [List.findSome?_cons, ih]
    · rename_i heq
      obtain rfl : y = x := by simpa using heq
      rw [ih, h]

theorem findSome?_eraseDups {α β : Type} [BEq α] [LawfulBEq α] {find : α → Option β} (xs : List α) :
    xs.eraseDups.findSome? find = xs.findSome? find := by
  induction hn : xs.length using Nat.strong_induction_on generalizing xs with
  | _ n ih =>
    cases xs with
    | nil => rfl
    | cons x xs =>
      rw [List.eraseDups_cons, List.findSome?_cons, List.findSome?_cons]
      cases hx : find x with
      | some y => rfl
      | none =>
        have hlength : (xs.filter fun y => !y == x).length < n := by
          rw [← hn, List.length_cons]
          exact Nat.lt_succ_of_le (List.length_filter_le ..)
        rw [ih _ hlength _ rfl, findSome?_filter_ne hx]

/-- What is found first is found sooner than what else could have been found. -/
theorem sooner_of_found {find : VertexId → Option Assignment}
    (h : (candidates g l u).findSome? find = some a) :
    ∃ v, find v = some a ∧ ∀ w, (find w).isSome → w = v ∨ Sooner g l u v w := by
  rw [candidates, findSome?_eraseDups, List.findSome?_map] at h
  obtain ⟨older, ⟨e, x⟩, younger, hedges, hx, holder⟩ := List.findSome?_eq_some_iff.1 h
  refine ⟨x.other u, hx, fun w hw => ?_⟩
  by_cases hwv : w = x.other u
  · exact .inl hwv
  · have hfirst := mem_edgesAt_iff_joins.1
      ⟨hedges ▸ List.mem_append_right older (List.mem_cons_self ..), rfl⟩
    refine .inr ⟨e, x, hfirst.1, hfirst.2, fun d y hy hjoins => ?_⟩
    obtain ⟨hmem, rfl⟩ := mem_edgesAt_iff_joins.2 ⟨hy, hjoins⟩
    have hsorted : (g.edgesAt u (some l.label) (if l.outgoing then .incoming else .outgoing)).Pairwise
        fun a b => a.1.number < b.1.number := Graph.pairwise_edgesAt
    rw [hedges] at hmem hsorted
    rcases List.mem_append.1 hmem with holder' | hmem
    · -- an older edge would have been tried before
      rw [Option.isSome_iff_ne_none] at hw
      exact absurd (holder _ holder') hw
    · obtain heq | hyounger := List.mem_cons.1 hmem
      · cases heq
        exact absurd rfl hwv
      · exact (List.pairwise_cons.1 (List.pairwise_append.1 hsorted).2.1).1 _ hyounger

theorem search_append_cons {before after : List Nat}
    (hbefore : ∀ j ∈ before, f.anchor? a j = none) (hi : f.anchor? a i = some (l, u)) :
    f.search g (before ++ i :: after) a = (candidates g l u).findSome? fun v =>
      if f.fits g a i v then f.search g (before ++ after) (a.insert i v) else none := by
  obtain ⟨rest, hnext, hrest⟩ := nextPending?_append_cons after hbefore hi
  rw [search, if_neg (by simp), hnext, ← hrest]

/-- The search finds the solution that comes first. -/
theorem search_first {resolved : Set Nat} {order : List (Nat × Link)}
    (horder : AnchorOrder f resolved pending order) (hresolved : resolved = {j | j ∈ a})
    (hnodup : pending.Nodup) (hfree : ∀ i ∈ pending, a[i]? = none)
    (hanchored : f.Anchored a pending) (h : f.search g pending a = some a')
    (hb : Solves f g pending a b) : b = a' ∨ Precedes g order a' b := by
  induction horder generalizing a with
  | nil =>
    refine .inl (Std.ExtTreeMap.ext_getElem? fun i => ?_)
    rw [hb.extends_ i List.not_mem_nil, (search_sound hnodup hfree h).extends_ i List.not_mem_nil]
  | @cons resolved before after i earlier later l order first links firstLink anchor rest ih =>
    subst hresolved
    have hsolves := search_sound hnodup hfree h
    obtain ⟨u, hu⟩ : ∃ u, a[l.neighbour]? = some u :=
      Option.isSome_iff_exists.1 (Std.ExtTreeMap.mem_iff_isSome_getElem?.1 anchor)
    have hbefore : ∀ j ∈ before, f.anchor? a j = none := fun j hj =>
      anchor?_eq_none_iff.2 (first j hj)
    have hanchor := anchor?_eq_some_iff.2 ⟨earlier, later, links, firstLink, hu⟩
    have hi : i ∉ before := fun hmem => by simp [hbefore i hmem] at hanchor
    have hmem : i ∈ before ++ i :: after := List.mem_append_right _ (List.mem_cons_self ..)
    -- what is asked of the pending nodes holds of the rest of them
    have hnodup' : (before ++ after).Nodup := erase_append_cons hi ▸ hnodup.erase i
    have hfree' : ∀ v, ∀ j ∈ before ++ after, (a.insert i v)[j]? = none := fun v =>
      erase_append_cons hi ▸ free_rest hnodup hfree
    have hanchored' : ∀ v, f.Anchored (a.insert i v) (before ++ after) := fun v =>
      erase_append_cons hi ▸ hanchored.rest
    obtain ⟨w, -, hw, -⟩ := hb.placed i hmem
    have hb' : Solves f g (before ++ after) (a.insert i w) b := erase_append_cons hi ▸ hb.rest hw
    rw [search_append_cons hbefore hanchor] at h
    obtain ⟨v, hv, hsooner⟩ := sooner_of_found h
    split at hv
    · have hleft : a'[i]? = some v := by
        rw [(search_sound hnodup' (hfree' v) hv).extends_ i, Std.ExtTreeMap.getElem?_insert_self]
        exact erase_append_cons hi ▸ hnodup.not_mem_erase
      have hfound : (if f.fits g a i w then f.search g (before ++ after) (a.insert i w)
          else none).isSome := by
        rw [if_pos (hb.fits hmem hfree hw)]
        exact search_complete hnodup' (hfree' w) (hanchored' w) hb'
      rcases hsooner w hfound with rfl | hsooner
      · exact (ih resolved_insert hnodup' (hfree' w) (hanchored' w) hv hb').imp id
          fun hlater => .later (hleft.trans hw.symm) hlater
      · refine .inr (.sooner ?_ hleft hw hsooner)
        rw [hsolves.extends_ _ fun hpending => by simp [hfree _ hpending] at hu, hu]
    · cases hv

/-! ## The search in place -/

/-- The checked search ends as the search in place does, or it fails and there is no match. -/
theorem Checked.backtrack_ends (hg : g.WellFormed) (f : Fragment) (a : Assignment) :
    match (Checked.backtrack f g (f.pending a)).run a with
    | .ok r => r = (f.solveInPlace g).run a
    | .error _ => ¬∃ b, f.Matches g a b := by
  have hends := Checked.backtrack_okOr hg f a
  cases hrun : (Checked.backtrack f g (f.pending a)).run a with
  | ok r => exact hends.eq_of_ok hrun
  | error cause =>
    rintro ⟨b, hb⟩
    exact hb.not_dangling hg (hends.of_error hrun)

/-- Where the pending nodes are connected to vertices of the graph, the search in place succeeds
just if there is a match. It ends with the match that comes first, or with the assignment it began
with. With every read checked it ends in the same way, unless a read fails at a vertex that was
assigned and is missing, and then there is no match. -/
theorem solveInPlace_decides (f : Fragment) (ss : List Session) (ms : List Mutation)
    (a : Assignment) :
    let g := ((Transaction.start (Graph.afterSessions ss)).attemptAll ms).graph
    (∀ i ∈ f.pending a, f.Connected g a i) →
      let r := (f.solveInPlace g).run a
      (match (Checked.backtrack f g (f.pending a)).run a with
        | .ok r' => r' = r
        | .error _ => ¬∃ b, f.Matches g a b) ∧
      (r.1 ↔ ∃ b, f.Matches g a b) ∧ (r.1 = false → r.2 = a) ∧
        (r.1 → f.Matches g a r.2 ∧ (∃ order, AnchorOrder f {j | j ∈ a} (f.pending a) order) ∧
          ∀ order, AnchorOrder f {j | j ∈ a} (f.pending a) order →
            ∀ b, f.Matches g a b → b = r.2 ∨ Precedes g order r.2 b) := by
  intro g hconnected r
  have hg : g.WellFormed := by
    have hstart := Graph.afterSessions_wellFormed ss
    exact ((Transaction.Tracks.start _).attemptAll hstart).wellFormed hstart
  have hanchored := anchored_of_connected hconnected
  refine ⟨Checked.backtrack_ends hg f a, ?_⟩
  have hr : r = outcome a (f.search g (f.pending a) a) := run_backtrack nodup_pending pending_free
  rw [hr]
  cases hsearch : f.search g (f.pending a) a with
  | none =>
    refine ⟨⟨nofun, fun ⟨b, hb⟩ => ?_⟩, fun _ => rfl, nofun⟩
    have hfound := search_complete nodup_pending pending_free hanchored hb.solves
    rw [hsearch] at hfound
    cases hfound
  | some a' =>
    have hmatch : f.Matches g a a' :=
      (search_sound nodup_pending pending_free hsearch).matches hg hconnected
    exact ⟨⟨fun _ => ⟨a', hmatch⟩, fun _ => rfl⟩, nofun, fun _ =>
      ⟨hmatch, exists_anchorOrder hanchored, fun order horder b hb =>
        search_first horder rfl nodup_pending pending_free hanchored hsearch hb.solves⟩⟩

/-- Two vertices could stand for the node that is not yet resolved. -/
theorem solveInPlace_decides_two :
    let f : Fragment := ⟨[.keyed ⟨"uri", "a:s"⟩ .subject, .unkeyed [("kind", some "m")] .middle],
      [⟨0, "p", 1, .structural, ∅⟩]⟩
    let g := ((Transaction.start (Graph.afterSessions [])).attemptAll [.createVertex, .createVertex,
      .createVertex, .addProperty ⟨2⟩ ⟨"kind", "m"⟩, .addProperty ⟨3⟩ ⟨"kind", "m"⟩,
      .createEdge ⟨1⟩ "p" ⟨3⟩, .createEdge ⟨1⟩ "p" ⟨2⟩]).graph
    let a : Assignment := Std.ExtTreeMap.ofList [(0, VertexId.mk 1)]
    let r := (f.solveInPlace g).run a
    (∀ i ∈ f.pending a, f.Connected g a i) ∧
      (match (Checked.backtrack f g (f.pending a)).run a with
        | .ok r' => r' = r
        | .error _ => ¬∃ b, f.Matches g a b) ∧
      (r.1 ↔ ∃ b, f.Matches g a b) ∧ (r.1 = false → r.2 = a) ∧
        (r.1 → f.Matches g a r.2 ∧ (∃ order, AnchorOrder f {j | j ∈ a} (f.pending a) order) ∧
          ∀ order, AnchorOrder f {j | j ∈ a} (f.pending a) order →
            ∀ b, f.Matches g a b → b = r.2 ∨ Precedes g order r.2 b) := by
  intro f g a r
  have hconnected : ∀ i ∈ f.pending a, f.Connected g a i := by
    intro i hi
    obtain rfl : i = 1 := by simpa [show f.pending a = [1] by rfl] using hi
    exact .assigned (j := 0) (v := ⟨1⟩) ⟨_, List.mem_singleton_self _, rfl, .inr ⟨rfl, rfl⟩⟩ rfl
      (by decide)
  exact ⟨hconnected, solveInPlace_decides f [] _ a hconnected⟩

end Fragment

end QuadStore
