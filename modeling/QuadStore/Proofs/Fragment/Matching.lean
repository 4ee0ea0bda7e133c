import Mathlib
import QuadStore.Fragment.Matching
import QuadStore.Proofs.Containers
import QuadStore.Proofs.Graph.Views
/-!
# The search for unkeyed nodes

What the search finds solves the constraints of the fragment, and it finds something whenever they
have a solution and every pending node can be reached from the assigned ones.
-/

namespace QuadStore

namespace Fragment

variable {f : Fragment} {g : Graph} {pending : List Nat} {a a' : Assignment} {i j : Nat}
  {v w : VertexId}

/-! ## Edges and links -/

theorem hasEdge_iff {label : String} :
    hasEdge g v label w ↔
      ∃ (e : EdgeId) (x : Edge), g.edges[e]? = some x ∧ x.source = v ∧ x.label = label ∧
        x.target = w := by
  simp only [hasEdge, List.any_eq_true, Prod.exists, Graph.mem_edgesAt, Edge.meets, beq_iff_eq,
    Option.mem_def, Option.some.injEq, forall_eq']
  constructor
  · rintro ⟨e, x, ⟨hx, hs, hl⟩, ht⟩
    exact ⟨e, x, hx, hs, hl.symm, ht⟩
  · rintro ⟨e, x, hx, hs, hl, ht⟩
    exact ⟨e, x, ⟨hx, hs, hl.symm⟩, ht⟩

/-- The edge of a link is there between the vertex of the node it is seen from and the other. -/
def Linked (g : Graph) (l : Link) (v w : VertexId) : Prop :=
  if l.outgoing then hasEdge g v l.label w else hasEdge g w l.label v

theorem mem_links {l : Link} : l ∈ f.links i ↔ ∃ e ∈ f.edges, link? i e = some l := by
  simp [links]

/-- The same edge as seen from its other end. -/
def Link.turned (l : Link) (i : Nat) : Link := ⟨l.label, i, !l.outgoing⟩

theorem turned_mem_links {l : Link} (h : l ∈ f.links i) (hne : l.neighbour ≠ i) :
    l.turned i ∈ f.links l.neighbour := by
  obtain ⟨e, he, hl⟩ := mem_links.1 h
  refine mem_links.2 ⟨e, he, ?_⟩
  unfold link? at hl ⊢
  grind [Link.turned]

theorem linked_turned {l : Link} : Linked g (l.turned i) w v ↔ Linked g l v w := by
  unfold Linked Link.turned
  cases l.outgoing <;> simp

/-- The edge is what the link looks for between a vertex and that of its neighbour. -/
def Link.Joins (l : Link) (x : Edge) (v u : VertexId) : Prop :=
  x.label = l.label ∧
    if l.outgoing then x.source = v ∧ x.target = u else x.source = u ∧ x.target = v

theorem exists_joins {l : Link} (h : Linked g l v w) :
    ∃ (e : EdgeId) (x : Edge), g.edges[e]? = some x ∧ l.Joins x v w := by
  unfold Linked at h
  split at h
  · rename_i hout
    obtain ⟨e, x, hx, hs, hl, ht⟩ := hasEdge_iff.1 h
    exact ⟨e, x, hx, hl, by rw [if_pos hout]; exact ⟨hs, ht⟩⟩
  · rename_i hin
    obtain ⟨e, x, hx, hs, hl, ht⟩ := hasEdge_iff.1 h
    exact ⟨e, x, hx, hl, by rw [if_neg hin]; exact ⟨hs, ht⟩⟩

/-- The edges that candidates come from. -/
theorem mem_edgesAt_iff_joins {l : Link} {e : EdgeId} {x : Edge} :
    ((e, x) ∈ g.edgesAt w (some l.label) (if l.outgoing then .incoming else .outgoing) ∧
      x.other w = v) ↔ g.edges[e]? = some x ∧ l.Joins x v w := by
  rw [Graph.mem_edgesAt]
  unfold Link.Joins Edge.other
  cases l.outgoing <;> simp [Edge.meets] <;> grind

theorem mem_candidates {l : Link} (h : Linked g l w v) : w ∈ candidates g l v := by
  obtain ⟨e, x, hx, hjoins⟩ := exists_joins h
  obtain ⟨hmem, hother⟩ := mem_edgesAt_iff_joins.2 ⟨hx, hjoins⟩
  rw [candidates, List.mem_eraseDups, List.mem_map]
  exact ⟨(e, x), hmem, hother⟩

theorem assigns_iff : a.assigns v ↔ ∃ j : Nat, a[j]? = some v := by
  simp only [Assignment.assigns, map_any_iff, beq_iff_eq]
  constructor
  · rintro ⟨j, w, hw, rfl⟩
    exact ⟨j, hw⟩
  · rintro ⟨j, hj⟩
    exact ⟨j, v, hj, rfl⟩

/-! ## The next node -/

theorem free_iff : a[i]? = none ↔ i ∉ a := by
  rw [Std.ExtTreeMap.mem_iff_isSome_getElem?, Bool.not_eq_true, Option.isSome_eq_false_iff,
    Option.isNone_iff_eq_none]

theorem anchor?_eq_some_iff {l : Link} : f.anchor? a i = some (l, v) ↔
    ∃ earlier later, f.links i = earlier ++ l :: later ∧ (∀ k ∈ earlier, k.neighbour ∉ a) ∧
      a[l.neighbour]? = some v := by
  simp only [anchor?, List.findSome?_eq_some_iff, Option.map_eq_some_iff, Option.map_eq_none_iff,
    free_iff]
  constructor
  · rintro ⟨earlier, k, later, hlinks, ⟨u, hu, heq⟩, hnone⟩
    cases heq
    exact ⟨earlier, later, hlinks, hnone, hu⟩
  · rintro ⟨earlier, later, hlinks, hnone, hv⟩
    exact ⟨earlier, l, later, hlinks, ⟨v, hv, rfl⟩, hnone⟩

theorem anchor?_eq_none_iff : f.anchor? a i = none ↔ ∀ l ∈ f.links i, l.neighbour ∉ a := by
  simp only [anchor?, List.findSome?_eq_none_iff, Option.map_eq_none_iff, free_iff]

theorem anchor?_eq_some {l : Link} (h : f.anchor? a i = some (l, v)) :
    l ∈ f.links i ∧ a[l.neighbour]? = some v := by
  obtain ⟨earlier, later, hlinks, -, hv⟩ := anchor?_eq_some_iff.1 h
  rw [hlinks]
  exact ⟨List.mem_append_right _ (List.mem_cons_self ..), hv⟩

theorem anchor?_eq_none {l : Link} (h : f.anchor? a i = none) (hl : l ∈ f.links i) :
    a[l.neighbour]? = none :=
  free_iff.2 (anchor?_eq_none_iff.1 h l hl)

theorem nextPending?_eq_some {l : Link} {rest : {rest : List Nat // rest.length < pending.length}}
    (h : f.nextPending? a pending = some (i, (l, v), rest)) :
    i ∈ pending ∧ rest.val = pending.erase i ∧ l ∈ f.links i ∧ a[l.neighbour]? = some v := by
  induction pending with
  | nil => simp [nextPending?] at h
  | cons k pending ih =>
    unfold nextPending? at h
    split at h
    · rename_i anchor hanchor
      simp only [Option.some.injEq, Prod.mk.injEq] at h
      obtain ⟨rfl, rfl, rfl⟩ := h
      exact ⟨List.mem_cons_self .., by simp, anchor?_eq_some hanchor⟩
    · rename_i hanchor
      rw [Option.map_eq_some_iff] at h
      obtain ⟨⟨j, anchor, rest'⟩, hnext, heq⟩ := h
      simp only [Prod.mk.injEq] at heq
      obtain ⟨rfl, rfl, rfl⟩ := heq
      obtain ⟨hmem, hrest, hl, hv⟩ := ih hnext
      have hne : k ≠ j := by
        rintro rfl
        rw [anchor?_eq_none hanchor hl] at hv
        cases hv
      refine ⟨List.mem_cons_of_mem _ hmem, ?_, hl, hv⟩
      rw [List.erase_cons_tail (by simpa using hne), ← hrest]

theorem nextPending?_eq_none (h : f.nextPending? a pending = none) :
    ∀ i ∈ pending, f.anchor? a i = none := by
  induction pending with
  | nil => simp
  | cons k pending ih =>
    unfold nextPending? at h
    split at h
    · cases h
    · rename_i hanchor
      rw [Option.map_eq_none_iff] at h
      intro i hi
      obtain rfl | hi := List.mem_cons.1 hi
      · exact hanchor
      · exact ih h i hi

/-! ## The search without its undoing -/

/-- The first assignment of the pending nodes that nothing speaks against. -/
def search (f : Fragment) (g : Graph) (pending : List Nat) (a : Assignment) : Option Assignment :=
  if pending.isEmpty then some a
  else
    match f.nextPending? a pending with
    | none => none
    | some (i, (link, v), rest) =>
      (candidates g link v).findSome? fun w =>
        if f.fits g a i w then f.search g rest.val (a.insert i w) else none
termination_by pending.length
decreasing_by exact rest.property

/-- What is found and what is left behind. -/
def outcome (a : Assignment) : Option Assignment → Bool × Assignment
  | some a' => (true, a')
  | none => (false, a)

theorem free_rest (hnodup : pending.Nodup) (hfree : ∀ j ∈ pending, a[j]? = none) :
    ∀ j ∈ pending.erase i, (a.insert i v)[j]? = none := by
  intro j hj
  rw [hnodup.mem_erase_iff] at hj
  rw [Std.ExtTreeMap.getElem?_insert]
  simp [Ne.symm hj.1, hfree j hj.2]

theorem erase_insert_of_free (h : a[i]? = none) : (a.insert i v).erase i = a := by
  refine Std.ExtTreeMap.ext_getElem? fun j => ?_
  rw [Std.ExtTreeMap.getElem?_erase, Std.ExtTreeMap.getElem?_insert]
  by_cases hij : i = j
  · subst hij
    simp [h]
  · simp [hij]

/-- Tries in a row, each of which takes back what it did unless it succeeds. -/
theorem run_anyM {tries : VertexId → StateM Assignment Bool}
    {found : VertexId → Option Assignment} {vs : List VertexId}
    (h : ∀ v ∈ vs, (tries v).run a = outcome a (found v)) :
    (vs.anyM tries).run a = outcome a (vs.findSome? found) := by
  induction vs with
  | nil => rfl
  | cons v vs ih =>
    have hrest := ih fun w hw => h w (List.mem_cons_of_mem _ hw)
    have hfirst := h v (List.mem_cons_self ..)
    rw [List.anyM_cons, StateT.run_bind, hfirst, List.findSome?_cons]
    cases found v with
    | some a' => rfl
    | none => exact hrest

theorem run_attempt {next : StateM Assignment Bool} {found : Option Assignment} (h : a[i]? = none)
    (hnext : next.run (a.insert i v) = outcome (a.insert i v) found) :
    (f.attempt g i v next).run a = outcome a (if f.fits g a i v then found else none) := by
  unfold attempt
  rw [StateT.run_bind, StateT.run_get, pure_bind]
  split
  · rw [StateT.run_bind, StateT.run_modify, pure_bind, StateT.run_bind, hnext]
    cases found with
    | some a' => rfl
    | none => exact congrArg (Prod.mk false) (erase_insert_of_free h)
  · rfl

/-- The search in place finds what the search finds, and leaves no trace where it fails. -/
theorem run_backtrack (hnodup : pending.Nodup) (hfree : ∀ i ∈ pending, a[i]? = none) :
    (f.backtrack g pending).run a = outcome a (f.search g pending a) := by
  induction hn : pending.length using Nat.strong_induction_on generalizing pending a with
  | _ n ih =>
    unfold backtrack search
    split
    · rfl
    · rw [StateT.run_bind, StateT.run_get, pure_bind]
      split
      · rename_i hnone
        rw [hnone]
        rfl
      · rename_i i l v rest hnext
        rw [hnext]
        obtain ⟨hi, hrest, -, -⟩ := nextPending?_eq_some hnext
        refine run_anyM fun w _ => run_attempt (hfree i hi) ?_
        refine ih _ ?_ ?_ ?_ rfl
        · rw [← hn]
          exact rest.property
        · rw [hrest]
          exact hnodup.erase i
        · rw [hrest]
          exact free_rest hnodup hfree

/-! ## Solutions -/

/-- An assignment of the pending nodes that the fragment and the graph agree with. -/
structure Solves (f : Fragment) (g : Graph) (pending : List Nat) (a a' : Assignment) : Prop where
  extends_ : ∀ i, i ∉ pending → a'[i]? = a[i]?
  placed : ∀ i ∈ pending, ∃ v n, a'[i]? = some v ∧ f.nodes[i]? = some n ∧
    identityHolds g n.identity v
  distinct : ∀ i ∈ pending, ∀ (j : Nat) (v : VertexId), a'[i]? = some v → a'[j]? = some v → i = j
  linked : ∀ i ∈ pending, ∀ l ∈ f.links i, ∀ v w : VertexId, a'[i]? = some v →
    a'[l.neighbour]? = some w → Linked g l v w

/-- Among any of the pending nodes there is one next to a node that is assigned or pending outside
of them. -/
def Anchored (f : Fragment) (a : Assignment) (pending : List Nat) : Prop :=
  ∀ S : Set Nat, S.Nonempty → (∀ i ∈ S, i ∈ pending) →
    ∃ i ∈ S, ∃ l ∈ f.links i, l.neighbour ∈ a ∨ (l.neighbour ∈ pending ∧ l.neighbour ∉ S)

theorem fits_iff :
    f.fits g a i v ↔ (∀ j : Nat, a[j]? ≠ some v) ∧
      (∃ n, f.nodes[i]? = some n ∧ identityHolds g n.identity v) ∧
      ∀ l ∈ f.links i, ∀ w : VertexId,
        (if l.neighbour = i then some v else a[l.neighbour]?) = some w → Linked g l v w := by
  simp only [fits, Bool.and_eq_true, Bool.not_eq_true', Option.any_eq_true_iff_get, List.all_eq_true]
  rw [and_assoc]
  refine and_congr ?_ (and_congr ?_ ?_)
  · rw [← Bool.not_eq_true, assigns_iff]
    push Not
    exact Iff.rfl
  · cases f.nodes[i]? <;> simp
  · refine forall₂_congr fun l hl => ?_
    unfold linkHolds Linked
    cases hw : (if l.neighbour = i then some v else a[l.neighbour]?) with
    | none => simp
    | some w => cases l.outgoing <;> simp

/-- What is found for a node together with what is found for the rest. -/
theorem Solves.of_rest (hi : i ∈ pending) (hnodup : pending.Nodup) (hfree : a[i]? = none)
    (hfits : f.fits g a i w) (hrest : Solves f g (pending.erase i) (a.insert i w) a') :
    Solves f g pending a a' := by
  obtain ⟨hnew, hidentity, hlinks⟩ := fits_iff.1 hfits
  have hmem : ∀ j, j ∈ pending.erase i ↔ j ∈ pending ∧ j ≠ i := fun j => by
    rw [hnodup.mem_erase_iff, and_comm]
  have hself : a'[i]? = some w := by
    rw [hrest.extends_ i (by simp [hmem]), Std.ExtTreeMap.getElem?_insert_self]
  have hother : ∀ j, j ∉ pending → a'[j]? = a[j]? := fun j hj => by
    rw [hrest.extends_ j (by simp [hmem, hj]), Std.ExtTreeMap.getElem?_insert]
    have hne : i ≠ j := by rintro rfl; exact hj hi
    simp [hne]
  refine ⟨hother, fun j hj => ?_, fun j hj k v hjv hkv => ?_, fun j hj l hl v u hjv hu => ?_⟩
  · by_cases hji : j = i
    · subst hji
      obtain ⟨n, hn, hholds⟩ := hidentity
      exact ⟨w, n, hself, hn, hholds⟩
    · exact hrest.placed j ((hmem j).2 ⟨hj, hji⟩)
  · by_cases hji : j = i
    · subst hji
      by_contra hjk
      by_cases hk : k ∈ pending
      · exact hjk (hrest.distinct k ((hmem k).2 ⟨hk, Ne.symm hjk⟩) j v hkv hjv).symm
      · rw [hself] at hjv
        cases hjv
        exact hnew k (by rw [← hother k hk, hkv])
    · exact hrest.distinct j ((hmem j).2 ⟨hj, hji⟩) k v hjv hkv
  · by_cases hji : j = i
    · subst hji
      rw [hself] at hjv
      cases hjv
      by_cases hloop : l.neighbour = j
      · rw [hloop, hself] at hu
        cases hu
        exact hlinks l hl w (by simp [hloop])
      · by_cases hpending : l.neighbour ∈ pending
        · -- the neighbour came later and was held against this node
          have hback := hrest.linked l.neighbour ((hmem _).2 ⟨hpending, hloop⟩) (l.turned j)
            (turned_mem_links hl hloop) u w hu hself
          exact linked_turned.1 hback
        · refine hlinks l hl u ?_
          rw [if_neg hloop, ← hother _ hpending, hu]
    · exact hrest.linked j ((hmem j).2 ⟨hj, hji⟩) l hl v u hjv hu

/-- What the search finds solves the constraints. -/
theorem search_sound (hnodup : pending.Nodup) (hfree : ∀ i ∈ pending, a[i]? = none)
    (h : f.search g pending a = some a') : Solves f g pending a a' := by
  induction hn : pending.length using Nat.strong_induction_on generalizing pending a with
  | _ n ih =>
    unfold search at h
    split at h
    · rename_i hempty
      cases h
      rw [List.isEmpty_iff] at hempty
      subst hempty
      exact ⟨fun _ _ => rfl, by simp, by simp, by simp⟩
    · split at h
      · cases h
      · rename_i i l v rest hnext
        obtain ⟨hi, hrest, hl, hv⟩ := nextPending?_eq_some hnext
        obtain ⟨w, -, hw⟩ := List.exists_of_findSome?_eq_some h
        split at hw
        · rename_i hfits
          rw [hrest] at hw
          refine Solves.of_rest hi hnodup (hfree i hi) hfits ?_
          refine ih _ ?_ (hnodup.erase i) (free_rest hnodup hfree) hw rfl
          rw [← hrest, ← hn]
          exact rest.property
        · cases hw

theorem Anchored.eq_nil (h : f.Anchored a pending) (hnone : ∀ i ∈ pending, f.anchor? a i = none) :
    pending = [] := by
  by_contra hne
  obtain ⟨i, hi, l, hl, hanchor⟩ := h {i | i ∈ pending} (List.exists_mem_of_ne_nil pending hne)
    fun i hi => hi
  exact hanchor.elim (anchor?_eq_none_iff.1 (hnone i hi) l hl) fun hmem => hmem.2 hmem.1

theorem Anchored.rest (h : f.Anchored a pending) : f.Anchored (a.insert i w) (pending.erase i) := by
  intro S hS hsub
  obtain ⟨j, hj, l, hl, hanchor⟩ := h S hS fun k hk => List.mem_of_mem_erase (hsub k hk)
  refine ⟨j, hj, l, hl, ?_⟩
  by_cases hi : l.neighbour = i
  · exact .inl (by simp [hi])
  · refine hanchor.imp (fun hmem => ?_) fun hmem => ⟨?_, hmem.2⟩
    · exact Std.ExtTreeMap.mem_insert.2 (.inr hmem)
    · exact (List.mem_erase_of_ne hi).2 hmem.1

/-- The solution of a node is a candidate that fits. -/
theorem Solves.fits (h : Solves f g pending a a') (hi : i ∈ pending)
    (hfree : ∀ i ∈ pending, a[i]? = none) (hw : a'[i]? = some w) : f.fits g a i w := by
  have hassigned : ∀ (j : Nat) (v : VertexId), a[j]? = some v → a'[j]? = some v := by
    intro j v hj
    rw [h.extends_ j fun hmem => by simp [hfree j hmem] at hj, hj]
  refine fits_iff.2 ⟨fun j hj => ?_, ?_, fun l hl u hu => ?_⟩
  · obtain rfl := h.distinct i hi j w hw (hassigned j w hj)
    simp [hfree i hi] at hj
  · obtain ⟨v, n, hv, hn, hholds⟩ := h.placed i hi
    rw [hw] at hv
    cases hv
    exact ⟨n, hn, hholds⟩
  · refine h.linked i hi l hl w u hw ?_
    split at hu
    · rename_i hloop
      rw [hloop, hw, hu]
    · exact hassigned _ u hu

theorem Solves.rest (h : Solves f g pending a a') (hw : a'[i]? = some w) :
    Solves f g (pending.erase i) (a.insert i w) a' where
  extends_ j hj := by
    rw [Std.ExtTreeMap.getElem?_insert]
    by_cases hji : i = j
    · subst hji
      simp [hw]
    · have hjp : j ∉ pending := fun hmem => hj ((List.mem_erase_of_ne (Ne.symm hji)).2 hmem)
      simp [hji, h.extends_ j hjp]
  placed j hj := h.placed j (List.mem_of_mem_erase hj)
  distinct j hj := h.distinct j (List.mem_of_mem_erase hj)
  linked j hj := h.linked j (List.mem_of_mem_erase hj)

/-- The search finds something if there is something to find. -/
theorem search_complete (hnodup : pending.Nodup) (hfree : ∀ i ∈ pending, a[i]? = none)
    (hanchored : f.Anchored a pending) (h : Solves f g pending a a') :
    (f.search g pending a).isSome := by
  induction hn : pending.length using Nat.strong_induction_on generalizing pending a with
  | _ n ih =>
    unfold search
    split
    · rfl
    · rename_i hne
      split
      · rename_i hnext
        rw [hanchored.eq_nil (nextPending?_eq_none hnext)] at hne
        exact absurd rfl hne
      · rename_i i l v rest hnext
        obtain ⟨hi, hrest, hl, hv⟩ := nextPending?_eq_some hnext
        obtain ⟨w, -, hw, -, -⟩ := h.placed i hi
        have hneighbour : a'[l.neighbour]? = some v := by
          rw [h.extends_ _ fun hmem => by simp [hfree _ hmem] at hv, hv]
        have hlinked : Linked g l w v := h.linked i hi l hl w v hw hneighbour
        rw [List.findSome?_isSome_iff]
        refine ⟨w, mem_candidates hlinked, ?_⟩
        rw [if_pos (h.fits hi hfree hw), hrest]
        refine ih _ ?_ (hnodup.erase i) (free_rest hnodup hfree) hanchored.rest (h.rest hw) rfl
        rw [← hrest, ← hn]
        exact rest.property

/-! ## All unkeyed nodes -/

theorem mem_pending : i ∈ f.pending a ↔ (∃ n, f.nodes[i]? = some n ∧ !n.isKeyed) ∧ i ∉ a := by
  simp only [pending, List.mem_map, List.mem_filter, Prod.exists, List.mem_zipIdx_iff_getElem?,
    Bool.and_eq_true,
    exists_eq_right]
  grind

theorem nodup_pending : (f.pending a).Nodup := by
  unfold pending
  have hindex : ((f.nodes.zipIdx).map (·.2)).Nodup := by
    rw [List.zipIdx_map_snd]
    exact List.nodup_range'
  exact hindex.sublist (List.Sublist.map _ List.filter_sublist)

theorem pending_free : ∀ i ∈ f.pending a, a[i]? = none := fun _ hi =>
  Std.ExtTreeMap.getElem?_eq_none (mem_pending.1 hi).2

/-- A structural edge of the fragment is there between the vertices of a solution. -/
theorem Solves.hasEdge (h : Solves f g pending a a') {x : FragmentEdge} (hx : x ∈ f.edges)
    (hkind : x.kind = .structural) (hpending : x.source ∈ pending ∨ x.target ∈ pending)
    (hv : a'[x.source]? = some v) (hw : a'[x.target]? = some w) : hasEdge g v x.label w := by
  have hout : (⟨x.label, x.target, true⟩ : Link) ∈ f.links x.source :=
    mem_links.2 ⟨x, hx, by simp [link?, hkind]⟩
  by_cases hloop : x.source = x.target
  · exact h.linked _ (hpending.elim id (hloop ▸ ·)) _ hout v w hv hw
  · have hin : (⟨x.label, x.source, false⟩ : Link) ∈ f.links x.target :=
      mem_links.2 ⟨x, hx, by simp [link?, hkind, hloop]⟩
    obtain hpending | hpending := hpending
    · exact h.linked _ hpending _ hout v w hv hw
    · exact h.linked _ hpending _ hin w v hw hv

/-- What a link sees is an edge of the fragment. -/
theorem edge_of_link {l : Link} (h : l ∈ f.links i) :
    ∃ x ∈ f.edges, x.kind = .structural ∧ x.label = l.label ∧
      ((l.outgoing ∧ x.source = i ∧ x.target = l.neighbour) ∨
        (l.outgoing = false ∧ x.target = i ∧ x.source = l.neighbour)) := by
  obtain ⟨x, hx, hl⟩ := mem_links.1 h
  refine ⟨x, hx, ?_⟩
  unfold link? at hl
  split at hl
  · cases hl
  · rename_i hkind
    split at hl
    · rename_i hsource
      cases hl
      exact ⟨not_not.1 hkind, rfl, .inl ⟨rfl, hsource, rfl⟩⟩
    · split at hl
      · rename_i htarget
        cases hl
        exact ⟨not_not.1 hkind, rfl, .inr ⟨rfl, htarget, rfl⟩⟩
      · cases hl

/-- Assign vertices to pending nodes all at once. -/
def fill (a : Assignment) (place : Nat → VertexId) (pending : List Nat) : Assignment :=
  pending.foldl (fun a i => a.insert i (place i)) a

theorem getElem?_fill {place : Nat → VertexId} :
    (fill a place pending)[i]? = if i ∈ pending then some (place i) else a[i]? := by
  unfold fill
  induction pending generalizing a with
  | nil => simp
  | cons j pending ih =>
    rw [List.foldl_cons, ih]
    simp only [Std.ExtTreeMap.getElem?_insert, Std.compare_eq_iff_eq, List.mem_cons]
    by_cases hi : i ∈ pending
    · simp [hi]
    · by_cases hij : j = i
      · simp [hij]
      · simp [hi, hij, Ne.symm hij]

/-- The search finds what solves the constraints, and only that. -/
theorem solve_eq_search : f.solve g a = f.search g (f.pending a) a := by
  have hrun : (f.solveInPlace g).run a = outcome a (f.search g (f.pending a) a) :=
    run_backtrack nodup_pending pending_free
  rw [solve, hrun]
  cases f.search g (f.pending a) a <;> rfl

theorem solve_eq_some (h : f.solve g a = some a') : Solves f g (f.pending a) a a' :=
  search_sound nodup_pending pending_free (solve_eq_search ▸ h)

theorem solve_ne_none (hanchored : f.Anchored a (f.pending a))
    (h : Solves f g (f.pending a) a a') : ∃ a'', f.solve g a = some a'' :=
  Option.isSome_iff_exists.1
    (solve_eq_search ▸ search_complete nodup_pending pending_free hanchored h)

end Fragment

end QuadStore
