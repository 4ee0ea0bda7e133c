import Mathlib
import QuadStore.Proofs.Fragment.Staging
/-!
# Finding again what was merged

After a merge the search finds the vertices that the merge used, in any graph: what it found before
it finds again, and what it did not find was made, so that nothing else fits.
-/

namespace QuadStore

namespace Fragment

variable {f : Fragment} {g g' : Graph} {a b keyed : Assignment} {pending : List Nat} {n : Node}
  {i j : Nat} {v w : VertexId} {properties : List (String × Option String)}

/-- A pending node is not found where an assigned one is. -/
theorem Solves.ne_assigned (h : Solves f g (f.pending a) a b) (hi : i ∈ f.pending a)
    (hw : b[i]? = some w) (j : Nat) : a[j]? ≠ some w := by
  intro hj
  have hnot : j ∉ f.pending a := fun hmem => by
    rw [pending_free j hmem] at hj
    cases hj
  obtain rfl := h.distinct i hi j w hw ((h.extends_ j hnot).trans hj)
  exact hnot hi

/-! ## Searches that agree -/

/-- Edges with this label are the same in both graphs. -/
def SameEdges (g g' : Graph) (label : String) : Prop :=
  ∀ e v w, .edge e v label w ∈ g'.facts ↔ .edge e v label w ∈ g.facts

theorem hasEdge_iff_facts {label : String} :
    hasEdge g v label w ↔ ∃ e, .edge e v label w ∈ g.facts := by
  simp only [hasEdge_iff, Graph.edge_mem_facts]

theorem linked_iff_facts {l : Link} : Linked g l v w ↔
    ∃ e, .edge e (if l.outgoing then v else w) l.label (if l.outgoing then w else v) ∈ g.facts := by
  unfold Linked
  cases l.outgoing <;> simp [hasEdge_iff_facts]

theorem hasEdge_congr {label : String} (h : SameEdges g g' label) :
    hasEdge g' v label w = hasEdge g v label w := by
  rw [Bool.eq_iff_iff, hasEdge_iff_facts, hasEdge_iff_facts]
  exact exists_congr fun e => h e v w

/-- What a search reads of an edge. -/
def endsOf (x : EdgeId × Edge) : EdgeId × VertexId × VertexId := (x.1, x.2.source, x.2.target)

theorem mem_map_endsOf {label : String} {direction : Direction} {x : EdgeId × VertexId × VertexId} :
    x ∈ (g.edgesAt v (some label) direction).map endsOf ↔
      .edge x.1 x.2.1 label x.2.2 ∈ g.facts ∧ Edge.meets ⟨x.2.1, label, x.2.2, ∅⟩ v direction := by
  obtain ⟨e, s, t⟩ := x
  simp only [List.mem_map, Prod.exists, endsOf, Prod.mk.injEq, Graph.mem_edgesAt, Option.mem_def,
    Option.some.injEq, forall_eq', Graph.edge_mem_facts]
  constructor
  · rintro ⟨_, y, ⟨hy, hmeets, hlabel⟩, rfl, rfl, rfl⟩
    refine ⟨⟨y, hy, rfl, hlabel.symm, rfl⟩, ?_⟩
    cases direction <;> exact hmeets
  · rintro ⟨⟨y, hy, rfl, rfl, rfl⟩, hmeets⟩
    refine ⟨e, y, ⟨hy, ?_, rfl⟩, rfl, rfl, rfl⟩
    cases direction <;> exact hmeets

theorem pairwise_map_endsOf {label : String} {direction : Direction} :
    ((g.edgesAt v (some label) direction).map endsOf).Pairwise fun x y => x.1.number < y.1.number :=
  List.pairwise_map.2 Graph.pairwise_edgesAt

/-- The candidates come in the same order too, as the edges are listed by their age. -/
theorem candidates_congr {l : Link} (h : SameEdges g g' l.label) :
    candidates g' l v = candidates g l v := by
  let younger : EdgeId × VertexId × VertexId → EdgeId × VertexId × VertexId → Prop :=
    fun x y => x.1.number < y.1.number
  have : Std.Irrefl younger := ⟨fun x => lt_irrefl x.1.number⟩
  have : Std.Antisymm younger := ⟨fun x y hxy hyx => absurd hxy (lt_asymm hyx)⟩
  have hends : ∀ direction, (g'.edgesAt v (some l.label) direction).map endsOf =
      (g.edgesAt v (some l.label) direction).map endsOf := fun direction =>
    List.Pairwise.eq_of_mem_iff (r := younger) pairwise_map_endsOf pairwise_map_endsOf fun x => by
      rw [mem_map_endsOf, mem_map_endsOf, h]
  have hother : ∀ g : Graph, ∀ direction, (g.edgesAt v (some l.label) direction).map
      (fun x => x.2.other v) = ((g.edgesAt v (some l.label) direction).map endsOf).map
        fun x => if x.2.1 = v then x.2.2 else x.2.1 := fun g direction => by
    rw [List.map_map]
    rfl
  rw [candidates, candidates, hother, hother, hends]

theorem search_congr (hfree : ∀ i ∈ pending, keyed[i]? = none)
    (hcandidates : ∀ i, ∀ l ∈ f.links i, ∀ v, candidates g' l v = candidates g l v)
    (hfits : ∀ b : Assignment, (∀ (j : Nat) (v : VertexId), keyed[j]? = some v → b[j]? = some v) →
      ∀ i v, f.fits g' b i v = f.fits g b i v)
    (ha : ∀ (j : Nat) (v : VertexId), keyed[j]? = some v → a[j]? = some v) :
    f.search g' pending a = f.search g pending a := by
  induction hn : pending.length using Nat.strong_induction_on generalizing pending a with
  | _ n ih =>
    unfold search
    split
    · rfl
    · split
      · rfl
      · rename_i i l v rest hnext
        obtain ⟨hi, hrest, hl, hv⟩ := nextPending?_eq_some hnext
        rw [hcandidates i l hl v]
        congr 1
        funext w
        rw [hfits a ha]
        split
        · refine ih _ (hn ▸ rest.property) (fun j hj => ?_) (fun j u hj => ?_) rfl
          · exact hfree j (List.mem_of_mem_erase (hrest ▸ hj))
          · have hne : i ≠ j := by
              rintro rfl
              rw [hfree i hi] at hj
              cases hj
            simp [Std.ExtTreeMap.getElem?_insert, hne, ha j u hj]
        · rfl

namespace Passes

variable {s : Stages} {report : MergeReport}

/-! ## What was found is found again -/

section Found

variable (h : f.Passes g s report g') (hf : f.Coherent) (hsolve : f.solve s.found s.keyed = some a)

include h hsolve

theorem all_eq_found : s.all = a := by
  have hcompletes := h.completes
  rw [Stages.matched_of_some hsolve] at hcompletes
  refine hcompletes.eq_of_all fun n i properties hn hi => ?_
  have hk := Node.isKeyed_eq_false_iff.2 ⟨_, hi⟩
  rw [List.mem_zipIdx_iff_getElem?] at hn
  obtain ⟨v, -, hv, -⟩ := (solve_eq_some hsolve).placed i (h.mem_pending_iff.2 ⟨n, hn, hk⟩)
  exact mem_of_getElem?_eq hv

theorem completed_eq_found : s.completed = s.found := by
  refine h.completed.same ?_
  rintro x ⟨n, i, v, -, hnone, hv, -⟩
  rw [Stages.matched_of_some hsolve, ← h.all_eq_found hsolve, hv] at hnone
  cases hnone

include hf

/-- The structural edges were all there. -/
theorem sameEdges_found {y : FragmentEdge} (hy : y ∈ f.edges) (hkind : y.kind = .structural) :
    SameEdges s.found g' y.label := by
  intro e v w
  rw [h.gains.facts]
  refine ⟨?_, .inl⟩
  rintro (hold | ⟨n, i, u, -, hnone, hu, -⟩ | ⟨m, j, u, -, -, hx⟩ |
    ⟨z, hz, v', w', e', hv, hw, he, hx⟩)
  · exact hold
  · rw [Stages.matched_of_some hsolve, ← h.all_eq_found hsolve, hu] at hnone
    cases hnone
  · rcases hx with ⟨_, -, heq⟩ | ⟨_, -, heq⟩ | ⟨_, -, heq⟩ <;> cases heq
  · rcases hx with heq | ⟨_, -, heq⟩
    · simp only [Fact.edge.injEq] at heq
      obtain ⟨rfl, rfl, hlabel, rfl⟩ := heq
      have hstructural := hf.labels y hy z hz hkind hlabel.symm
      obtain ⟨i, n, hi, hn, hk⟩ := hf.meets z hz hstructural
      have hpending := h.mem_pending_iff.2 ⟨n, hn, hk⟩
      rw [h.all_eq_found hsolve] at hv hw
      have hedge := (solve_eq_some hsolve).hasEdge hz hstructural
        (hi.imp (fun heq => by rwa [heq]) fun heq => by rwa [heq]) hv hw
      obtain ⟨d, hd⟩ := hasEdge_iff_facts.1 hedge
      obtain ⟨c, hc⟩ : ∃ c, s.found.findEdge? v z.label w = some c := by
        rw [← Option.ne_none_iff_exists', ne_eq, Graph.findEdge?_eq_none, not_forall_not]
        exact ⟨d, hd⟩
      cases (h.gains.findEdge h.found_wellFormed hc).symm.trans he
      rw [hlabel]
      exact (Graph.findEdge?_eq_some.1 hc).1
    · cases heq

theorem solve_found : f.solve g' s.keyed = some s.all := by
  have hlabel : ∀ i, ∀ l ∈ f.links i, SameEdges s.found g' l.label := by
    intro i l hl
    obtain ⟨y, hy, hkind, hlabel, -⟩ := edge_of_link hl
    exact hlabel ▸ h.sameEdges_found hf hsolve hy hkind
  have hsearch : f.solve g' s.keyed = f.solve s.found s.keyed := by
    rw [solve_eq_search, solve_eq_search]
    refine search_congr pending_free (fun i l hl v => candidates_congr (hlabel i l hl))
      (fun b hb i v => ?_) fun _ _ hj => hj
    have hlinks : (f.links i).all (linkHolds g' b i v) =
        (f.links i).all (linkHolds s.found b i v) := by
      rw [Bool.eq_iff_iff, List.all_eq_true, List.all_eq_true]
      refine forall₂_congr fun l hl => ?_
      simp only [linkHolds, hasEdge_congr (hlabel i l hl)]
    by_cases hassigned : b.assigns v
    · simp [fits, hassigned]
    · have hv : ∀ j : Nat, s.keyed[j]? ≠ some v := fun j hj =>
        hassigned (assigns_iff.2 ⟨j, hb j v hj⟩)
      have hidentity : f.nodes[i]?.any (fun n => identityHolds g' n.identity v) =
          f.nodes[i]?.any (fun n => identityHolds s.found n.identity v) := by
        cases hn : f.nodes[i]? with
        | none => rfl
        | some n =>
          simp only [Option.any_some]
          cases hi : n.identity with
          | keyed entry => rfl
          | unkeyed properties =>
            refine identityHolds_congr fun p hp value => ?_
            rw [h.identity_kept hf hv hn hi hp value, h.completed_eq_found hsolve]
      rw [fits, fits, hidentity, hlinks]
  rw [hsearch, hsolve, h.all_eq_found hsolve]

end Found

/-! ## What was made is found -/

section Made

variable (h : f.Passes g s report g') (hf : f.Coherent) (hsolve : f.solve s.found s.keyed = none)

include h hsolve

/-- The vertex of an unkeyed node is new, and what is said of it tells which node it is. -/
theorem made_vertex (hi : i ∈ f.pending s.keyed) :
    ∃ v, s.all[i]? = some v ∧ v ∉ s.found.vertices := by
  obtain ⟨n, hn, hk⟩ := h.mem_pending_iff.1 hi
  obtain ⟨properties, hp⟩ := Node.isKeyed_eq_false_iff.1 hk
  have hmem := h.completes.all n i properties (List.mem_zipIdx_iff_getElem?.2 hn) hp
  have hv := Std.ExtTreeMap.getElem?_eq_some_getElem hmem
  refine ⟨_, hv, (h.completes.new i _ ?_ hv).1⟩
  rw [Stages.matched_of_none hsolve]
  exact pending_free i hi

theorem keyed_of_old (hv : s.all[j]? = some v) (hold : v ∈ s.found.vertices) :
    s.keyed[j]? = some v := by
  cases hj : s.keyed[j]? with
  | some w => rw [← hv, h.all_keyed hj]
  | none => exact absurd hold (h.completes.new j v (Stages.matched_of_none hsolve ▸ hj) hv).1

theorem made_distinct (hi : i ∈ f.pending s.keyed) (hv : s.all[i]? = some v)
    (hw : s.all[j]? = some v) : i = j := by
  have hni := pending_free i hi
  rw [← Stages.matched_of_none hsolve] at hni
  have hnew := (h.completes.new i v hni hv).1
  refine h.completes.distinct i j v hni ?_ hv hw
  rw [Stages.matched_of_none hsolve, Option.eq_none_iff_forall_ne_some]
  intro u hu
  cases hw.symm.trans (h.all_keyed hu)
  exact hnew (h.looksUp.vertex h.found_wellFormed hu)

include hf

theorem identityHolds_made (hi : i ∈ f.pending s.keyed) (hn : f.nodes[i]? = some n)
    (hv : s.all[i]? = some v) : identityHolds g' n.identity v := by
  obtain ⟨m, hm, hk⟩ := h.mem_pending_iff.1 hi
  cases hn.symm.trans hm
  obtain ⟨properties, hp⟩ := Node.isKeyed_eq_false_iff.1 hk
  have hnew : v ∉ s.found.vertices := by
    obtain ⟨w, hw, hnew⟩ := h.made_vertex hsolve hi
    cases hv.symm.trans hw
    exact hnew
  rw [hp, identityHolds_unkeyed]
  intro p hmem value
  rw [h.identity_kept hf (fun j hj => hnew (h.looksUp.vertex h.found_wellFormed hj)) hn hp hmem,
    ← Graph.property_mem_facts, h.completed.facts]
  constructor
  · rintro (hold | ⟨m, j, w, hm, -, hw, hx⟩)
    · exact absurd (Graph.vertex_of_property hold) hnew
    · cases hq : m.identity with
      | keyed entry => simp [hq, Identity.written] at hx
      | unkeyed others =>
        rw [hq] at hx
        rcases hx with heq | ⟨key, value, hmem', heq⟩
        · cases heq
        · cases heq
          obtain rfl := h.made_distinct hsolve hi hv hw
          rw [List.mem_zipIdx_iff_getElem?] at hm
          cases hn.symm.trans hm
          cases hp.symm.trans hq
          have hsame := List.inj_on_of_nodup_map (hf.keys i _ _ hn hp).1 hmem hmem' rfl
          rw [hsame]
  · intro hvalue
    refine .inr ⟨n, i, v, List.mem_zipIdx_iff_getElem?.2 hn, ?_, hv, ?_⟩
    · rw [Stages.matched_of_none hsolve]
      exact pending_free i hi
    · rw [hp]
      exact .inr ⟨p.1, value, hvalue ▸ hmem, rfl⟩

theorem solves_made : Solves f g' (f.pending s.keyed) s.keyed s.all where
  extends_ i hi := by
    refine Option.ext fun v => ⟨fun hv => ?_, h.all_keyed⟩
    cases hj : s.keyed[i]? with
    | some w => rw [← hv, h.all_keyed hj]
    | none =>
      obtain ⟨-, n, properties, hn, hp⟩ :=
        h.completes.new i v (Stages.matched_of_none hsolve ▸ hj) hv
      refine absurd (h.mem_pending_iff.2 ⟨n, List.mem_zipIdx_iff_getElem?.1 hn, ?_⟩) hi
      exact Node.isKeyed_eq_false_iff.2 ⟨_, hp⟩
  placed i hi := by
    obtain ⟨v, hv, -⟩ := h.made_vertex hsolve hi
    obtain ⟨n, hn, -⟩ := h.mem_pending_iff.1 hi
    exact ⟨v, n, hv, hn, h.identityHolds_made hf hsolve hi hn hv⟩
  distinct i hi j v hv hw := h.made_distinct hsolve hi hv hw
  linked i hi l hl v w hv hw := by
    obtain ⟨y, hy, -, hlabel, hends⟩ := edge_of_link hl
    obtain ⟨v', w', e, hv', hw', he⟩ := h.connects y hy
    have hedge : hasEdge g' v' l.label w' :=
      hasEdge_iff_facts.2 ⟨e, hlabel ▸ (Graph.findEdge?_eq_some.1 he).1⟩
    unfold Linked
    obtain ⟨hout, hsource, htarget⟩ | ⟨hin, htarget, hsource⟩ := hends
    · rw [hsource, hv] at hv'
      rw [htarget, hw] at hw'
      cases hv'
      cases hw'
      rwa [if_pos hout]
    · rw [hsource, hw] at hv'
      rw [htarget, hv] at hw'
      cases hv'
      cases hw'
      rwa [if_neg (by simp [hin])]

/-! Nothing else fits: a new vertex stands for the node it was made for, and so do those next to it,
and without a new vertex there is no more to find than there was. -/

variable (hb : Solves f g' (f.pending s.keyed) s.keyed b)

include hb

theorem all_of_new (hi : i ∈ f.pending s.keyed) (hw : b[i]? = some w)
    (hnew : w ∉ s.found.vertices) : s.all[i]? = some w := by
  obtain ⟨w', n, hw', hn, hholds⟩ := hb.placed i hi
  cases hw.symm.trans hw'
  obtain ⟨j, hj, hmade⟩ := h.node_of_new (hf.vertex_of_identityHolds hn hholds) hnew
  obtain ⟨m, hm, -⟩ := h.mem_pending_iff.1 hj
  by_cases hij : i = j
  · rw [hij, hmade]
  · have hholds' := h.identityHolds_made hf hsolve hj hm hmade
    exact absurd hholds' (hf.conflict i j n m hn hm hij g' w hholds)

theorem all_of_linked (hi : i ∈ f.pending s.keyed) (hj : j ∈ f.pending s.keyed)
    (heq : s.all[i]? = b[i]?) : s.all[j]? = b[j]? := by
  by_cases hij : i = j
  · rw [← hij, heq]
  obtain ⟨n, hn, hk⟩ := h.mem_pending_iff.1 hi
  obtain ⟨m, hm, hk'⟩ := h.mem_pending_iff.1 hj
  obtain ⟨l, hl, rfl⟩ := hf.linked i j n m hn hm hk hk' hij
  obtain ⟨v, hv, hmade⟩ := h.made_vertex hsolve hi
  obtain ⟨w, -, hw, -, -⟩ := hb.placed _ hj
  obtain ⟨e, he⟩ := linked_iff_facts.1 (hb.linked i hi l hl v w (heq ▸ hv) hw)
  -- an edge of a new vertex is new, so its other end is a vertex of the fragment
  have hnot : .edge e (if l.outgoing then v else w) l.label (if l.outgoing then w else v) ∉
      s.found.facts := by
    rintro ⟨x, hx, hs, -, ht⟩
    obtain ⟨hsource, htarget⟩ := h.found_wellFormed.ends e x hx
    cases hout : l.outgoing <;> simp_all
  obtain ⟨hsource, htarget⟩ := h.ends_of_new he hnot
  obtain ⟨k, hk⟩ : ∃ k : Nat, s.all[k]? = some w := by
    cases hout : l.outgoing
    · simpa [hout] using hsource
    · simpa [hout] using htarget
  rw [hw]
  refine h.all_of_new hf hsolve hb hj hw fun hold => ?_
  exact hb.ne_assigned hj hw k (h.keyed_of_old hsolve hk hold)

/-- A solution that uses no new vertex was one before. -/
theorem solves_found (hold : ∀ i ∈ f.pending s.keyed, s.all[i]? ≠ b[i]?) :
    Solves f s.found (f.pending s.keyed) s.keyed b := by
  have hthere : ∀ i ∈ f.pending s.keyed, ∀ w : VertexId, b[i]? = some w → w ∈ s.found.vertices := by
    intro i hi w hw
    by_contra hnew
    exact hold i hi ((h.all_of_new hf hsolve hb hi hw hnew).trans hw.symm)
  refine ⟨hb.extends_, fun i hi => ?_, hb.distinct, fun i hi l hl v w hv hw => ?_⟩
  · obtain ⟨w, n, hw, hn, hholds⟩ := hb.placed i hi
    refine ⟨w, n, hw, hn, ?_⟩
    cases hp : n.identity with
    | keyed entry => simp [hp, identityHolds] at hholds
    | unkeyed properties =>
      have hsame : identityHolds g' (.unkeyed properties) w =
          identityHolds s.found (.unkeyed properties) w :=
        identityHolds_congr fun p hmem value => by
          rw [h.identity_kept hf (hb.ne_assigned hi hw) hn hp hmem,
            h.property_of_old (hthere i hi w hw)]
      rwa [hp, hsame] at hholds
  · obtain ⟨e, he⟩ := linked_iff_facts.1 (hb.linked i hi l hl v w hv hw)
    refine linked_iff_facts.2 ⟨e, ?_⟩
    by_contra hnot
    obtain ⟨hsource, htarget⟩ := h.ends_of_new he hnot
    obtain ⟨k, hk⟩ : ∃ k : Nat, s.all[k]? = some v := by
      cases hout : l.outgoing
      · simpa [hout] using htarget
      · simpa [hout] using hsource
    exact hb.ne_assigned hi hv k (h.keyed_of_old hsolve hk (hthere i hi v hv))

theorem solves_made_unique : b = s.all := by
  by_cases hsome : ∃ i ∈ f.pending s.keyed, s.all[i]? = b[i]?
  · obtain ⟨i, hi, heq⟩ := hsome
    refine Std.ExtTreeMap.ext_getElem? fun j => ?_
    by_cases hj : j ∈ f.pending s.keyed
    · exact (h.all_of_linked hf hsolve hb hi hj heq).symm
    · rw [hb.extends_ j hj, (h.solves_made hf hsolve).extends_ j hj]
  · obtain ⟨a, ha⟩ := solve_ne_none (h.anchored hf)
      (h.solves_found hf hsolve hb fun i hi heq => hsome ⟨i, hi, heq⟩)
    rw [hsolve] at ha
    cases ha

omit hb

theorem solve_made : f.solve g' s.keyed = some s.all := by
  obtain ⟨b, hb⟩ := solve_ne_none (h.anchored hf) (h.solves_made hf hsolve)
  rw [hb, h.solves_made_unique hf hsolve (solve_eq_some hb)]

end Made

/-- The search finds the vertices that the merge used. -/
theorem solve_eq (h : f.Passes g s report g') (hf : f.Coherent) :
    f.solve g' s.keyed = some s.all := by
  cases hsolve : f.solve s.found s.keyed with
  | some a => exact h.solve_found hf hsolve
  | none => exact h.solve_made hf hsolve

end Passes

end Fragment

end QuadStore
