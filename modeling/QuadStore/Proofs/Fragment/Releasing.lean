import Mathlib
import QuadStore.Proofs.Fragment.Clearing
/-!
# Releasing index entries

An index entry of a fragment is dropped once its rule says so, and nothing else is.
-/

namespace QuadStore

namespace Fragment

variable {ν : Type} {g : Graph} {P : Placement ν} {F F' G : Facts ν} {p q : ν} {f : Fragment}
  {role : Nat → ν} {n : Node} {i : Nat} {r : Removal} {a : Assignment}

/-- The rule of an index entry says that the facts no longer call for it. -/
def Released (F : Facts ν) (p : ν) (x : IndexEntry) : Prop :=
  match x.release with
  | .withVertex => False
  | .whenNoProperty (some key) => .property p ⟨key, x.entry.value⟩ ∉ F
  | .whenNoProperty none =>
    ∀ key, isInternal key = false → .property p ⟨key, x.entry.value⟩ ∉ F
  | .whenNoEdgeProperty label key =>
    ∀ q, .edgeProperty ⟨p, label, q⟩ ⟨key, x.entry.value⟩ ∉ F

theorem isReleased_iff {x : IndexEntry} (h : g.Shows P F) (hp : .vertex p ∈ F) :
    isReleased g (P.vertex p) x ↔ Released F p x := by
  obtain ⟨entry, release⟩ := x
  cases release with
  | withVertex => simp [isReleased, Released]
  | whenNoProperty key =>
    cases key with
    | some key =>
      simp only [isReleased, Released, EntrySet.has, Bool.not_eq_true', ← Bool.not_eq_true,
        Std.ExtTreeSet.contains_iff_mem, h.mem_propertiesOf hp]
    | none =>
      simp only [isReleased, Released, Bool.not_eq_true']
      rw [← Bool.not_eq_true, set_any_iff]
      constructor
      · intro hnone key hkey hmem
        refine hnone ⟨_, (h.mem_propertiesOf hp).2 hmem, ?_⟩
        simp [hkey]
      · rintro hnone ⟨⟨key, value⟩, hmem, hentry⟩
        simp only [Bool.and_eq_true, Bool.not_eq_true', beq_iff_eq] at hentry
        obtain ⟨hkey, rfl⟩ := hentry
        exact hnone key hkey ((h.mem_propertiesOf hp).1 hmem)
  | whenNoEdgeProperty label key =>
    simp only [isReleased, Released, Bool.not_eq_true']
    obtain ⟨bs, -, hmap, hmem⟩ := h.edgesAt_eq hp (some label) .outgoing
    rw [← Bool.not_eq_true, ← hmap, List.any_map, List.any_eq_true]
    have hbond : ∀ {b : Bond ν}, .bond b ∈ F → ((P.edgeOf g b).2.properties.has key entry.value ↔
        .edgeProperty b ⟨key, entry.value⟩ ∈ F) := fun hb => by
      rw [EntrySet.has, Std.ExtTreeSet.contains_iff_mem]
      exact h.mem_edgePropertiesOf hb
    constructor
    · intro hnone q hq
      have hb : .bond ⟨p, label, q⟩ ∈ F := h.grounded _ hq
      exact hnone ⟨_, (hmem _).2 ⟨hb, rfl, by simp⟩, (hbond hb).2 hq⟩
    · rintro hnone ⟨⟨s, l, t⟩, hb, hhas⟩
      obtain ⟨hb, rfl, hl⟩ := (hmem _).1 hb
      simp only [Option.mem_def, Option.some.injEq, forall_eq'] at hl
      subst hl
      exact hnone t ((hbond hb).1 hhas)

/-- The facts are the given ones and index entries that are still to be dropped. -/
structure Releasing (G : Facts ν) (due : ν → IndexEntry → Prop) (F : Facts ν) : Prop where
  base : G ⊆ F
  due : ∀ y ∈ F, y ∉ G → ∃ p x, due p x ∧ Released G p x ∧ y = .indexed p x.entry

theorem Releasing.released_iff {due : ν → IndexEntry → Prop} {x : IndexEntry}
    (h : Releasing G due F) : Released F p x ↔ Released G p x := by
  have hmem : ∀ y : Fact ν (Bond ν), (∀ p entry, y ≠ .indexed p entry) → (y ∈ F ↔ y ∈ G) :=
    fun y hy => ⟨fun hF => by
      by_contra hG
      obtain ⟨p, x, -, -, rfl⟩ := h.due y hF hG
      exact hy _ _ rfl, fun hG => h.base hG⟩
  have hproperty : ∀ p entry, .property p entry ∈ F ↔ .property p entry ∈ G := fun p entry =>
    hmem _ (by simp)
  have hedge : ∀ b entry, .edgeProperty b entry ∈ F ↔ .edgeProperty b entry ∈ G := fun b entry =>
    hmem _ (by simp)
  obtain ⟨entry, release⟩ := x
  cases release with
  | withVertex => exact Iff.rfl
  | whenNoProperty key => cases key <;> simp only [Released, hproperty]
  | whenNoEdgeProperty label key => simp only [Released, hedge]

/-- An entry that is left is due if it was due before. -/
theorem Releasing.imp {due due' : ν → IndexEntry → Prop} (h : Releasing G due F) (hbase : G ⊆ F')
    (hsub : F' ⊆ F) (himp : ∀ p x, .indexed p x.entry ∈ F' → Released G p x → due p x → due' p x) :
    Releasing G due' F' where
  base := hbase
  due y hy hG := by
    obtain ⟨p, x, hx, hreleased, rfl⟩ := h.due y (hsub hy) hG
    exact ⟨p, x, himp p x hy hreleased hx, hreleased, rfl⟩

/-- An entry that is dropped, or that is not to be, is no longer due. -/
theorem Releasing.next {due : ν → IndexEntry → Prop} {x : IndexEntry} {rest : List IndexEntry}
    (h : Releasing G (fun q z => (q = p ∧ z ∈ x :: rest) ∨ due q z) F) (hbase : G ⊆ F')
    (hsub : F' ⊆ F) (hdone : Released G p x → .indexed p x.entry ∉ F') :
    Releasing G (fun q z => (q = p ∧ z ∈ rest) ∨ due q z) F' := by
  refine h.imp hbase hsub ?_
  rintro q z hthere hreleased (⟨rfl, hmem⟩ | hz)
  · obtain rfl | hmem := List.mem_cons.1 hmem
    · exact absurd hthere (hdone hreleased)
    · exact .inl ⟨rfl, hmem⟩
  · exact .inr hz

/-- The index entries of one node. -/
theorem releaseEntries_yields {due : ν → IndexEntry → Prop} {items : List IndexEntry}
    (h : g.Shows P F) (hp : .vertex p ∈ G)
    (hF : Releasing G (fun q x => (q = p ∧ x ∈ items) ∨ due q x) F)
    (hkeep : ∀ x ∈ items, Released G p x → .indexed p x.entry ∉ G) :
    Yields (items.forM fun entry => do
      if isReleased (← GraphM.graph) (P.vertex p) entry then
        let _ ← GraphM.perform (.unindexVertex (P.vertex p) entry.entry)) g
      fun _ g' => ∃ F' ⊆ F, g'.Shows P F' ∧ Releasing G due F' := by
  let I (rest : List IndexEntry) (g' : Graph) : Prop :=
    ∃ F' ⊆ F, g'.Shows P F' ∧ Releasing G (fun q x => (q = p ∧ x ∈ rest) ∨ due q x) F'
  have hstart : I items g := ⟨F, subset_rfl, h, hF⟩
  refine (Yields.forM (I := I) ?_ hstart).mono ?_
  · rintro x hx rest g' ⟨F', hsub, h', hF'⟩
    refine Yields.graph_bind ?_
    have hreleased : isReleased g' (P.vertex p) x ↔ Released G p x := by
      rw [isReleased_iff h' (hF'.base hp), hF'.released_iff]
    by_cases hg : Released G p x
    · rw [if_pos (hreleased.2 hg)]
      refine (h'.unindexVertex (hF'.base hp)).bind fun _ g'' h'' => Yields.pure ?_
      refine ⟨_, Set.sdiff_subset.trans hsub, h'',
        hF'.next (fun y hy => ⟨hF'.base hy, ?_⟩) Set.sdiff_subset fun _ hthere => hthere.2 rfl⟩
      rintro rfl
      exact hkeep x hx hg hy
    · rw [if_neg (mt hreleased.1 hg)]
      exact Yields.pure ⟨F', hsub, h', hF'.next hF'.base subset_rfl fun hx => absurd hx hg⟩
  · rintro _ g' ⟨F', hsub, h', hF'⟩
    refine ⟨F', hsub, h', hF'.imp hF'.base subset_rfl fun q z _ _ hz => ?_⟩
    exact hz.resolve_left fun hnil => List.not_mem_nil hnil.2

/-- A node is passed over if its vertex is dead or gone. -/
theorem passed_iff {F₀ : Facts ν} {g' : Graph} (h : g.Shows P F) (h' : g'.Shows P F')
    (hF' : F' ⊆ F) (hsub : F ⊆ F₀)
    (hinjective : ∀ p q, .vertex p ∈ F₀ → .vertex q ∈ F₀ → P.vertex p = P.vertex q → p = q)
    (hdead : ∀ x ∈ r.dead, x ∉ g.vertices) (hp : .vertex p ∈ F₀) :
    (r.dead.contains (P.vertex p) || !g'.hasVertex (P.vertex p)) ↔ .vertex p ∉ F' := by
  rw [Bool.or_eq_true, List.contains_iff_mem, Bool.not_eq_true', ← Bool.not_eq_true,
    Graph.hasVertex, Std.ExtTreeMap.contains_iff_mem, h'.mem_vertices]
  constructor
  · rintro (hd | hnone) hthere
    · exact hdead _ hd (h.vertex_mem (hF' hthere))
    · exact hnone ⟨_, hthere, rfl⟩
  · intro hgone
    refine .inr ?_
    rintro ⟨q, hq, heq⟩
    rw [hinjective _ _ hp (hsub (hF' hq)) heq.symm] at hgone
    exact hgone hq

/-- An index entry of one of the nodes, at the vertex of its role. -/
def Listed (role : Nat → ν) (nodes : List (Node × Nat)) (p : ν) (x : IndexEntry) : Prop :=
  ∃ y ∈ nodes, p = role y.2 ∧ x ∈ y.1.index

theorem listed_cons {rest : List (Node × Nat)} {x : IndexEntry} :
    Listed role ((n, i) :: rest) p x ↔ (p = role i ∧ x ∈ n.index) ∨ Listed role rest p x := by
  simp only [Listed, List.mem_cons, or_and_right, exists_or, exists_eq_left]

/-- A node whose vertex is gone has no entries left to drop. -/
theorem Releasing.skip {rest : List (Node × Nat)} (h : g.Shows P F)
    (hF : Releasing G (Listed role ((n, i) :: rest)) F) (hgone : .vertex (role i) ∉ F) :
    Releasing G (Listed role rest) F := by
  refine hF.imp hF.base subset_rfl fun p x hthere _ hx => ?_
  obtain ⟨rfl, -⟩ | hx := listed_cons.1 hx
  · exact absurd (h.grounded _ hthere) hgone
  · exact hx

/-- Dropping the index entries that are due leaves the given facts. The nodes were placed before
anything was taken out. -/
theorem releaseIndexes_yields {F₀ : Facts ν} (h : g.Shows P F) (ha : f.Placed role P F₀ a)
    (hsub : F ⊆ F₀)
    (hinjective : ∀ p q, .vertex p ∈ F₀ → .vertex q ∈ F₀ → P.vertex p = P.vertex q → p = q)
    (hdead : ∀ x ∈ r.dead, x ∉ g.vertices) (hbase : G ⊆ F)
    (hdue : ∀ y ∈ F, y ∉ G → ∃ i n x, f.nodes[i]? = some n ∧ x ∈ n.index ∧
      Released G (role i) x ∧ y = .indexed (role i) x.entry)
    (hkeep : ∀ i n, f.nodes[i]? = some n → ∀ x ∈ n.index, .vertex (role i) ∈ G →
      Released G (role i) x → .indexed (role i) x.entry ∉ G)
    (hvertex : ∀ p, .vertex p ∈ F → .vertex p ∈ G) :
    Yields (f.nodes.zipIdx.forM fun (n, i) => releaseIndex a r i n) g fun _ g' => g'.Shows P G := by
  let I (rest : List (Node × Nat)) (g' : Graph) : Prop :=
    ∃ F' ⊆ F, g'.Shows P F' ∧ Releasing G (Listed role rest) F'
  have hstart : I f.nodes.zipIdx g := by
    refine ⟨F, subset_rfl, h, hbase, fun y hy hG => ?_⟩
    obtain ⟨i, n, x, hn, hx, hreleased, rfl⟩ := hdue y hy hG
    exact ⟨role i, x, ⟨(n, i), List.mem_zipIdx_iff_getElem?.2 hn, rfl, hx⟩, hreleased, rfl⟩
  refine (Yields.forM (I := I) ?_ hstart).mono ?_
  · rintro ⟨n, i⟩ hmem rest g' ⟨F', hF', h', hreleasing⟩
    have hn : f.nodes[i]? = some n := List.mem_zipIdx_iff_getElem?.1 hmem
    simp only [releaseIndex]
    cases hassigned : a[i]? with
    | none =>
      refine Yields.pure ⟨F', hF', h', hreleasing.skip h' fun hv => ?_⟩
      rw [ha.assigned hn rfl (hsub (hF' hv))] at hassigned
      cases hassigned
    | some v =>
      obtain ⟨-, hv, rfl⟩ := (ha i v).1 hassigned
      refine Yields.graph_bind ?_
      have hgone := passed_iff (r := r) h h' hF' hsub hinjective hdead hv
      by_cases hp : .vertex (role i) ∈ F'
      · rw [if_neg fun hcond => hgone.1 hcond hp]
        have hpG := hvertex _ (hF' hp)
        have hsplit := hreleasing.imp hreleasing.base subset_rfl fun _ _ _ _ => listed_cons.1
        refine (releaseEntries_yields h' hpG hsplit fun x hx =>
          hkeep i n hn x hx hpG).mono ?_
        rintro _ g'' ⟨F'', hF'', h'', hreleasing'⟩
        exact ⟨F'', hF''.trans hF', h'', hreleasing'⟩
      · rw [if_pos (hgone.2 hp)]
        exact Yields.pure ⟨F', hF', h', hreleasing.skip h' hp⟩
  · rintro _ g' ⟨F', -, h', hreleasing⟩
    refine h'.congr (Set.Subset.antisymm (fun y hy => ?_) hreleasing.base)
    by_contra hG
    obtain ⟨p, x, ⟨z, hz, -⟩, -⟩ := hreleasing.due y hy hG
    cases hz

end Fragment

end QuadStore
