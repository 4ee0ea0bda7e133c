import Mathlib
import QuadStore.Proofs.Fragment.Clearing
/-!
# Looking keyed nodes up

The keyed nodes of a fragment whose roles are there are assigned to the vertices of their roles, and
the lookup fails only where a node that is not optional has none.
-/

namespace QuadStore

namespace Fragment

variable {ν : Type} {g : Graph} {P : Placement ν} {F : Facts ν} {f : Fragment} {role : Nat → ν}
  {identity : ν → Identity} {a a' : Assignment} {nodes : List (Node × Nat)} {n : Node} {i : Nat}

theorem lookup?_keyed (h : g.Shows P F) (hs : Settled identity F) (honce : KeyedOnce identity)
    {p : ν} {entry : Entry} (hp : identity p = .keyed entry) {v : VertexId} :
    g.lookup? entry = some v ↔ .vertex p ∈ F ∧ P.vertex p = v := by
  rw [h.lookup?_eq_some]
  constructor
  · rintro ⟨q, hq, rfl⟩
    obtain rfl := honce _ _ _ (hs.key q entry hq) hp
    exact ⟨h.grounded _ hq, rfl⟩
  · rintro ⟨hvertex, rfl⟩
    exact ⟨p, hs.key_mem hvertex hp, rfl⟩

/-- Assign the vertex of a keyed node, as far as there is one. -/
def lookupNode (g : Graph) (a : Assignment) (y : Node × Nat) : Option Assignment :=
  match y.1.identity with
  | .unkeyed _ => some a
  | .keyed entry =>
    match g.lookup? entry with
    | some v => some (a.insert y.2 v)
    | none => if y.1.optional then some a else none

theorem lookupNode_unkeyed (hk : n.isKeyed = false) : lookupNode g a (n, i) = some a := by
  obtain ⟨properties, hi⟩ := Node.isKeyed_eq_false_iff.1 hk
  simp only [lookupNode, hi]

section Keyed

variable (h : g.Shows P F) (hs : Settled identity F) (honce : KeyedOnce identity)
  (hn : n.identity = identity (role i)) (hk : n.isKeyed)

include h hs honce hn hk

theorem lookupNode_present (hp : .vertex (role i) ∈ F) :
    lookupNode g a (n, i) = some (a.insert i (P.vertex (role i))) := by
  obtain ⟨entry, hi⟩ := Node.isKeyed_iff.1 hk
  have hlookup := (lookup?_keyed h hs honce (hn ▸ hi)).2 ⟨hp, rfl⟩
  simp only [lookupNode, hi, hlookup]

theorem lookupNode_absent (hp : .vertex (role i) ∉ F) :
    lookupNode g a (n, i) = if n.optional then some a else none := by
  obtain ⟨entry, hi⟩ := Node.isKeyed_iff.1 hk
  have hlookup : g.lookup? entry = none := by
    rw [Option.eq_none_iff_forall_ne_some]
    intro v hv
    exact hp ((lookup?_keyed h hs honce (hn ▸ hi)).1 hv).1
  simp only [lookupNode, hi, hlookup]

end Keyed

/-- A keyed node whose role is there is at the place. -/
def Present (nodes : List (Node × Nat)) (role : Nat → ν) (F : Facts ν) (i : Nat) : Prop :=
  ∃ n, (n, i) ∈ nodes ∧ n.isKeyed ∧ .vertex (role i) ∈ F

/-- The roles of the keyed nodes that are not optional are there. -/
def Required (nodes : List (Node × Nat)) (role : Nat → ν) (F : Facts ν) : Prop :=
  ∀ n i, (n, i) ∈ nodes → n.isKeyed → n.optional = false → .vertex (role i) ∈ F

theorem present_cons {j : Nat} {rest : List (Node × Nat)} :
    Present ((n, j) :: rest) role F i ↔
      (i = j ∧ n.isKeyed ∧ .vertex (role j) ∈ F) ∨ Present rest role F i := by
  simp only [Present, List.mem_cons, Prod.mk.injEq, or_and_right, exists_or]
  refine or_congr_left ⟨?_, ?_⟩
  · rintro ⟨_, ⟨rfl, rfl⟩, hk⟩
    exact ⟨rfl, hk⟩
  · rintro ⟨rfl, hk⟩
    exact ⟨n, ⟨rfl, rfl⟩, hk⟩

/-- A node that does not stop the lookup is assigned to the vertex of its role, if it is keyed and its
role is there. -/
theorem lookupNode_eq_some {j : Nat} (h : g.Shows P F) (hs : Settled identity F)
    (honce : KeyedOnce identity) (hn : n.identity = identity (role j))
    (hstep : lookupNode g a (n, j) = some a') :
    (n.isKeyed → n.optional = false → .vertex (role j) ∈ F) ∧ ∀ i : Nat,
      ((i = j ∧ n.isKeyed ∧ .vertex (role j) ∈ F) → a'[i]? = some (P.vertex (role i))) ∧
      (¬(i = j ∧ n.isKeyed ∧ .vertex (role j) ∈ F) → a'[i]? = a[i]?) := by
  by_cases hk : n.isKeyed
  · by_cases hp : .vertex (role j) ∈ F
    · rw [lookupNode_present h hs honce hn hk hp] at hstep
      cases hstep
      refine ⟨fun _ _ => hp, fun i => ⟨?_, fun hne => ?_⟩⟩
      · rintro ⟨rfl, -⟩
        exact Std.ExtTreeMap.getElem?_insert_self
      · rw [Std.ExtTreeMap.getElem?_insert, if_neg]
        rw [Std.compare_eq_iff_eq]
        exact fun heq => hne ⟨heq.symm, hk, hp⟩
    · rw [lookupNode_absent h hs honce hn hk hp] at hstep
      split at hstep
      · rename_i hoptional
        cases hstep
        exact ⟨fun _ hrequired => by simp [hoptional] at hrequired,
          fun i => ⟨fun hi => absurd hi.2.2 hp, fun _ => rfl⟩⟩
      · cases hstep
  · rw [lookupNode_unkeyed (by simpa using hk)] at hstep
    cases hstep
    exact ⟨fun hk' => absurd hk' hk, fun i => ⟨fun hi => absurd hi.2.1 hk, fun _ => rfl⟩⟩

theorem foldlM_lookupNode (h : g.Shows P F) (hs : Settled identity F) (honce : KeyedOnce identity)
    (hnodes : ∀ n i, (n, i) ∈ nodes → n.identity = identity (role i))
    (hfold : nodes.foldlM (lookupNode g) a = some a') :
    Required nodes role F ∧ ∀ i : Nat,
      (Present nodes role F i → a'[i]? = some (P.vertex (role i))) ∧
      (¬Present nodes role F i → a'[i]? = a[i]?) := by
  induction nodes generalizing a with
  | nil =>
    cases hfold
    exact ⟨by simp [Required], fun i => ⟨by simp [Present], fun _ => rfl⟩⟩
  | cons y rest ih =>
    obtain ⟨n, j⟩ := y
    have hn := hnodes n j (List.mem_cons_self ..)
    have hrest := fun n i hmem => hnodes n i (List.mem_cons_of_mem _ hmem)
    rw [List.foldlM_cons, Option.bind_eq_bind, Option.bind_eq_some_iff] at hfold
    obtain ⟨b, hstep, hfold⟩ := hfold
    obtain ⟨hrequired, hassigned⟩ := ih hrest hfold
    obtain ⟨hhead, hfirst⟩ := lookupNode_eq_some h hs honce hn hstep
    refine ⟨fun m i hmem => ?_, fun i => ⟨fun hi => ?_, fun hi => ?_⟩⟩
    · rcases List.mem_cons.1 hmem with heq | hmem
      · cases heq
        exact hhead
      · exact hrequired m i hmem
    · by_cases hlater : Present rest role F i
      · exact (hassigned i).1 hlater
      · rw [(hassigned i).2 hlater]
        exact (hfirst i).1 ((present_cons.1 hi).resolve_right hlater)
    · rw [present_cons, not_or] at hi
      rw [(hassigned i).2 hi.2, (hfirst i).2 hi.1]

theorem foldlM_lookupNode_ne_none (h : g.Shows P F) (hs : Settled identity F)
    (honce : KeyedOnce identity)
    (hnodes : ∀ n i, (n, i) ∈ nodes → n.identity = identity (role i))
    (hrequired : Required nodes role F) : ∃ a', nodes.foldlM (lookupNode g) a = some a' := by
  induction nodes generalizing a with
  | nil => exact ⟨a, rfl⟩
  | cons y rest ih =>
    obtain ⟨n, j⟩ := y
    have hn := hnodes n j (List.mem_cons_self ..)
    have hstep : ∃ b, lookupNode g a (n, j) = some b := by
      by_cases hk : n.isKeyed
      · by_cases hp : .vertex (role j) ∈ F
        · exact ⟨_, lookupNode_present h hs honce hn hk hp⟩
        · have hoptional : n.optional := by
            by_contra hnot
            exact hp (hrequired n j (List.mem_cons_self ..) hk (by simpa using hnot))
          exact ⟨a, by rw [lookupNode_absent h hs honce hn hk hp, if_pos hoptional]⟩
      · exact ⟨a, lookupNode_unkeyed (by simpa using hk)⟩
    obtain ⟨b, hb⟩ := hstep
    rw [List.foldlM_cons, hb]
    exact ih (fun n i hmem => hnodes n i (List.mem_cons_of_mem _ hmem))
      fun n i hmem => hrequired n i (List.mem_cons_of_mem _ hmem)

end Fragment

end QuadStore
