import Mathlib
import QuadStore.Proofs.Encoder.Finding
import QuadStore.Proofs.Encoder.Texts
/-!
# Adding a statement

Merging the fragment of a statement into a graph that can be read adds what is said of the
statement. So from the graph of a dataset it leaves the graph of the dataset with the statement.
-/

namespace QuadStore

namespace Encoder

variable {e : Encoder} {t : Triple} {C A : UriSet} {M : Dataset} {F : Facts Part}
  {f : Fragment} {parts : List Part} {g : Graph} {P : Placement Part} {a : Assignment}

namespace Sketches

theorem keyedFacts_eq (h : e.Sketches t C f parts) :
    Fragment.keyedFacts f.nodes.zipIdx (role t parts) =
      e.spare {r | e.Needs t C (.resource r)} := by
  ext x
  simp only [Fragment.keyedFacts, Fragment.identityFacts, List.mem_filter, Prod.exists,
    List.mem_zipIdx_iff_getElem?, spare, Set.mem_ofPred_eq]
  constructor
  · rintro ⟨n, i, ⟨hn, hk⟩, hx⟩
    obtain ⟨r, hr⟩ := (h.isKeyed_iff hn).1 hk
    have hneeds := h.needs_role (List.getElem?_eq_some_iff.1 hn).1
    rw [(h.standsFor hn).identity, hr] at hx
    exact ⟨r, hr ▸ hneeds, hx⟩
  · rintro ⟨r, hneeds, hx⟩
    obtain ⟨i, n, hn, hr⟩ := h.player hneeds
    refine ⟨n, i, ⟨hn, (h.isKeyed_iff hn).2 ⟨r, hr⟩⟩, ?_⟩
    rwa [(h.standsFor hn).identity, hr]

/-- A triple without a middle vertex has keyed nodes only. -/
theorem keyed_of_direct (h : e.Sketches t C f parts) (hm : e.middle? t = none) {i : Nat} {n : Node}
    (hn : f.nodes[i]? = some n) : n.isKeyed := by
  rw [h.isKeyed_iff hn]
  by_contra hne
  push Not at hne
  obtain heq | heq := unkeyed_needs (h.needs_role (List.getElem?_eq_some_iff.1 hn).1) hne
  · rw [hm] at heq
    cases heq
  · rw [target_of_direct hm] at heq
    cases heq

theorem solve_direct (h : e.Sketches t C f parts) (hm : e.middle? t = none) :
    f.solve g a = some a := by
  have hnil : f.pending a = [] := by
    rw [List.eq_nil_iff_forall_not_mem]
    intro i hi
    obtain ⟨⟨n, hn, hk⟩, -⟩ := Fragment.mem_pending.1 hi
    rw [h.keyed_of_direct hm hn] at hk
    cases hk
  rw [Fragment.solve_eq_search, hnil, Fragment.search]
  rfl

/-- Where the resources of a triple are all there, so are those that keyed nodes stand for. -/
theorem keyed_present (h : e.Sketches t C f parts)
    (hpresent : ∀ r, e.Needs t C (.resource r) → .vertex (.resource r) ∈ F) {i : Nat} {n : Node}
    (hn : f.nodes[i]? = some n) (hk : n.isKeyed) : .vertex (role t parts i) ∈ F := by
  obtain ⟨r, hr⟩ := (h.isKeyed_iff hn).1 hk
  rw [hr]
  exact hpresent r (hr ▸ h.needs_role (List.getElem?_eq_some_iff.1 hn).1)

theorem unkeyed_role (h : e.Sketches t C f parts) {i : Nat} {n : Node}
    (hn : f.nodes[i]? = some n) (hk : n.isKeyed = false) :
    i < f.nodes.length ∧ ∀ r, role t parts i ≠ .resource r := by
  refine ⟨(List.getElem?_eq_some_iff.1 hn).1, fun r hr => ?_⟩
  rw [(h.isKeyed_iff hn).2 ⟨r, hr⟩] at hk
  cases hk

theorem seats (h : e.Sketches t C f parts)
    (hpresent : ∀ r, e.Needs t C (.resource r) → .vertex (.resource r) ∈ F)
    (ha : f.AssignsKeyed (role t parts) P a) : f.Seats (role t parts) P F a := by
  intro i v
  constructor
  · intro hi
    obtain ⟨n, hn, hk⟩ := ha.only i (mem_of_getElem?_eq hi)
    have hassigned := ha.keyed i n hn hk
    exact ⟨n, hn, hk, h.keyed_present hpresent hn hk, Option.some.inj (hassigned.symm.trans hi)⟩
  · rintro ⟨n, hn, hk, -, rfl⟩
    exact ha.keyed i n hn hk

/-- The nodes of the triple are found if its middle vertex is there, and none of them else. -/
theorem resolves (h : e.Sketches t C f parts) (hF : Legible e.vocabulary F)
    (hv : e.vocabulary.Valid) (hg : g.Shows P F)
    (hpresent : ∀ r, e.Needs t C (.resource r) → .vertex (.resource r) ∈ F)
    (ha : f.AssignsKeyed (role t parts) P a) : f.Resolves g (role t parts) P F a := by
  have hseats := h.seats hpresent ha
  cases hm : e.middle? t with
  | none =>
    refine .inl ⟨a, h.solve_direct hm, fun i n hn => ?_⟩
    have hk := h.keyed_of_direct hm hn
    exact ⟨h.keyed_present hpresent hn hk, ha.keyed i n hn hk⟩
  | some m =>
    cases hsolve : f.solve g a with
    | none =>
      refine .inr ⟨hsolve, fun i n hn hk hvertex => ?_⟩
      obtain ⟨hlt, hnot⟩ := h.unkeyed_role hn hk
      obtain ⟨a', ha'⟩ := h.solve_stored hF hv hg hseats hm
        ((unkeyed_vertex_iff hF hm (h.needs_role hlt) hnot).1 hvertex)
      rw [hsolve] at ha'
      cases ha'
    | some a' =>
      obtain ⟨hvertex, hfound⟩ := h.found hF hv hg hseats (hpresent _ .subject)
        (fun r hr => hpresent r (.object hr)) hm hsolve
      refine .inl ⟨a', hsolve, fun i n hn => ?_⟩
      cases hk : n.isKeyed with
      | true =>
        obtain ⟨r, hr⟩ := (h.isKeyed_iff hn).1 hk
        have hthere := h.keyed_present hpresent hn hk
        have hlt := (List.getElem?_eq_some_iff.1 hn).1
        rw [hr] at hthere ⊢
        exact ⟨hthere, h.keyed_solved hseats (Fragment.solve_eq_some hsolve) hlt hr hthere⟩
      | false =>
        obtain ⟨hlt, hnot⟩ := h.unkeyed_role hn hk
        exact ⟨(unkeyed_vertex_iff hF hm (h.needs_role hlt) hnot).2 hvertex,
          hfound i ((h.mem_pending hseats).2 ⟨hlt, hnot⟩)⟩

/-- Merging the fragment adds what is said of the triple and hands on its texts. -/
theorem mergeInto_shows (h : e.Sketches t C f parts) (hF : Legible e.vocabulary F)
    (hv : e.vocabulary.Valid) (hg : g.Shows P F) :
    Yields f.mergeInto g fun x g' => ∃ P' : Placement Part, P'.Extends P F ∧
      g'.Shows P' (F ∪ e.depiction t C) ∧
      ∀ c, c ∈ x.2 ↔ ∃ y ∈ e.texts t, c = .insert (P'.text y) := by
  refine (Fragment.mergeInto_yields hg hF.settled hv.keyedOnce h.casts ?_).mono ?_
  · intro g' P' a _ hg' ha
    rw [h.keyedFacts_eq] at hg' ⊢
    exact h.resolves (hF.union (legible_spare hv)) hv hg'
      (fun r hr => .inr ⟨r, hr, Identity.vertex_mem.2 rfl⟩) ha
  · rintro x g' ⟨P', a, hP', hg', htexts, ha⟩
    rw [h.facts] at hg'
    exact ⟨P', hP', hg', fun c => htexts ▸ h.mem_mergedTexts ha⟩

/-- Merging the fragment into the graph of a dataset adds the statement to the dataset. -/
theorem mergeInto_yields (h : e.Sketches t C f parts) (hv : e.vocabulary.Valid)
    (hg : g.Shows P (e.image M)) :
    Yields f.mergeInto g fun x g' => ∃ P' : Placement Part, P'.Extends P (e.image M) ∧
      g'.Shows P' (e.image (M.add t C)) ∧
      ∀ c, c ∈ x.2 ↔ ∃ y ∈ e.texts t, c = .insert (P'.text y) := by
  have hF : Legible e.vocabulary (e.image M) := imageWith_empty (e := e) ▸ legible_imageWith hv
  rw [image_add]
  exact h.mergeInto_shows hF hv hg

end Sketches

end Encoder

end QuadStore
