import Mathlib
import QuadStore.Fragment.Checked
import QuadStore.Proofs.Fragment.Sparing
/-!
# Searching with every read checked

The search reads at vertices of the graph, and at vertices that were assigned before it began. A
read fails only where one of the latter is missing. Then a pending node is linked to it, and nothing
can stand for that node: a search that fails would not have found anything.
-/

namespace QuadStore

variable {α β : Type} {g : Graph} {E : Prop}

/-! ## Reads that may fail -/

/-- A read that gives this answer, or that fails for the reason `E`. -/
inductive OkOr (E : Prop) (a : α) : Except GraphError α → Prop where
  | ok : OkOr E a (.ok a)
  | error {cause : GraphError} (h : E) : OkOr E a (.error cause)

namespace OkOr

variable {a : α} {b : β} {x : Except GraphError α}

theorem eq_ok (h : OkOr E a x) (hE : ¬E) : x = .ok a := by
  cases h with
  | ok => rfl
  | error h => exact absurd h hE

theorem eq_of_ok {c : α} (h : OkOr E a x) (hx : x = .ok c) : c = a := by
  cases h with
  | ok => exact (Except.ok.inj hx).symm
  | error h => cases hx

theorem of_error {cause : GraphError} (h : OkOr E a x) (hx : x = .error cause) : E := by
  cases h with
  | ok => cases hx
  | error h => exact h

theorem bind {next : α → Except GraphError β} (h : OkOr E a x) (hnext : OkOr E b (next a)) :
    OkOr E b (x >>= next) := by
  cases h with
  | ok => exact hnext
  | error h => exact .error h

theorem allM {p : α → Except GraphError Bool} {q : α → Bool} {xs : List α}
    (h : ∀ x ∈ xs, OkOr E (q x) (p x)) : OkOr E (xs.all q) (xs.allM p) := by
  induction xs with
  | nil => exact .ok
  | cons x xs ih =>
    rw [List.allM_cons, List.all_cons]
    refine (h x (List.mem_cons_self ..)).bind ?_
    cases q x with
    | true => exact ih fun y hy => h y (List.mem_cons_of_mem _ hy)
    | false => exact .ok

end OkOr

/-! ## Where vertices come from -/

namespace Graph

variable {a a₀ : Assignment} {i : Nat} {v : VertexId}

/-- What is assigned is in the graph, or was assigned before. -/
def HostsSince (g : Graph) (a₀ a : Assignment) : Prop :=
  ∀ (i : Nat) (v : VertexId), a[i]? = some v → v ∈ g.vertices ∨ a₀[i]? = some v

theorem HostsSince.start (a : Assignment) : g.HostsSince a a := fun _ _ h => .inr h

theorem HostsSince.insert (h : g.HostsSince a₀ a) (hv : v ∈ g.vertices) :
    g.HostsSince a₀ (a.insert i v) :=
  Assignment.forall_insert h (.inl hv)

theorem HostsSince.erase (h : g.HostsSince a₀ a) : g.HostsSince a₀ (a.erase i) :=
  Assignment.forall_erase h

end Graph

namespace Fragment

variable {f : Fragment} {a a₀ : Assignment} {i : Nat} {x w : VertexId} {pending : List Nat}

/-- A pending node is linked to one that stands for a missing vertex. -/
def Dangling (f : Fragment) (g : Graph) (a : Assignment) : Prop :=
  ∃ i ∈ f.pending a, ∃ l ∈ f.links i, ∃ v, a[l.neighbour]? = some v ∧ v ∉ g.vertices

theorem not_dangling_of_hosts (h : g.Hosts a) : ¬f.Dangling g a := by
  rintro ⟨i, -, l, -, v, hv, hmissing⟩
  exact hmissing (h _ v hv)

namespace Checked

/-! ## The steps of the search -/

theorem candidates_okOr {l : Link} (h : x ∉ g.vertices → E) :
    OkOr E (Fragment.candidates g l x) (candidates g l x) := by
  unfold candidates
  by_cases hx : x ∈ g.vertices
  · rw [Graph.findEdges_ok hx]
    exact .ok
  · rw [Graph.findEdges_missing hx]
    exact .error (h hx)

theorem identityHolds_okOr {identity : Identity} (hx : x ∈ g.vertices) :
    OkOr E (Fragment.identityHolds g identity x) (identityHolds g identity x) := by
  cases identity with
  | keyed entry => exact .ok
  | unkeyed properties =>
    refine .allM fun p _ => ?_
    rw [Graph.property_ok hx]
    exact .ok

theorem hasEdge_okOr {label : String} (h : x ∉ g.vertices → E) :
    OkOr E (Fragment.hasEdge g x label w) (hasEdge g x label w) := by
  unfold hasEdge
  by_cases hx : x ∈ g.vertices
  · rw [Graph.findEdges_ok hx]
    exact .ok
  · rw [Graph.findEdges_missing hx]
    exact .error (h hx)

theorem linkHolds_okOr {l : Link} (ha : g.HostsSince a₀ a) (hx : x ∈ g.vertices)
    (hi : i ∈ f.pending a₀) (hl : l ∈ f.links i) :
    OkOr (f.Dangling g a₀) (Fragment.linkHolds g a i x l) (linkHolds g a i x l) := by
  unfold linkHolds Fragment.linkHolds
  cases hw : if l.neighbour = i then some x else a[l.neighbour]? with
  | none => exact .ok
  | some w =>
    have hvertex : w ∉ g.vertices → f.Dangling g a₀ := by
      intro hmissing
      split at hw
      · cases hw
        exact absurd hx hmissing
      · exact ⟨i, hi, l, hl, w, (ha _ w hw).resolve_left hmissing, hmissing⟩
    cases l.outgoing with
    | true => exact hasEdge_okOr fun hmissing => absurd hx hmissing
    | false => exact hasEdge_okOr hvertex

theorem fits_okOr (ha : g.HostsSince a₀ a) (hx : x ∈ g.vertices) (hi : i ∈ f.pending a₀) :
    OkOr (f.Dangling g a₀) (f.fits g a i x) (fits f g a i x) := by
  unfold fits Fragment.fits
  cases a.assigns x with
  | true => exact .ok
  | false =>
    cases f.nodes[i]? with
    | none => exact .ok
    | some n =>
      refine (identityHolds_okOr hx).bind ?_
      rw [Option.any_some]
      cases Fragment.identityHolds g n.identity x with
      | false => exact .ok
      | true => exact .allM fun l hl => linkHolds_okOr ha hx hi hl

/-! ## The search -/

/-- Since the first assignment the search that may fail goes as the search. It fails only if a link
to a missing vertex was there from the start. -/
def Follows (f : Fragment) (g : Graph) (a₀ : Assignment) (steps : SearchM α)
    (steps' : StateM Assignment α) : Prop :=
  ∀ a, g.HostsSince a₀ a →
    OkOr (f.Dangling g a₀) (steps'.run a) (steps.run a) ∧ g.HostsSince a₀ (steps'.run a).2

namespace Follows

variable {steps : SearchM α} {steps' : StateM Assignment α}

theorem pure (a : α) : Follows f g a₀ (Pure.pure a) (Pure.pure a) := fun _ hb => ⟨.ok, hb⟩

theorem bind {next : α → SearchM β} {next' : α → StateM Assignment β}
    (h : Follows f g a₀ steps steps') (hnext : ∀ a, Follows f g a₀ (next a) (next' a)) :
    Follows f g a₀ (steps >>= next) (steps' >>= next') := by
  intro a ha
  obtain ⟨hrun, hhosts⟩ := h a ha
  obtain ⟨hrun', hhosts'⟩ := hnext (steps'.run a).1 _ hhosts
  exact ⟨hrun.bind hrun', hhosts'⟩

theorem get_bind {next : Assignment → SearchM β} {next' : Assignment → StateM Assignment β}
    (h : ∀ a, g.HostsSince a₀ a → Follows f g a₀ (next a) (next' a)) :
    Follows f g a₀ (get >>= next) (get >>= next') :=
  fun a ha => h a ha a ha

theorem modify {change : Assignment → Assignment}
    (h : ∀ a, g.HostsSince a₀ a → g.HostsSince a₀ (change a)) :
    Follows f g a₀ (modify change) (modify change) :=
  fun a ha => ⟨.ok, h a ha⟩

theorem lift_bind {read : Except GraphError α} {a : α} {next : α → SearchM β}
    {rest : StateM Assignment β} (hread : OkOr (f.Dangling g a₀) a read)
    (h : Follows f g a₀ (next a) rest) : Follows f g a₀ (liftM read >>= next) rest := by
  intro b hb
  obtain ⟨hrun, hhosts⟩ := h b hb
  refine ⟨?_, hhosts⟩
  cases hread with
  | ok => exact hrun
  | error hdangling => exact .error hdangling

theorem anyM {tries : VertexId → SearchM Bool} {tries' : VertexId → StateM Assignment Bool}
    {xs : List VertexId} (h : ∀ x ∈ xs, Follows f g a₀ (tries x) (tries' x)) :
    Follows f g a₀ (xs.anyM tries) (xs.anyM tries') := by
  induction xs with
  | nil => exact pure false
  | cons x xs ih =>
    rw [List.anyM_cons, List.anyM_cons]
    refine (h x (List.mem_cons_self ..)).bind fun found => ?_
    cases found with
    | true => exact pure true
    | false => exact ih fun y hy => h y (List.mem_cons_of_mem _ hy)

end Follows

theorem attempt_follows {next : SearchM Bool} {next' : StateM Assignment Bool}
    (hx : x ∈ g.vertices) (hi : i ∈ f.pending a₀) (h : Follows f g a₀ next next') :
    Follows f g a₀ (attempt f g i x next) (f.attempt g i x next') := by
  refine .get_bind fun a ha => .lift_bind (fits_okOr ha hx hi) ?_
  split
  · refine .bind (.modify fun _ hb => hb.insert hx) fun _ => .bind h fun found => ?_
    cases found with
    | true => exact .pure true
    | false => exact .bind (.modify fun _ hb => hb.erase) fun _ => .pure false
  · exact .pure false

theorem backtrack_follows (hg : g.WellFormed) (hpending : ∀ i ∈ pending, i ∈ f.pending a₀) :
    Follows f g a₀ (backtrack f g pending) (f.backtrack g pending) := by
  induction hn : pending.length using Nat.strong_induction_on generalizing pending with
  | _ n ih =>
    unfold backtrack Fragment.backtrack
    split
    · exact .pure true
    · refine .get_bind fun a ha => ?_
      rcases hnext : f.nextPending? a pending with _ | ⟨i, ⟨l, x⟩, rest⟩
      · exact .pure false
      · obtain ⟨hi, hrest, hl, hx⟩ := nextPending?_eq_some hnext
        have hanchor : x ∉ g.vertices → f.Dangling g a₀ := fun hmissing =>
          ⟨i, hpending i hi, l, hl, x, (ha _ x hx).resolve_left hmissing, hmissing⟩
        refine .lift_bind (candidates_okOr hanchor) (.anyM fun w hw => ?_)
        refine attempt_follows (vertex_of_candidate hg hw) (hpending i hi) (ih _ ?_ ?_ rfl)
        · rw [← hn]
          exact rest.property
        · rw [hrest]
          exact fun j hj => hpending j (List.mem_of_mem_erase hj)

/-- The checked search ends as the search does, or it fails at a link to a missing vertex. -/
theorem backtrack_okOr (hg : g.WellFormed) (f : Fragment) (a : Assignment) :
    OkOr (f.Dangling g a) ((f.solveInPlace g).run a) ((backtrack f g (f.pending a)).run a) :=
  (backtrack_follows hg fun _ hi => hi) a (.start a) |>.1

/-- The checked search finds what the search finds. -/
theorem locate_ok (hg : g.WellFormed) : locate f g = .ok (f.locate? g) := by
  unfold locate
  cases hkeyed : f.lookupKeyed? g with
  | none =>
    rw [locate?, hkeyed]
    rfl
  | some a =>
    have hrun := (backtrack_okOr hg f a).eq_ok
      (not_dangling_of_hosts (lookupKeyed?_hosts hg hkeyed))
    rw [locate?, hkeyed]
    change solve f g a = .ok (f.solve g a)
    rw [solve, hrun, Fragment.solve]
    rfl

end Checked

end Fragment

end QuadStore
