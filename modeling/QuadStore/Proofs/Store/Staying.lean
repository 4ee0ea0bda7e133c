import Mathlib
import QuadStore.Proofs.Encoder.Standing
import QuadStore.Proofs.Store.Deleting
/-!
# What stays where it is

Vertices and edges that stand for something keep standing for it as long as it is stored at the end
of every operation, whatever else is written or removed in between.
-/

namespace QuadStore

/-! ## Operations -/

/-- A way to write to a store. -/
inductive Operation where
  | write (w : Write)
  | removeMatching (q : Query)
deriving DecidableEq

namespace Operation

def perform : Operation → StoreM Unit
  | write w => w.perform
  | removeMatching q => discard (Store.removeMatching q)

/-- The store after an operation, whether it succeeds or fails. -/
def after (o : Operation) (s : Store) : Store :=
  match o.perform s with
  | .ok _ s' => s'
  | .error _ s' => s'

end Operation

namespace Store

/-- Operations lead from one store to the other, and `Q` holds before them and at the end of each. -/
inductive Through (Q : Store → Prop) (s : Store) : Store → Prop where
  | start (h : Q s) : Through Q s s
  | step {s' : Store} (h : Through Q s s') (o : Operation) (hafter : Q (o.after s')) :
    Through Q s (o.after s')

/-- A triple is stored in some context. -/
def HasTriple (s : Store) (t : Triple) : Prop := ∃ x, s.contains (.ofContexts t [x]) = .ok true

/-- A resource is the subject or the object of a stored triple, or a named graph that a middle vertex
leads to. -/
inductive Uses (s : Store) (r : Resource) : Prop where
  | subject {t : Triple} (h : s.HasTriple t) (hr : t.subject = r) : Uses s r
  | object {t : Triple} (h : s.HasTriple t) (hr : s.encoder.classify t.predicate t.object = .resource r) :
    Uses s r
  | context {t : Triple} {c : Uri} (h : s.contains (.ofContexts t [.named c]) = .ok true)
    (hpolicy : s.encoder.policy = .verboseQuad)
    (hmiddle : ∃ m, s.encoder.middle? (s.encoder.classifyTriple t) = some m) (hr : .uri c = r) :
    Uses s r

end Store

variable {e : Encoder} {M : Dataset} {K : Facts Part} {P₀ : Placement Part} {s s' : Store}

/-! ## What is still said -/

namespace Encoder

theorem image_retract_subset {x : Statement} : e.image (M.retract e x) ⊆ e.image M := by
  rintro f ⟨t, B, hB, hf⟩
  obtain ⟨A, hA, hsub⟩ := Dataset.some_of_remove hB
  exact ⟨t, A, hA, hf.mono hsub⟩

theorem image_retractAll_subset {xs : List Statement} :
    e.image (xs.foldl (Dataset.retract e) M) ⊆ e.image M := by
  induction xs generalizing M with
  | nil => exact subset_rfl
  | cons x rest ih => exact ih.trans image_retract_subset

theorem image_subset_assert {x : Statement} : e.image M ⊆ e.image (M.assert e x) := by
  rw [Dataset.assert, image_add]
  exact Set.subset_union_left

end Encoder

/-! ## Following facts -/

namespace Account

/-- The dataset that is written, together with some facts that are said all the time and are placed
as they were at first. -/
def placed (hv : e.vocabulary.Valid) (P₀ : Placement Part) : Account e (Dataset × Facts Part) where
  Holds x g _ := x.1.Classified e ∧ x.2 ⊆ e.image x.1 ∧
    ∃ P, g.Shows P (e.image x.1) ∧ P.Extends P₀ x.2
  assert x s := (x.1.assert e s, x.2)
  retract x s := (x.1.retract e s, x.2 ∩ e.image (x.1.retract e s))
  work_add_ok s h := by
    obtain ⟨hclassified, hsub, P, hg, hP⟩ := h
    obtain ⟨report, w', P', -, hrun, hP', hg', -⟩ := Work.add_shows hv s hg
    exact ⟨report, w', hrun, hclassified.assert, hsub.trans Encoder.image_subset_assert, P', hg',
      hP'.trans hP hsub⟩
  work_remove_ok s h := by
    obtain ⟨hclassified, hsub, P, hg, hP⟩ := h
    obtain ⟨report, w', -, hrun, hg', -⟩ := Work.remove_shows hv s hg
    exact ⟨report, w', hrun, hclassified.remove, Set.inter_subset_right, P, hg',
      hP.trans .refl Set.inter_subset_left⟩

variable {σ : Type} {A : Account e σ} {x : σ} {w : Work} {hv : e.vocabulary.Valid}

theorem work_removeAll_ok (found : List Statement) (count : Nat)
    (h : A.Holds x w.transaction.graph w.textIndex) :
    ∃ total w', (found.foldlM (fun count s => do
        return if (← Work.remove e s).removed then count + 1 else count) count : WorkM Nat) w =
          .ok total w' ∧
      A.Holds (found.foldl A.retract x) w'.transaction.graph w'.textIndex := by
  refine run_foldlM_ok (I := fun x (w : Work) => A.Holds x w.transaction.graph w.textIndex) ?_ _ _ h
  intro count s x w h
  obtain ⟨report, w', hremove, h'⟩ := A.work_remove_ok s h
  exact ⟨if report.removed then count + 1 else count, w', run_bind_ok hremove, h'⟩

/-- Deleting what answers a query retracts it. -/
theorem removeMatching_ok {q : Query} {found : List Statement} (h : A.HoldsIn x s)
    (hget : s.get q = .ok found) :
    ∃ total s', Store.removeMatching q s = .ok total s' ∧
      A.HoldsIn (found.foldl A.retract x) s' := by
  obtain ⟨rfl, h⟩ := h
  let w : Work := ⟨.start s.graph, s.textIndex⟩
  obtain ⟨total, w', hrun, hw'⟩ := work_removeAll_ok (w := w) found 0 h
  have hwork : (do Work.removeAll s.encoder (← Work.resolve s.encoder (Pattern.ofQuery q)) :
      WorkM Nat) w = .ok total w' :=
    (Work.resolve_bind (w := w) (p := Pattern.ofQuery q) hget).trans hrun
  refine ⟨total, { s with graph := w'.transaction.commit, textIndex := w'.textIndex }, ?_, rfl, hw'⟩
  simp only [Store.removeMatching, Store.transact, w, hwork]

/-- What is said to the end was followed to the end. -/
theorem placed_retractAll {found : List Statement} :
    let x := found.foldl (placed hv P₀).retract (M, K)
    x.1 = found.foldl (Dataset.retract e) M ∧ K ∩ e.image x.1 ⊆ x.2 := by
  induction found generalizing M K with
  | nil => exact ⟨rfl, Set.inter_subset_left⟩
  | cons s rest ih =>
    obtain ⟨hdataset, hsub⟩ := ih (M := M.retract e s) (K := K ∩ e.image (M.retract e s))
    refine ⟨hdataset, fun f hf => hsub ⟨⟨hf.1, ?_⟩, hf.2⟩⟩
    have hsaid := hf.2
    rw [List.foldl_cons] at hsaid
    change f ∈ e.image (rest.foldl (placed hv P₀).retract (M.retract e s, K ∩ _)).1 at hsaid
    rw [hdataset] at hsaid
    exact Encoder.image_retractAll_subset hsaid

theorem placed_assertAll {statements : List Statement} :
    (statements.foldl (placed hv P₀).assert (M, K)).2 = K := by
  induction statements generalizing M with
  | nil => rfl
  | cons s rest ih => exact ih

/-- Fewer facts may be followed. -/
theorem placed_mono {K' : Facts Part} (hsub : K ⊆ K') (h : (placed hv P₀).HoldsIn (M, K') s) :
    (placed hv P₀).HoldsIn (M, K) s := by
  obtain ⟨hencoder, hclassified, hsaid, P, hg, hP⟩ := h
  exact ⟨hencoder, hclassified, hsub.trans hsaid, P, hg,
    ⟨fun p hp => hP.vertex p (hsub hp), fun b hb => hP.edge b (hsub hb)⟩⟩

theorem placed_keeps (h : (placed hv P₀).HoldsIn (M, K) s) : s.Keeps M := by
  obtain ⟨rfl, hclassified, -, P, hg, -⟩ := h
  exact ⟨hv, ⟨P, hg⟩, hclassified⟩

/-- What is said before and after an operation is placed where it was. -/
theorem placed_after (h : (placed hv P₀).HoldsIn (M, K) s) (o : Operation) :
    ∃ N K', (placed hv P₀).HoldsIn (N, K') (o.after s) ∧ K ∩ e.image N ⊆ K' := by
  cases o with
  | write write =>
    obtain ⟨s', hrun, hs'⟩ := perform_ok h write
    have hafter : (Operation.write write).after s = s' := by
      simp only [Operation.after, Operation.perform, hrun]
    rw [hafter]
    refine ⟨_, _, hs', ?_⟩
    cases write with
    | add s => exact Set.inter_subset_left
    | addAll statements =>
      simp only [placed_assertAll]
      exact Set.inter_subset_left
    | remove s => exact subset_rfl
  | removeMatching q =>
    have hkeeps := placed_keeps h
    obtain ⟨rfl, -⟩ := id h
    cases hplan : (Pattern.ofQuery q).plan s.encoder.policy with
    | error cause =>
      have hafter : (Operation.removeMatching q).after s = s := by
        have hrun : discard (Store.removeMatching q) s = .error (.query cause) s :=
          run_map_error (Store.removeMatching_refused hplan)
        simp only [Operation.after, Operation.perform, hrun]
      rw [hafter]
      exact ⟨M, K, h, Set.inter_subset_left⟩
    | ok path =>
      obtain ⟨path', hpath'⟩ := Pattern.plan_normalize_ok (e := s.encoder) hplan
      obtain ⟨found, hfound, -⟩ := hkeeps.find_ok hpath'
      obtain ⟨total, s', hrun, hs'⟩ := removeMatching_ok h hfound
      have hafter : (Operation.removeMatching q).after s = s' := by
        simp only [Operation.after, Operation.perform, discard_ok hrun]
      rw [hafter]
      exact ⟨_, _, hs', placed_retractAll.2⟩

end Account

namespace Store

variable {Q : Store → Prop}

theorem Through.first (h : s.Through Q s') : Q s := by
  induction h with
  | start h => exact h
  | step _ _ _ ih => exact ih

theorem Through.last (h : s.Through Q s') : Q s' := by
  cases h with
  | start h => exact h
  | step _ _ hafter => exact hafter

theorem Through.placed {hv : e.vocabulary.Valid}
    (hQ : ∀ s M, s.encoder = e → s.Keeps M → Q s → K ⊆ e.image M)
    (hs : (Account.placed hv P₀).HoldsIn (M, K) s) (h : s.Through Q s') :
    ∃ N, (Account.placed hv P₀).HoldsIn (N, K) s' := by
  induction h with
  | start h => exact ⟨M, hs⟩
  | step h o hafter ih =>
    obtain ⟨N, hN⟩ := ih
    obtain ⟨N', K', hN', hsub⟩ := Account.placed_after hN o
    have hsaid := hQ _ N' hN'.1 (Account.placed_keeps hN') hafter
    exact ⟨N', Account.placed_mono (fun f hf => hsub ⟨hf, hsaid hf⟩) hN'⟩

/-- What is said at the end of every operation is placed where it was. -/
theorem Keeps.stays (hs : s.Keeps M) (hg : s.graph.Shows P₀ (s.encoder.image M))
    (hQ : ∀ s' N, s'.encoder = s.encoder → s'.Keeps N → Q s' → K ⊆ s.encoder.image N)
    (h : s.Through Q s') :
    ∃ N P, s'.encoder = s.encoder ∧ s'.Keeps N ∧ s'.graph.Shows P (s.encoder.image N) ∧
      P.Extends P₀ K := by
  have hplaced : (Account.placed hs.valid P₀).HoldsIn (M, K) s :=
    ⟨rfl, hs.classified, hQ s M rfl hs h.first, P₀, hg, .refl⟩
  obtain ⟨N, hN⟩ := h.placed hQ hplaced
  obtain ⟨hencoder, -, -, P, hg', hP⟩ := id hN
  exact ⟨N, P, hencoder, Account.placed_keeps hN, hg', hP⟩

end Store

/-! ## What is in use -/

namespace Store

variable {t : Triple} {r : Resource} {P : Placement Part}

theorem Keeps.hasTriple_iff (hs : s.Keeps M) :
    s.HasTriple t ↔ ∃ A, M[s.encoder.classifyTriple t]? = some A := by
  constructor
  · rintro ⟨x, hx⟩
    obtain ⟨b, hb, hiff⟩ := hs.contains_context t x
    cases hb.symm.trans hx
    obtain ⟨A, hA, -⟩ := Dataset.inContext_iff.1 (hiff.1 rfl)
    exact ⟨A, hA⟩
  · rintro ⟨A, hA⟩
    obtain ⟨x, hx⟩ := Context.exists_isOf A
    obtain ⟨b, hb, hiff⟩ := hs.contains_context t x
    exact ⟨x, hb.trans (congrArg _ (hiff.2 (Dataset.inContext_iff.2 ⟨A, hA, hx⟩)))⟩

theorem Keeps.hasTriple_add (hs : s.Keeps M) (x : Statement) :
    ∃ N, ((Operation.write (.add x)).after s).Keeps N ∧
      ((Operation.write (.add x)).after s).HasTriple x.triple := by
  obtain ⟨s', hrun, hencoder, hs'⟩ := hs.perform (.add x)
  have hafter : (Operation.write (.add x)).after s = s' := by
    simp only [Operation.after, Operation.perform, hrun]
  rw [hafter]
  have hstored : ∃ A, (M.assert s.encoder x)[s.encoder.classifyTriple x.triple]? = some A :=
    ⟨_, Dataset.getElem?_add.trans (if_pos rfl)⟩
  exact ⟨_, hs', hs'.hasTriple_iff.2 (hencoder ▸ hstored)⟩

/-- A resource in use has a vertex. -/
theorem Uses.vertex_mem (h : s.Uses r) (hs : s.Keeps M) :
    .vertex (.resource r) ∈ s.encoder.image M := by
  cases h with
  | subject h hr =>
    obtain ⟨A, hA⟩ := hs.hasTriple_iff.1 h
    exact ⟨_, A, hA, Encoder.depicts_vertex.2 (hr ▸ .subject)⟩
  | object h hr =>
    obtain ⟨A, hA⟩ := hs.hasTriple_iff.1 h
    exact ⟨_, A, hA, Encoder.depicts_vertex.2 (.object hr)⟩
  | @context t c h hpolicy hmiddle hr =>
    obtain ⟨b, hb, hiff⟩ := hs.contains_context t (.named c)
    cases hb.symm.trans h
    obtain ⟨A, hA, hc⟩ := hiff.1 rfl
    obtain ⟨m, hm⟩ := hmiddle
    obtain ⟨o, ho⟩ := Encoder.quad_of_middle hpolicy hm
    exact ⟨_, A, hA, Encoder.depicts_vertex.2 (hr ▸ .context ho hc)⟩

/-- A resource that stays in use keeps its vertex. -/
theorem Keeps.resource_stays (hs : s.Keeps M) (h : s.Through (·.Uses r) s') :
    ∃ v, s.graph.lookup? (s.encoder.vocabulary.resourceEntry r) = some v ∧
      s'.graph.lookup? (s.encoder.vocabulary.resourceEntry r) = some v := by
  have hmem : ∀ (s' : Store) (N : Dataset), s'.encoder = s.encoder → s'.Keeps N → s'.Uses r →
      {.vertex (.resource r)} ⊆ s.encoder.image N := fun s' N heq hs' huses =>
    Set.singleton_subset_iff.2 (heq ▸ huses.vertex_mem hs')
  obtain ⟨P, hg⟩ := hs.stores
  obtain ⟨N, P', heq, hs', hg', hP⟩ := hs.stays hg hmem h
  have hr := Set.singleton_subset_iff.1 (hmem s M rfl hs h.first)
  have hr' := Set.singleton_subset_iff.1 (hmem s' N heq hs' h.last)
  refine ⟨_, Encoder.lookup?_resource hg hr, ?_⟩
  rw [Encoder.lookup?_resource hg' hr', hP.vertex _ (Set.mem_singleton _)]

/-- A triple that stays stored keeps its vertices and edges. -/
theorem Keeps.triple_stays (hs : s.Keeps M) (h : s.Through (·.HasTriple t) s') :
    ∃ f a, s.encoder.fragment ⟨t, ∅⟩ = .ok f ∧ f.Stands s.graph a ∧ f.Stands s'.graph a ∧
      ∀ y ∈ f.edges, ∃ v w d, a[y.source]? = some v ∧ a[y.target]? = some w ∧
        s.graph.OnlyEdge v y.label w d ∧ s'.graph.OnlyEdge v y.label w d := by
  have hstored : ∀ (s' : Store) (N : Dataset), s'.encoder = s.encoder → s'.Keeps N →
      s'.HasTriple t → ∃ A, N[s.encoder.classifyTriple t]? = some A := fun s' N heq hs' htriple =>
    heq ▸ hs'.hasTriple_iff.1 htriple
  obtain ⟨f, parts, hf, hsketch⟩ := Encoder.fragment_sketches hs.valid ⟨t, ∅⟩
  obtain ⟨P, hg⟩ := hs.stores
  obtain ⟨N, P', heq, hs', hg', hP⟩ := hs.stays (K := s.encoder.depiction _ ∅) hg
    (fun s' N heq hs' htriple =>
      Encoder.depiction_subset_image (hstored s' N heq hs' htriple).choose_spec) h
  obtain ⟨A, hA⟩ := hstored s M rfl hs h.first
  obtain ⟨B, hB⟩ := hstored s' N heq hs' h.last
  obtain ⟨a, ha⟩ := hsketch.stands_extends hs.valid hg hg' hA hB hP
  exact ⟨f, a, hf, ha⟩

/-- As long as a resource stays in use its key leads to one vertex, and as long as a triple stays
stored the nodes and edges of its fragment stand for the same vertices and edges. -/
theorem Fresh.identity_stays {s₀ : Store} (h₀ : s₀.Fresh) (h : s₀.Through (fun _ => True) s) :
    (∀ r s', s.Through (·.Uses r) s' → ∃ v,
      s.graph.lookup? (s.encoder.vocabulary.resourceEntry r) = some v ∧
      s'.graph.lookup? (s.encoder.vocabulary.resourceEntry r) = some v) ∧
    ∀ t s', s.Through (·.HasTriple t) s' → ∃ f a, s.encoder.fragment ⟨t, ∅⟩ = .ok f ∧
      f.Stands s.graph a ∧ f.Stands s'.graph a ∧
      ∀ y ∈ f.edges, ∃ v w d, a[y.source]? = some v ∧ a[y.target]? = some w ∧
        s.graph.OnlyEdge v y.label w d ∧ s'.graph.OnlyEdge v y.label w d := by
  obtain ⟨P₀, hg₀⟩ := h₀.stores
  obtain ⟨M, -, -, hs, -⟩ :=
    h₀.keeps.stays (K := ∅) hg₀ (fun _ _ _ _ _ => Set.empty_subset _) h
  exact ⟨fun _ _ => hs.resource_stays, fun _ _ => hs.triple_stays⟩

/-- A triple that is added again, in a named graph, stays where it was, and so does its subject. -/
theorem Fresh.identity_stays_again :
    let s₀ : Store := { encoder := ⟨.verboseQuad, {}, none, {}⟩ }
    let t : Triple := ⟨.uri ⟨"a:s", by decide⟩, ⟨"a:p", by decide⟩, .resource (.uri ⟨"a:o", by decide⟩)⟩
    let s := (Operation.write (.add ⟨t, ∅⟩)).after s₀
    let s' := (Operation.write (.add ⟨t, {⟨"a:g", by decide⟩}⟩)).after s
    s₀.Fresh ∧ s₀.Through (fun _ => True) s ∧
      (s.Through (·.Uses t.subject) s' ∧ ∃ v,
        s.graph.lookup? (s.encoder.vocabulary.resourceEntry t.subject) = some v ∧
        s'.graph.lookup? (s.encoder.vocabulary.resourceEntry t.subject) = some v) ∧
      s.Through (·.HasTriple t) s' ∧ ∃ f a, s.encoder.fragment ⟨t, ∅⟩ = .ok f ∧
        f.Stands s.graph a ∧ f.Stands s'.graph a ∧
        ∀ y ∈ f.edges, ∃ v w d, a[y.source]? = some v ∧ a[y.target]? = some w ∧
          s.graph.OnlyEdge v y.label w d ∧ s'.graph.OnlyEdge v y.label w d := by
  intro s₀ t s s'
  have h₀ : s₀.Fresh := .ofConfig (c := {}) rfl
  obtain ⟨M, hs, htriple⟩ := h₀.keeps.hasTriple_add ⟨t, ∅⟩
  obtain ⟨-, -, htriple'⟩ := hs.hasTriple_add ⟨t, {⟨"a:g", by decide⟩}⟩
  have h : s₀.Through (fun _ => True) s := .step (.start trivial) _ trivial
  have huses : s.Through (·.Uses t.subject) s' :=
    .step (.start (.subject htriple rfl)) _ (.subject htriple' rfl)
  have hstored : s.Through (·.HasTriple t) s' := .step (.start htriple) _ htriple'
  exact ⟨h₀, h, ⟨huses, (h₀.identity_stays h).1 _ s' huses⟩, hstored,
    (h₀.identity_stays h).2 t s' hstored⟩

end Store

end QuadStore
