import Mathlib
import QuadStore.Proofs.Store.Reading
/-!
# Statements in contexts

What a store answers when it is asked for one statement: whether a triple is in some named graphs,
or in the default graph, and what a write to one graph means for the others.
-/

namespace QuadStore

namespace Dataset

variable {M : Dataset} {t : Triple} {A C : UriSet} {x y : Context}

/-- The triple is in all of these named graphs, or in the default graph if there is none. -/
def Asserts (M : Dataset) (t : Triple) (C : UriSet) : Prop :=
  ∃ A, M[t]? = some A ∧ (C.isEmpty → A.isEmpty) ∧ ∀ c ∈ C, c ∈ A

/-- The triple is in one context. -/
def InContext (M : Dataset) (t : Triple) : Context → Prop
  | .default => ∃ A, M[t]? = some A ∧ A.isEmpty
  | .named c => ∃ A, M[t]? = some A ∧ c ∈ A

theorem asserts_iff_inContext (hC : ∀ c, c ∈ C ↔ y = .named c) :
    M.Asserts t C ↔ M.InContext t y := by
  have hempty : C.isEmpty ↔ y = .default := by
    rw [isEmpty_iff_forall]
    cases y <;> simp [hC]
  cases y <;> simp [Asserts, InContext, hC, hempty]

/-- The default graph has the stored triples that are in no named graph. -/
theorem inContext_default_iff :
    M.InContext t .default ↔ (∃ A, M[t]? = some A) ∧ ∀ c, ¬M.InContext t (.named c) := by
  cases hA : M[t]? with
  | none => simp [InContext, hA]
  | some A =>
    simp only [InContext, hA, Option.some.injEq, exists_eq_left', exists_eq', true_and,
      isEmpty_iff_forall]

/-- What is asserted in one context leaves the other contexts as they are, but takes the triple out
of the default graph. -/
theorem inContext_add (hC : ∀ c, c ∈ C ↔ x = .named c) (hne : x ≠ y) :
    (M.add t C).InContext t y ↔ M.InContext t y ∧ y ≠ .default := by
  have hadded : ∀ c, c ∈ M[t]?.getD ∅ ∪ C ↔ c ∈ M[t]?.getD ∅ ∨ x = .named c := fun c => by
    rw [Std.ExtTreeSet.mem_union_iff, hC]
  cases y with
  | default =>
    obtain ⟨c, rfl⟩ : ∃ c, x = .named c := by
      cases x with
      | default => exact absurd rfl hne
      | named c => exact ⟨c, rfl⟩
    simp only [InContext, getElem?_add, if_true, Option.some.injEq, exists_eq_left', ne_eq,
      not_true, and_false, iff_false, isEmpty_iff_forall, hadded]
    exact fun h => h c (.inr rfl)
  | named c =>
    simp only [InContext, getElem?_add, if_true, Option.some.injEq, exists_eq_left', hadded, ne_eq,
      reduceCtorEq, not_false_eq_true, and_true]
    cases M[t]? <;> simp [hne]

/-- What is taken out of one context leaves the others as they are. -/
theorem inContext_remove (hC : ∀ c, c ∈ C ↔ x = .named c) (hne : x ≠ y) :
    (M.remove t C).InContext t y ↔ M.InContext t y := by
  cases hA : M[t]? with
  | none => rw [remove_of_none hA]
  | some A =>
    have hdrops : Drops A C ↔ (∀ c ∈ A, x = .named c) ∧
        (x = .default ∨ ∃ c ∈ A, x = .named c) := by
      rw [drops_iff]
      simp only [hC]
      cases x <;> simp
    have hleft : ∀ c, c ∈ A \ C ↔ c ∈ A ∧ x ≠ .named c := fun c => by
      rw [Std.ExtTreeSet.mem_diff_iff, hC]
    have hthere : ∀ B, (M.remove t C)[t]? = some B ↔ ¬Drops A C ∧ A \ C = B := fun B => by
      rw [getElem?_remove hA, if_pos rfl, Option.ite_none_left_eq_some, Option.some.injEq]
    cases y with
    | default =>
      simp only [InContext, hthere, hA, Option.some.injEq, exists_eq_left', hdrops,
        isEmpty_iff_forall]
      constructor
      · rintro ⟨_, ⟨hkeeps, rfl⟩, hempty⟩ c hc
        simp only [hleft, not_and, not_not] at hempty
        exact hkeeps ⟨hempty, .inr ⟨c, hc, hempty c hc⟩⟩
      · intro hempty
        refine ⟨_, ⟨?_, rfl⟩, fun c hc => hempty c ((hleft c).1 hc).1⟩
        rintro ⟨-, rfl | ⟨c, hc, -⟩⟩
        · exact hne rfl
        · exact hempty c hc
    | named c =>
      simp only [InContext, hthere, hA, Option.some.injEq, exists_eq_left', hdrops]
      constructor
      · rintro ⟨_, ⟨-, rfl⟩, hc⟩
        exact ((hleft c).1 hc).1
      · intro hc
        exact ⟨_, ⟨fun hdropped => hne (hdropped.1 c hc), rfl⟩, (hleft c).2 ⟨hc, hne⟩⟩

/-- Adding a triple asserts it, unless it names no graph and the triple is in some. -/
theorem asserts_add (h : C.isEmpty = false ∨ ∀ A, M[t]? = some A → A.isEmpty) :
    (M.add t C).Asserts t C := by
  refine ⟨_, getElem?_add.trans (if_pos rfl), fun hempty => ?_,
    fun c hc => Std.ExtTreeSet.mem_union_of_right hc⟩
  have hnone := h.resolve_left (by simp [hempty])
  rw [Std.ExtTreeSet.isEmpty_iff.1 hempty]
  cases hA : M[t]? with
  | none => simp
  | some A => simp [Std.ExtTreeSet.isEmpty_iff.1 (hnone A hA)]

/-- A stored triple is added to no graph without effect. -/
theorem add_empty (hA : M[t]? = some A) (hC : C.isEmpty) : M.add t C = M := by
  have hunion : A ∪ ∅ = A := by
    ext c
    simp
  rw [add, hA, Option.getD_some, Std.ExtTreeSet.isEmpty_iff.1 hC, hunion, insert_self hA]

end Dataset

/-- A query that binds a whole triple accepts it as it is stored. -/
theorem Pattern.accepts_ofQuery {e : Encoder} {t u : Triple} {contexts : Slot (List Context)} :
    ((ofQuery ⟨.bound t.subject, t.predicate, .bound t.object, contexts⟩).normalize e).accepts u ↔
      u = e.classifyTriple t := by
  simp only [normalize, ofQuery, Slot.bound?, accepts, Option.all_some, Bool.and_eq_true,
    beq_iff_eq]
  constructor
  · rintro ⟨⟨hs, hp⟩, ho⟩
    exact Triple.ext hs.symm hp.symm ho.symm
  · rintro rfl
    exact ⟨⟨rfl, rfl⟩, rfl⟩

namespace Statement

variable {x : Statement} {e : Encoder} {M : Dataset} {t : Triple} {y : Context} {c : Uri}

theorem mem_ofContexts : c ∈ (ofContexts t [y]).contexts ↔ y = .named c := by
  rw [ofContexts, namedGraphs, Std.ExtTreeSet.mem_ofList, List.contains_iff_mem, List.mem_filterMap]
  cases y <;> simp [Context.uri?, eq_comm]

/-- The contexts that the query for a statement asks for. -/
theorem contexts_ofQuery (x : Statement) :
    ∃ wanted, (Pattern.ofQuery x.toQuery).contexts = .among wanted ∧
      (.default ∈ wanted ↔ x.contexts.isEmpty) ∧ ∀ c, .named c ∈ wanted ↔ c ∈ x.contexts := by
  have hlist : ∀ c, Context.named c ∈ x.contextList ↔ c ∈ x.contexts := fun c => by
    simp [contextList]
  have hdefault : Context.default ∉ x.contextList := by simp [contextList]
  cases hcontexts : x.contextList with
  | nil =>
    refine ⟨.ofList [Context.default], ?_, ?_, fun c => ?_⟩
    · simp only [Pattern.ofQuery, toQuery, hcontexts]
    · rw [Dataset.isEmpty_iff_forall]
      simp only [← hlist, hcontexts]
      simp
    · rw [← hlist, hcontexts]
      simp
  | cons first rest =>
    refine ⟨.ofList x.contextList, ?_, ?_, fun c => ?_⟩
    · simp only [Pattern.ofQuery, toQuery, hcontexts]
    · rw [Std.ExtTreeSet.mem_ofList, List.contains_iff_mem, Dataset.isEmpty_iff_forall]
      refine iff_of_false hdefault ?_
      simp only [← hlist, not_forall, not_not]
      cases first with
      | default => simp [hcontexts] at hdefault
      | named c => exact ⟨c, by simp [hcontexts]⟩
    · rw [Std.ExtTreeSet.mem_ofList, List.contains_iff_mem, hlist]

/-- What the query for a statement selects: its triple, in those of its graphs that have it. -/
theorem selects_iff {y : Statement} :
    ((Pattern.ofQuery x.toQuery).normalize e).Selects M y ↔
      y.triple = e.classifyTriple x.triple ∧ ∃ A, M[y.triple]? = some A ∧
        (A.isEmpty ∧ x.contexts.isEmpty ∧ y.contexts = ∅ ∨
          y.contexts.isEmpty = false ∧ ∀ c, c ∈ y.contexts ↔ c ∈ A ∧ c ∈ x.contexts) := by
  obtain ⟨wanted, hwanted, hdefault, hnamed⟩ := x.contexts_ofQuery
  have haccepts : ∀ t, ((Pattern.ofQuery x.toQuery).normalize e).accepts t ↔
      t = e.classifyTriple x.triple := fun _ => Pattern.accepts_ofQuery
  have hcontexts : ((Pattern.ofQuery x.toQuery).normalize e).contexts = .among wanted := by
    rw [← hwanted]
    rfl
  simp only [Pattern.Selects, haccepts, hcontexts, ContextFilter.restrict_among, hdefault, hnamed]
  constructor
  · rintro ⟨A, hA, heq, hkept⟩
    exact ⟨heq, A, hA, hkept⟩
  · rintro ⟨heq, A, hA, hkept⟩
    exact ⟨A, hA, heq, hkept⟩

end Statement

namespace Store

variable {s s' : Store} {M : Dataset} {x : Statement}

/-- A statement whose graphs all have its triple is selected as it is. -/
theorem selects_of_asserts (h : M.Asserts (s.encoder.classifyTriple x.triple) x.contexts) :
    ((Pattern.ofQuery x.toQuery).normalize s.encoder).Selects M
      ⟨s.encoder.classifyTriple x.triple, x.contexts⟩ := by
  obtain ⟨A, hA, hdefault, hsub⟩ := h
  refine Statement.selects_iff.2 ⟨rfl, A, hA, ?_⟩
  cases hempty : x.contexts.isEmpty with
  | true => exact .inl ⟨hdefault hempty, rfl, Std.ExtTreeSet.isEmpty_iff.1 hempty⟩
  | false => exact .inr ⟨rfl, fun c => ⟨fun hc => ⟨hsub c hc, hc⟩, And.right⟩⟩

/-- The query for a statement can always be planned. -/
theorem Keeps.get_statement (h : s.Keeps M) (x : Statement) :
    ∃ found, s.get x.toQuery = .ok found ∧
      ((Pattern.ofQuery x.toQuery).normalize s.encoder).Answers M found :=
  have hplan : ((Pattern.ofQuery x.toQuery).normalize s.encoder).plan s.encoder.policy =
      .ok .wholeTriple := rfl
  h.find_ok hplan

theorem Keeps.contains_ok (h : s.Keeps M) (x : Statement) :
    ∃ b : Bool, s.contains x = .ok b ∧
      (b ↔ M.Asserts (s.encoder.classifyTriple x.triple) x.contexts) := by
  obtain ⟨found, hfound, hanswers⟩ := h.get_statement x
  refine ⟨_, by simp only [contains, hfound]; rfl, ?_⟩
  simp only [List.any_eq_true, Bool.and_eq_true, beq_iff_eq, hanswers.mem, set_all_iff,
    Std.ExtTreeSet.contains_iff_mem]
  constructor
  · rintro ⟨y, hy, -, hall⟩
    obtain ⟨htriple, A, hA, hkept⟩ := Statement.selects_iff.1 hy
    rw [htriple] at hA
    refine ⟨A, hA, fun hempty => ?_, fun c hc => ?_⟩
    · rcases hkept with ⟨hA', -⟩ | ⟨hne, hmem⟩
      · exact hA'
      · rw [← Bool.not_eq_true, Dataset.isEmpty_iff_forall] at hne
        exact absurd (fun c hc => Dataset.isEmpty_iff_forall.1 hempty c ((hmem c).1 hc).2) hne
    · rcases hkept with ⟨-, hempty, -⟩ | ⟨-, hmem⟩
      · exact absurd hc (Dataset.isEmpty_iff_forall.1 hempty c)
      · exact ((hmem c).1 (hall c hc)).1
  · intro hasserts
    exact ⟨_, selects_of_asserts hasserts, ⟨rfl, rfl⟩, fun c hc => hc⟩

/-- A statement whose graphs all have its triple reads back. -/
theorem Keeps.found (h : s.Keeps M)
    (hx : M.Asserts (s.encoder.classifyTriple x.triple) x.contexts) :
    s.get x.toQuery = .ok [⟨s.encoder.classifyTriple x.triple, x.contexts⟩] ∧
      s.contains x = .ok true := by
  obtain ⟨b, hb, hiff⟩ := h.contains_ok x
  refine ⟨?_, hb.trans (congrArg _ (hiff.2 hx))⟩
  obtain ⟨found, hfound, hanswers⟩ := h.get_statement x
  have heq : found = (some (⟨s.encoder.classifyTriple x.triple, x.contexts⟩ : Statement)).toList := by
    refine eq_toList_of_nodup hanswers.nodup.of_map fun y => ?_
    rw [hanswers.mem, Option.some.injEq]
    constructor
    · intro hy
      obtain ⟨u, B⟩ := y
      obtain ⟨rfl, A, hA, hkept⟩ := Statement.selects_iff.1 hy
      obtain ⟨A', hA', -, hsub⟩ := hx
      cases hA.symm.trans hA'
      congr 1
      rcases hkept with ⟨-, hempty, rfl⟩ | ⟨-, hmem⟩
      · exact Std.ExtTreeSet.isEmpty_iff.1 hempty
      · ext c
        exact ⟨fun hc => (hmem c).2 ⟨hsub c hc, hc⟩, fun hc => ((hmem c).1 hc).2⟩
    · rintro rfl
      exact selects_of_asserts hx
  rw [hfound, heq]
  rfl

/-- A statement that names no graph is not found where its triple is in a named graph. -/
theorem Keeps.notFound (h : s.Keeps M) {A : UriSet}
    (hA : M[s.encoder.classifyTriple x.triple]? = some A) (hx : x.contexts.isEmpty)
    (hne : A.isEmpty = false) : s.get x.toQuery = .ok [] ∧ s.contains x = .ok false := by
  obtain ⟨b, hb, hiff⟩ := h.contains_ok x
  constructor
  · obtain ⟨found, hfound, hanswers⟩ := h.get_statement x
    have hnil : found = [] := by
      refine List.eq_nil_iff_forall_not_mem.2 fun y hy => ?_
      obtain ⟨htriple, B, hB, hkept⟩ := Statement.selects_iff.1 ((hanswers.mem y).1 hy)
      rw [htriple] at hB
      cases hA.symm.trans hB
      rcases hkept with ⟨hempty, -⟩ | ⟨hkept, hmem⟩
      · rw [hne] at hempty
        cases hempty
      · rw [← Bool.not_eq_true, Dataset.isEmpty_iff_forall] at hkept
        exact hkept fun c hc => Dataset.isEmpty_iff_forall.1 hx c ((hmem c).1 hc).2
    rw [hfound, hnil]
  · rw [hb, Except.ok.injEq, ← Bool.not_eq_true, hiff]
    rintro ⟨B, hB, hdefault, -⟩
    cases hA.symm.trans hB
    rw [hdefault hx] at hne
    cases hne

/-! ## Stores that writes lead to -/

/-- A store that writes lead to from one that nothing was written to. -/
inductive Reachable : Store → Prop where
  | fresh {s : Store} (h : s.Fresh) : Reachable s
  | write {s s' : Store} (h : Reachable s) (write : Write) (hwrite : write.perform s = .ok () s') :
    Reachable s'

theorem Reachable.keeps (h : s.Reachable) : ∃ M, s.Keeps M := by
  induction h with
  | fresh h => exact ⟨∅, h.keeps⟩
  | write _ write hwrite ih =>
    obtain ⟨M, hM⟩ := ih
    obtain ⟨s', hrun, -, hs'⟩ := hM.perform write
    rw [hwrite] at hrun
    cases hrun
    exact ⟨_, hs'⟩

/-- The store after some writes. -/
def after (s : Store) (writes : List Write) : Store :=
  match Write.performAll writes s with
  | .ok _ s' | .error _ s' => s'

theorem Reachable.after (h : s.Reachable) (writes : List Write) : (s.after writes).Reachable := by
  induction writes generalizing s with
  | nil => exact h
  | cons write rest ih =>
    obtain ⟨M, hM⟩ := h.keeps
    obtain ⟨s', hwrite, -, -⟩ := hM.perform write
    have hafter : s.after (write :: rest) = s'.after rest := by
      have hrun : Write.performAll (write :: rest) s = Write.performAll rest s' :=
        run_bind_ok hwrite
      rw [Store.after, hrun, Store.after]
    rw [hafter]
    exact ih (h.write write hwrite)

/-- Adding a statement succeeds and asserts it. -/
theorem Keeps.add_ok (h : s.Keeps M) (x : Statement) :
    ∃ report s', add x s = .ok report s' ∧ s'.encoder = s.encoder ∧
      s'.Keeps (M.assert s.encoder x) := by
  obtain ⟨report, s', hrun, hencoder, hs'⟩ := addAll_ok [x] h.valid h.stores
  exact ⟨report, s', hrun, hencoder,
    ⟨hencoder ▸ h.valid, hencoder ▸ hs', hencoder ▸ h.classified.assert⟩⟩

/-- Removing a statement succeeds and retracts it. -/
theorem Keeps.remove_ok (h : s.Keeps M) (x : Statement) :
    ∃ changed s', remove x s = .ok changed s' ∧ s'.encoder = s.encoder ∧
      s'.Keeps (M.retract s.encoder x) := by
  obtain ⟨changed, s', hrun, hencoder, hs'⟩ := Store.remove_ok x h.valid h.stores
  exact ⟨changed, s', hrun, hencoder,
    ⟨hencoder ▸ h.valid, hencoder ▸ hs', hencoder ▸ h.classified.remove⟩⟩

/-! ## One context after another -/

theorem Keeps.contains_context (h : s.Keeps M) (t : Triple) (y : Context) :
    ∃ b : Bool, s.contains (.ofContexts t [y]) = .ok b ∧
      (b ↔ M.InContext (s.encoder.classifyTriple t) y) := by
  obtain ⟨b, hb, hiff⟩ := h.contains_ok (.ofContexts t [y])
  exact ⟨b, hb, hiff.trans (Dataset.asserts_iff_inContext fun c => Statement.mem_ofContexts)⟩

theorem Keeps.add_context (h : s.Keeps M) (t : Triple) {x y : Context} (hne : x ≠ y) {before : Bool}
    (hbefore : s.contains (.ofContexts t [y]) = .ok before) :
    ∃ report s', add (.ofContexts t [x]) s = .ok report s' ∧
      s'.Keeps (M.assert s.encoder (.ofContexts t [x])) ∧
      s'.contains (.ofContexts t [y]) = .ok (before && y != .default) := by
  obtain ⟨b, hb, hiff⟩ := h.contains_context t y
  cases hb.symm.trans hbefore
  obtain ⟨report, s', hrun, hencoder, hs'⟩ := h.add_ok (.ofContexts t [x])
  obtain ⟨after, hafter, hiff'⟩ := hs'.contains_context t y
  rw [hencoder] at hiff'
  have hadded := Dataset.inContext_add (M := M) (t := s.encoder.classifyTriple t)
    (C := (Statement.ofContexts t [x]).contexts) (fun c => Statement.mem_ofContexts) hne
  refine ⟨report, s', hrun, hs', ?_⟩
  rw [hafter, Except.ok.injEq, Bool.eq_iff_iff, Bool.and_eq_true, bne_iff_ne, hiff]
  exact hiff'.trans hadded

theorem Keeps.remove_context (h : s.Keeps M) (t : Triple) {x y : Context} (hne : x ≠ y)
    {before : Bool} (hbefore : s.contains (.ofContexts t [y]) = .ok before) :
    ∃ changed s', remove (.ofContexts t [x]) s = .ok changed s' ∧
      s'.contains (.ofContexts t [y]) = .ok before := by
  obtain ⟨b, hb, hiff⟩ := h.contains_context t y
  cases hb.symm.trans hbefore
  obtain ⟨changed, s', hrun, hencoder, hs'⟩ := h.remove_ok (.ofContexts t [x])
  obtain ⟨after, hafter, hiff'⟩ := hs'.contains_context t y
  rw [hencoder] at hiff'
  have hremoved := Dataset.inContext_remove (M := M) (t := s.encoder.classifyTriple t)
    (C := (Statement.ofContexts t [x]).contexts) (fun c => Statement.mem_ofContexts) hne
  refine ⟨changed, s', hrun, ?_⟩
  rw [hafter, Except.ok.injEq, Bool.eq_iff_iff, hiff]
  exact hiff'.trans hremoved

/-- A triple is found, whatever graphs it is in, if it is stored. -/
theorem Keeps.get_triple (h : s.Keeps M) (t : Triple) :
    ∃ found, s.get ⟨.bound t.subject, t.predicate, .bound t.object, .any .anonymous⟩ = .ok found ∧
      (found ≠ [] ↔ ∃ A, M[s.encoder.classifyTriple t]? = some A) := by
  let p : Pattern :=
    .ofQuery ⟨.bound t.subject, t.predicate, .bound t.object, .any .anonymous⟩
  have hplan : (p.normalize s.encoder).plan s.encoder.policy = .ok .wholeTriple := rfl
  obtain ⟨found, hfound, hanswers⟩ := h.find_ok hplan
  refine ⟨found, hfound, ?_⟩
  constructor
  · intro hne
    obtain ⟨y, hy⟩ := List.exists_mem_of_ne_nil found hne
    obtain ⟨A, hA, haccepts, -⟩ := (hanswers.mem y).1 hy
    rw [Pattern.accepts_ofQuery.1 haccepts] at hA
    exact ⟨A, hA⟩
  · rintro ⟨A, hA⟩
    have hy : ⟨s.encoder.classifyTriple t, A⟩ ∈ found :=
      (hanswers.mem _).2 ⟨A, hA, Pattern.accepts_ofQuery.2 rfl, rfl⟩
    exact List.ne_nil_of_mem hy

/-- What is written to one context leaves what is contained in another as it was, except that a
triple leaves the default graph when it is asserted in a named graph, and does not come back when it
is taken out of that: the default graph has just the stored triples that are in no named graph. -/
theorem Reachable.contexts_independent (h : s.Reachable) (t : Triple) :
    (∀ x y : Context, x ≠ y → ∃ before, s.contains (.ofContexts t [y]) = .ok before ∧
      (∃ report s', add (.ofContexts t [x]) s = .ok report s' ∧
        s'.contains (.ofContexts t [y]) = .ok (before && y != .default) ∧
        ∃ changed s'', remove (.ofContexts t [x]) s' = .ok changed s'' ∧
          s''.contains (.ofContexts t [y]) = .ok (before && y != .default)) ∧
      ∃ changed s', remove (.ofContexts t [x]) s = .ok changed s' ∧
        s'.contains (.ofContexts t [y]) = .ok before) ∧
    ∃ found, s.get ⟨.bound t.subject, t.predicate, .bound t.object, .any .anonymous⟩ = .ok found ∧
      (s.contains (.ofContexts t [.default]) = .ok true ↔
        found ≠ [] ∧ ∀ c, s.contains (.ofContexts t [.named c]) = .ok false) := by
  obtain ⟨M, hM⟩ := h.keeps
  constructor
  · intro x y hne
    obtain ⟨before, hbefore, -⟩ := hM.contains_context t y
    obtain ⟨report, s', hadd, hs', hafter⟩ := hM.add_context t hne hbefore
    exact ⟨before, hbefore, ⟨report, s', hadd, hafter, hs'.remove_context t hne hafter⟩,
      hM.remove_context t hne hbefore⟩
  · obtain ⟨found, hfound, hstored⟩ := hM.get_triple t
    refine ⟨found, hfound, ?_⟩
    have hcontains : ∀ y b, s.contains (.ofContexts t [y]) = .ok b ↔
        (M.InContext (s.encoder.classifyTriple t) y ↔ b) := by
      intro y b
      obtain ⟨b', hb', hiff⟩ := hM.contains_context t y
      rw [hb', Except.ok.injEq, Bool.eq_iff_iff, hiff]
    simp only [hcontains, hstored, Dataset.inContext_default_iff, iff_true, Bool.false_eq_true,
      iff_false]

/-- One triple is in two named graphs, another is in the default graph. -/
theorem Reachable.contexts_independent_shared :
    let g : Context := .named ⟨"a:g", by decide⟩
    let h : Context := .named ⟨"a:h", by decide⟩
    let t : Triple := ⟨.uri ⟨"a:s", by decide⟩, ⟨"a:p", by decide⟩, .resource (.uri ⟨"a:o", by decide⟩)⟩
    let u : Triple := ⟨.uri ⟨"a:s", by decide⟩, ⟨"a:p", by decide⟩, .literal (.plain "x")⟩
    let s₀ : Store := { encoder := ⟨.verboseQuad, {}, none, {}⟩ }
    let s := s₀.after [.add (.ofContexts t [g, h]), .add (.ofContexts u [.default])]
    s.Reachable ∧ g ≠ h ∧ g ≠ .default ∧
      s.contains (.ofContexts t [h]) = .ok true ∧
      (∃ report s', add (.ofContexts t [g]) s = .ok report s' ∧
        s'.contains (.ofContexts t [h]) = .ok true) ∧
      (∃ changed s', remove (.ofContexts t [g]) s = .ok changed s' ∧
        s'.contains (.ofContexts t [h]) = .ok true) ∧
      s.contains (.ofContexts u [.default]) = .ok true ∧
      (∀ c, s.contains (.ofContexts u [.named c]) = .ok false) ∧
      ∃ report s', add (.ofContexts u [g]) s = .ok report s' ∧
        s'.contains (.ofContexts u [.default]) = .ok false ∧
        ∃ changed s'', remove (.ofContexts u [g]) s' = .ok changed s'' ∧
          s''.contains (.ofContexts u [.default]) = .ok false := by
  intro g h t u s₀ s
  have hs : s.Reachable := (Reachable.fresh (.ofConfig (c := {}) rfl)).after _
  have hne : g ≠ h := by simp [g, h]
  have hnamed : g ≠ .default := by simp [g]
  have hold : s.contains (.ofContexts t [h]) = .ok true := by decide +kernel +zetaReduce
  have hdefault : s.contains (.ofContexts u [.default]) = .ok true := by
    decide +kernel +zetaReduce
  obtain ⟨before, hbefore, ⟨report, s₁, hadd, hkept, -⟩, changed, s₂, hremove, hleft⟩ :=
    (hs.contexts_independent t).1 g h hne
  cases hbefore.symm.trans hold
  obtain ⟨hindependent, found, -, hiff⟩ := hs.contexts_independent u
  obtain ⟨before', hbefore', hlost, -⟩ := hindependent g .default hnamed
  cases hbefore'.symm.trans hdefault
  exact ⟨hs, hne, hnamed, hold, ⟨report, s₁, hadd, hkept⟩, ⟨changed, s₂, hremove, hleft⟩, hdefault,
    (hiff.1 hdefault).2, hlost⟩

/-- Asserted in a named graph and then taken out of it, a triple is not in the default graph any
more. -/
theorem default_graph_left :
    let s : Store := { encoder := ⟨.dense, {}, none, {}⟩ }
    let t : Triple := ⟨.uri ⟨"a:s", by decide⟩, ⟨"a:p", by decide⟩, .resource (.uri ⟨"a:o", by decide⟩)⟩
    let x : Context := .named ⟨"a:g", by decide⟩
    s.Reachable ∧ ∃ report s₁, add (.ofContexts t [.default]) s = .ok report s₁ ∧
      s₁.contains (.ofContexts t [.default]) = .ok true ∧
      ∃ report s₂, add (.ofContexts t [x]) s₁ = .ok report s₂ ∧
        s₂.contains (.ofContexts t [.default]) = .ok false ∧
        ∃ changed s₃, remove (.ofContexts t [x]) s₂ = .ok changed s₃ ∧
          s₃.contains (.ofContexts t [.default]) = .ok false := by
  intro s t x
  have hfresh : s.Fresh := .ofConfig (c := { encoding := .dense }) rfl
  have hne : x ≠ .default := by simp [x]
  obtain ⟨report, s₁, hadd, hencoder, hs₁⟩ := hfresh.keeps.add_ok (.ofContexts t [.default])
  obtain ⟨b, hb, hiff⟩ := hs₁.contains_context t .default
  obtain rfl : b = true := by
    rw [hiff, hencoder]
    refine ⟨_, Dataset.getElem?_add.trans (if_pos rfl), ?_⟩
    simp [Statement.ofContexts, Statement.namedGraphs, Context.uri?]
  obtain ⟨report', s₂, hadd', hs₂, hafter⟩ := hs₁.add_context t hne hb
  obtain ⟨changed, s₃, hremove, hleft⟩ := hs₂.remove_context t hne hafter
  exact ⟨.fresh hfresh, report, s₁, hadd, hb, report', s₂, hadd', hafter, changed, s₃, hremove, hleft⟩

/-! ## Reading back -/

theorem Keeps.contains_eq (h : s.Keeps M) (h' : s'.Keeps M) (hencoder : s'.encoder = s.encoder)
    (y : Statement) : s'.contains y = s.contains y := by
  obtain ⟨b, hb, hiff⟩ := h.contains_ok y
  obtain ⟨b', hb', hiff'⟩ := h'.contains_ok y
  rw [hb, hb', Except.ok.injEq, Bool.eq_iff_iff, hiff, hiff', hencoder]

/-- A statement reads back after it was added, with its object as it is stored, unless it names no
graph and its triple is in a named graph: then nothing changes and it is not there. -/
theorem Reachable.add_reads_back (h : s.Reachable) (x : Statement) :
    ∃ report s', add x s = .ok report s' ∧
      ((x.contexts.isEmpty = false ∨ ∀ c, s.contains (.ofContexts x.triple [.named c]) = .ok false) →
        s'.get x.toQuery = .ok [⟨s.encoder.classifyTriple x.triple, x.contexts⟩] ∧
          s'.contains x = .ok true) ∧
      (x.contexts.isEmpty → (∃ c, s.contains (.ofContexts x.triple [.named c]) = .ok true) →
        s'.get x.toQuery = .ok [] ∧ s'.contains x = .ok false ∧
          ∀ y, s'.contains y = s.contains y) := by
  obtain ⟨M, hM⟩ := h.keeps
  obtain ⟨report, s', hrun, hencoder, hs'⟩ := hM.add_ok x
  have hnamed : ∀ c, ∃ b : Bool, s.contains (.ofContexts x.triple [.named c]) = .ok b ∧
      (b ↔ ∃ A, M[s.encoder.classifyTriple x.triple]? = some A ∧ c ∈ A) := fun c =>
    hM.contains_context x.triple (.named c)
  refine ⟨report, s', hrun, fun hx => ?_, fun hx ⟨c, hc⟩ => ?_⟩
  · rw [← hencoder]
    refine hs'.found ?_
    rw [hencoder]
    refine Dataset.asserts_add (hx.imp_right fun hnone A hA => ?_)
    rw [Dataset.isEmpty_iff_forall]
    intro c hmem
    obtain ⟨b, hb, hiff⟩ := hnamed c
    cases hb.symm.trans (hnone c)
    cases hiff.2 ⟨A, hA, hmem⟩
  · obtain ⟨b, hb, hiff⟩ := hnamed c
    cases hb.symm.trans hc
    obtain ⟨A, hA, hmem⟩ := hiff.1 rfl
    have hne : A.isEmpty = false := by
      rw [← Bool.not_eq_true, Dataset.isEmpty_iff_forall]
      exact fun hnone => hnone c hmem
    rw [Dataset.assert, Dataset.add_empty hA hx] at hs'
    rw [← hencoder] at hA
    obtain ⟨hget, hcontains⟩ := hs'.notFound hA hx hne
    exact ⟨hget, hcontains, hM.contains_eq hs' hencoder⟩

/-- A triple that is in one graph reads back from another, and not from the default graph. -/
theorem Reachable.add_reads_back_default :
    let t : Triple := ⟨.uri ⟨"a:s", by decide⟩, ⟨"a:p", by decide⟩, .resource (.uri ⟨"a:o", by decide⟩)⟩
    let g : Uri := ⟨"a:g", by decide⟩
    let s₀ : Store := { encoder := ⟨.verboseQuad, {}, none, {}⟩ }
    let s := s₀.after [.add ⟨t, {g}⟩]
    let x : Statement := ⟨t, {⟨"a:h", by decide⟩}⟩
    let y : Statement := ⟨t, ∅⟩
    s.Reachable ∧ x.contexts.isEmpty = false ∧
      (∃ report s', add x s = .ok report s' ∧
        s'.get x.toQuery = .ok [⟨s.encoder.classifyTriple x.triple, x.contexts⟩] ∧
          s'.contains x = .ok true) ∧
      y.contexts.isEmpty ∧ s.contains (.ofContexts t [.named g]) = .ok true ∧
      ∃ report s', add y s = .ok report s' ∧
        s'.get y.toQuery = .ok [] ∧ s'.contains y = .ok false ∧
          ∀ z, s'.contains z = s.contains z := by
  intro t g s₀ s x y
  have hs : s.Reachable := (Reachable.fresh (.ofConfig (c := {}) rfl)).after _
  have hx : x.contexts.isEmpty = false := by simp [x]
  have hy : y.contexts.isEmpty := by simp [y]
  have hold : s.contains (.ofContexts t [.named g]) = .ok true := by decide +kernel +zetaReduce
  obtain ⟨report, s₁, hadd, hback, -⟩ := hs.add_reads_back x
  obtain ⟨report', s₂, hadd', -, hlost⟩ := hs.add_reads_back y
  exact ⟨hs, hx, ⟨report, s₁, hadd, hback (.inl hx)⟩, hy, hold, report', s₂, hadd',
    hlost hy ⟨g, hold⟩⟩

/-- A statement that names no graph is not found after it was added, when its triple is in a named
graph. -/
theorem add_default_lost :
    let s : Store := { encoder := ⟨.dense, {}, none, {}⟩ }
    let t : Triple := ⟨.uri ⟨"a:s", by decide⟩, ⟨"a:p", by decide⟩, .resource (.uri ⟨"a:o", by decide⟩)⟩
    let x : Statement := ⟨t, ∅⟩
    s.Reachable ∧ ∃ report s₁, add ⟨t, {⟨"a:g", by decide⟩}⟩ s = .ok report s₁ ∧
      ∃ report s₂, add x s₁ = .ok report s₂ ∧ s₂.get x.toQuery = .ok [] ∧ s₂.contains x = .ok false := by
  intro s t x
  have hfresh : s.Fresh := .ofConfig (c := { encoding := .dense }) rfl
  obtain ⟨report, s₁, hadd, hencoder, hs₁⟩ := hfresh.keeps.add_ok ⟨t, {⟨"a:g", by decide⟩}⟩
  obtain ⟨report', s₂, hadd', hencoder', hs₂⟩ := hs₁.add_ok x
  have hA : (Dataset.assert s.encoder ∅ ⟨t, {⟨"a:g", by decide⟩}⟩)[s₁.encoder.classifyTriple t]? =
      some (∅ ∪ {⟨"a:g", by decide⟩}) := by
    rw [hencoder, Dataset.assert, Dataset.getElem?_add, if_pos rfl]
    simp
  rw [Dataset.assert, Dataset.add_empty hA (by simp [x])] at hs₂
  rw [← hencoder'] at hA
  exact ⟨.fresh hfresh, report, s₁, hadd, report', s₂, hadd',
    hs₂.notFound hA (by simp [x]) (by simp)⟩

end Store

end QuadStore
