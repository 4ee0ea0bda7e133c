import Mathlib
import QuadStore.Proofs.Encoder.Reporting
import QuadStore.Proofs.Store.Contexts
/-!
# Deleting what answers a query

A query that can be planned lists the contexts of triples that it matches. Deleting what it lists
takes every triple out of those contexts and leaves all other triples and contexts as they are.
-/

namespace QuadStore

namespace Context

/-- Whether the context is one of a triple that is in these named graphs. -/
def isOf (graphs : UriSet) : Context → Bool
  | default => graphs.isEmpty
  | named c => graphs.contains c

theorem isOf_named {graphs : UriSet} {c : Uri} : (named c).isOf graphs ↔ c ∈ graphs :=
  Std.ExtTreeSet.contains_iff_mem

theorem exists_isOf (graphs : UriSet) : ∃ x : Context, x.isOf graphs := by
  cases hempty : graphs.isEmpty with
  | true => exact ⟨default, hempty⟩
  | false =>
    rw [← Bool.not_eq_true, Dataset.isEmpty_iff_forall, not_forall_not] at hempty
    obtain ⟨c, hc⟩ := hempty
    exact ⟨named c, isOf_named.2 hc⟩

end Context

namespace ContextFilter

variable {f : ContextFilter} {graphs kept : UriSet} {x : Context}

/-- Whether a filter lets a context through. -/
def admits : ContextFilter → Context → Bool
  | any, _ => true
  | among wanted, x => wanted.contains x

/-- What a filter lets through of a triple are the contexts of the triple that it admits. -/
theorem isOf_restrict (h : f.restrict graphs = some kept) :
    x.isOf kept ↔ x.isOf graphs ∧ f.admits x := by
  cases f with
  | any =>
    cases h
    simp [admits]
  | among wanted =>
    rw [admits, Std.ExtTreeSet.contains_iff_mem]
    rcases restrict_among.1 h with ⟨hempty, hdefault, rfl⟩ | ⟨hne, hmem⟩
    · rw [Std.ExtTreeSet.isEmpty_iff.1 hempty]
      cases x <;> simp [Context.isOf, hdefault]
    · cases x with
      | default =>
        refine iff_of_false (fun hkept => ?_) fun hgraphs => ?_
        · exact Bool.false_ne_true (hne.symm.trans hkept)
        · rw [← Bool.not_eq_true, Dataset.isEmpty_iff_forall] at hne
          exact hne fun c hc => Dataset.isEmpty_iff_forall.1 hgraphs.1 c ((hmem c).1 hc).1
      | named c => rw [Context.isOf_named, Context.isOf_named, hmem]

/-- A filter lets something of a triple through if it admits one of its contexts. -/
theorem exists_restrict (hx : x.isOf graphs) (hadmits : f.admits x) :
    ∃ kept, f.restrict graphs = some kept := by
  cases f with
  | any => exact ⟨graphs, rfl⟩
  | among wanted =>
    rw [admits, Std.ExtTreeSet.contains_iff_mem] at hadmits
    cases x with
    | default => exact ⟨∅, restrict_among.2 (.inl ⟨hx, hadmits, rfl⟩)⟩
    | named c =>
      have hmem : ∀ d, d ∈ (graphs.filter fun g => wanted.contains (.named g)) ↔
          d ∈ graphs ∧ .named d ∈ wanted := fun d => by
        simp only [Std.ExtTreeSet.mem_filter, Std.ExtTreeSet.get_eq, Std.ExtTreeSet.contains_iff_mem,
          exists_prop]
      refine ⟨_, restrict_among.2 (.inr ⟨?_, hmem⟩)⟩
      rw [← Bool.not_eq_true, Dataset.isEmpty_iff_forall]
      exact fun hnone => hnone c ((hmem c).2 ⟨Context.isOf_named.1 hx, hadmits⟩)

end ContextFilter

namespace Dataset

variable {e : Encoder} {M : Dataset} {t u : Triple} {A C : UriSet} {x : Context} {r : Statement}
  {found : List Statement}

theorem inContext_iff : M.InContext t x ↔ ∃ A, M[t]? = some A ∧ x.isOf A := by
  cases x <;> simp [InContext, Context.isOf]

/-! ## Taking out what is asserted -/

/-- Taking out what is asserted takes the triple out of just these contexts. -/
theorem inContext_remove_self (h : M.Asserts t C) :
    (M.remove t C).InContext t x ↔ M.InContext t x ∧ ¬x.isOf C := by
  obtain ⟨A, hA, hempty, hsub⟩ := h
  have hdrops : Drops A C ↔ ∀ c ∈ A, c ∈ C := by
    rw [drops_iff, and_iff_left_iff_imp]
    rintro -
    rw [or_iff_not_imp_left, not_forall_not]
    rintro ⟨c, hc⟩
    exact ⟨c, hsub c hc, hc⟩
  have hthere : ∀ B, (M.remove t C)[t]? = some B ↔ ¬Drops A C ∧ A \ C = B := fun B => by
    rw [getElem?_remove hA, if_pos rfl, Option.ite_none_left_eq_some, Option.some.injEq]
  simp only [inContext_iff, hthere, hA, Option.some.injEq, exists_eq_left']
  cases x with
  | default =>
    refine iff_of_false ?_ ?_
    · rintro ⟨_, ⟨hkept, rfl⟩, hnone⟩
      refine hkept (hdrops.2 fun c hc => ?_)
      by_contra hC
      exact isEmpty_iff_forall.1 hnone c (Std.ExtTreeSet.mem_diff_iff.2 ⟨hc, hC⟩)
    · rintro ⟨hnone, hnamed⟩
      refine hnamed (isEmpty_iff_forall.2 fun c hc => ?_)
      exact isEmpty_iff_forall.1 hnone c (hsub c hc)
  | named c =>
    simp only [Context.isOf_named]
    constructor
    · rintro ⟨_, ⟨-, rfl⟩, hc⟩
      exact Std.ExtTreeSet.mem_diff_iff.1 hc
    · intro hc
      exact ⟨_, ⟨fun hdropped => hc.2 (hdrops.1 hdropped c hc.1), rfl⟩,
        Std.ExtTreeSet.mem_diff_iff.2 hc⟩

/-- Taking out what is asserted changes something. -/
theorem remove_ne (h : M.Asserts t C) : M.remove t C ≠ M := by
  intro heq
  obtain ⟨x, hx⟩ := Context.exists_isOf C
  have hthere : M.InContext t x := by
    obtain ⟨A, hA, hempty, hsub⟩ := h
    refine inContext_iff.2 ⟨A, hA, ?_⟩
    cases x with
    | default => exact hempty hx
    | named c => exact Context.isOf_named.2 (hsub c (Context.isOf_named.1 hx))
  have hgone := inContext_remove_self (x := x) h
  rw [heq] at hgone
  exact (hgone.1 hthere).2 hx

theorem asserts_remove_ne (hne : t ≠ u) (h : M.Asserts u A) : (M.remove t C).Asserts u A := by
  obtain ⟨B, hB, hkept⟩ := h
  exact ⟨B, by rwa [getElem?_remove_ne hne], hkept⟩

/-! ## Statements one after another -/

/-- The statements are of different triples, each as it is stored and in graphs that it is in. -/
structure Lists (M : Dataset) (e : Encoder) (found : List Statement) : Prop where
  nodup : (found.map (·.triple)).Nodup
  classified : ∀ r ∈ found, e.classifyTriple r.triple = r.triple
  asserts : ∀ r ∈ found, M.Asserts r.triple r.contexts

theorem Lists.retract (h : M.Lists e (r :: found)) : (M.retract e r).Lists e found where
  nodup := (List.nodup_cons.1 h.nodup).2
  classified u hu := h.classified u (List.mem_cons_of_mem _ hu)
  asserts u hu := by
    rw [Dataset.retract, h.classified r (List.mem_cons_self ..)]
    refine asserts_remove_ne (fun heq => ?_) (h.asserts u (List.mem_cons_of_mem _ hu))
    exact (List.nodup_cons.1 h.nodup).1 (List.mem_map.2 ⟨u, hu, heq.symm⟩)

theorem Lists.retract_ne (h : M.Lists e (r :: found)) : M.retract e r ≠ M := by
  rw [Dataset.retract, h.classified r (List.mem_cons_self ..)]
  exact remove_ne (h.asserts r (List.mem_cons_self ..))

/-- Retracting statements takes each triple out of the contexts that its statement names. -/
theorem Lists.inContext_retract (h : M.Lists e found) :
    (found.foldl (Dataset.retract e) M).InContext t x ↔
      M.InContext t x ∧ ∀ r ∈ found, r.triple = t → ¬x.isOf r.contexts := by
  induction found generalizing M with
  | nil => simp
  | cons r rest ih =>
    rw [List.foldl_cons, ih h.retract, List.forall_mem_cons, ← and_assoc]
    refine and_congr_left' ?_
    rw [Dataset.retract, h.classified r (List.mem_cons_self ..)]
    by_cases heq : r.triple = t
    · subst heq
      simp only [inContext_remove_self (h.asserts r (List.mem_cons_self ..)), true_implies]
    · simp only [inContext_iff, getElem?_remove_ne heq, heq, false_implies, and_true]

theorem Classified.retractAll (h : M.Classified e) :
    (found.foldl (Dataset.retract e) M).Classified e := by
  induction found generalizing M with
  | nil => exact h
  | cons r rest ih => exact ih h.remove

end Dataset

namespace Pattern

variable {p : Pattern} {e : Encoder} {M N : Dataset} {found : List Statement} {policy : Policy}
  {cause : QueryError} {path : AccessPath}

/-- Whether a pattern can be planned does not depend on how its object is stored. -/
theorem plan_normalize : (p.normalize e).plan policy = .error cause ↔ p.plan policy = .error cause := by
  obtain ⟨subject, predicate, object, contexts⟩ := p
  cases predicate with
  | none => exact Iff.rfl
  | some u =>
    cases object with
    | none => exact Iff.rfl
    | some o =>
      cases subject with
      | some r =>
        refine iff_of_false ?_ ?_ <;> simp [plan, accessPath?, normalize]
      | none =>
        have hplans : ∀ o : Value, ∃ path,
            plan ⟨none, some u, some o, contexts⟩ policy = .ok path := by
          rintro (r | l)
          · exact ⟨.object, rfl⟩
          · exact ⟨.literal, rfl⟩
        obtain ⟨path, hpath⟩ := hplans o
        obtain ⟨path', hpath'⟩ := hplans (e.classify u o)
        simp only [normalize, hpath, hpath', reduceCtorEq]

theorem plan_normalize_ok (h : p.plan policy = .ok path) :
    ∃ path', (p.normalize e).plan policy = .ok path' := by
  cases hplan : (p.normalize e).plan policy with
  | error cause =>
    rw [plan_normalize, h] at hplan
    cases hplan
  | ok path' => exact ⟨path', rfl⟩

theorem Selects.asserts {s : Statement} (h : p.Selects M s) : M.Asserts s.triple s.contexts := by
  obtain ⟨A, hA, -, hrestrict⟩ := h
  refine ⟨A, hA, fun hempty => ?_, fun c hc => ?_⟩
  · exact ((ContextFilter.isOf_restrict (x := .default) hrestrict).1 hempty).1
  · have hnamed := ContextFilter.isOf_restrict (x := .named c) hrestrict
    exact Context.isOf_named.1 (hnamed.1 (Context.isOf_named.2 hc)).1

theorem Answers.lists (h : p.Answers M found) (hM : M.Classified e) : M.Lists e found where
  nodup := h.nodup
  classified r hr := by
    obtain ⟨A, hA, -⟩ := (h.mem r).1 hr
    exact hM _ A hA
  asserts r hr := ((h.mem r).1 hr).asserts

/-- Once what it lists was retracted a pattern selects nothing any more. -/
theorem Answers.retract_selects (h : p.Answers M found) (hM : M.Classified e) (s : Statement) :
    ¬p.Selects (found.foldl (Dataset.retract e) M) s := by
  rintro ⟨B, hB, haccepts, hrestrict⟩
  obtain ⟨x, hx⟩ := Context.exists_isOf s.contexts
  obtain ⟨hxB, hadmits⟩ := (ContextFilter.isOf_restrict hrestrict).1 hx
  obtain ⟨hthere, hkept⟩ :=
    (h.lists hM).inContext_retract.1 (Dataset.inContext_iff.2 ⟨B, hB, hxB⟩)
  obtain ⟨A, hA, hxA⟩ := Dataset.inContext_iff.1 hthere
  obtain ⟨kept, hkeeps⟩ := ContextFilter.exists_restrict hxA hadmits
  refine hkept ⟨s.triple, kept⟩ ((h.mem _).2 ⟨A, hA, haccepts, hkeeps⟩) rfl ?_
  exact (ContextFilter.isOf_restrict hkeeps).2 ⟨hxA, hadmits⟩

end Pattern

namespace Work

variable {e : Encoder} {M : Dataset} {w : Work} {r : Statement} {found : List Statement} {p : Pattern}

/-- Removing a statement reports a change if it takes anything out. -/
theorem remove_reports (hv : e.vocabulary.Valid) (hw : w.transaction.graph.Stores e M) :
    ∃ report w', remove e r w = .ok report w' ∧ w'.transaction.graph.Stores e (M.retract e r) ∧
      (report.removed = false → M.retract e r = M) := by
  obtain ⟨f, parts, hf, hsketch⟩ := Encoder.fragment_sketches hv r
  obtain ⟨P, hg⟩ := hw
  obtain ⟨report, texts, w', hrun, -, hg', hreports⟩ := run_ok (hsketch.removeFrom_reports hv hg)
  exact ⟨report, w', (encode_bind hf).trans hrun, ⟨P, hg'⟩, hreports⟩

/-- Removing statements that are all asserted counts each of them. -/
theorem removeAll_ok (hv : e.vocabulary.Valid) (hw : w.transaction.graph.Stores e M)
    (h : M.Lists e found) (count : Nat) :
    ∃ w', (found.foldlM (fun count s => do
        return if (← remove e s).removed then count + 1 else count) count : WorkM Nat) w =
          .ok (count + found.length) w' ∧
      w'.transaction.graph.Stores e (found.foldl (Dataset.retract e) M) := by
  induction found generalizing w M count with
  | nil => exact ⟨w, rfl, hw⟩
  | cons r rest ih =>
    obtain ⟨report, w', hremove, hw', hreports⟩ := remove_reports (r := r) hv hw
    have hremoved : report.removed = true := by
      rw [← Bool.not_eq_false]
      exact fun hkept => h.retract_ne (hreports hkept)
    obtain ⟨w'', hrest, hw''⟩ := ih hw' h.retract (count + 1)
    have hfirst : (do return if (← remove e r).removed then count + 1 else count : WorkM Nat) w =
        .ok (count + 1) w' := by
      refine (run_bind_ok hremove).trans ?_
      rw [if_pos hremoved]
      rfl
    refine ⟨w'', ?_, hw''⟩
    rw [List.length_cons, Nat.add_comm rest.length, ← Nat.add_assoc, ← hrest]
    exact run_bind_ok hfirst

theorem resolve_bind {found : List Statement} {α : Type} {next : List Statement → WorkM α}
    (h : p.resolve e w.transaction.graph = .ok found) :
    (resolve e p >>= next) w = next found w := by
  refine run_bind_ok ?_
  simp only [resolve, h]

end Work

namespace Store

variable {s s' : Store} {M : Dataset} {q : Query} {found : List Statement} {cause : QueryError}

/-- A query that cannot be planned deletes nothing. -/
theorem removeMatching_refused (h : (Pattern.ofQuery q).plan s.encoder.policy = .error cause) :
    removeMatching q s = .error (.query cause) s := by
  have hresolve : ∀ g, (Pattern.ofQuery q).resolve s.encoder g = .error (.query cause) := fun g =>
    Pattern.resolve_error (Pattern.plan_normalize.2 h)
  have hwork : (do Work.removeAll s.encoder (← Work.resolve s.encoder (Pattern.ofQuery q)) :
      WorkM Nat) ⟨.start s.graph, s.textIndex⟩ =
        .error (.query cause) ⟨.start s.graph, s.textIndex⟩ := by
    refine run_bind_error ?_
    simp only [Work.resolve, hresolve]
  simp only [removeMatching, transact, hwork]
  rfl

/-- Deleting what answers a query counts it and retracts it. -/
theorem Keeps.removeMatching_ok (h : s.Keeps M) (hget : s.get q = .ok found)
    (hlists : M.Lists s.encoder found) :
    ∃ s', removeMatching q s = .ok found.length s' ∧ s'.encoder = s.encoder ∧
      s'.Keeps (found.foldl (Dataset.retract s.encoder) M) := by
  let w : Work := ⟨.start s.graph, s.textIndex⟩
  obtain ⟨w', hrun, hw'⟩ := Work.removeAll_ok (w := w) h.valid h.stores hlists 0
  rw [Nat.zero_add] at hrun
  have hwork : (do Work.removeAll s.encoder (← Work.resolve s.encoder (Pattern.ofQuery q)) :
      WorkM Nat) w = .ok found.length w' :=
    (Work.resolve_bind (w := w) (p := Pattern.ofQuery q) hget).trans hrun
  refine ⟨{ s with graph := w'.transaction.commit, textIndex := w'.textIndex }, ?_, rfl, h.valid, hw',
    h.classified.retractAll⟩
  simp only [removeMatching, transact, w, hwork]

/-- Deleting what answers a query takes out exactly the triples and contexts that it lists, and a
query that cannot be planned deletes nothing. -/
theorem Reachable.removeMatching_exact (h : s.Reachable) (q : Query) :
    match (Pattern.ofQuery q).plan s.encoder.policy with
    | .error cause => removeMatching q s = .error (.query cause) s
    | .ok _ => ∃ found s', s.get q = .ok found ∧ removeMatching q s = .ok found.length s' ∧
        s'.get q = .ok [] ∧ (∀ r ∈ found, s.encoder.classifyTriple r.triple = r.triple) ∧
        ∀ t x, ∃ before, s.contains (.ofContexts t [x]) = .ok before ∧
          s'.contains (.ofContexts t [x]) = .ok (before && !found.any fun r =>
            r.triple == s.encoder.classifyTriple t && x.isOf r.contexts) := by
  obtain ⟨M, hM⟩ := h.keeps
  cases hplan : (Pattern.ofQuery q).plan s.encoder.policy with
  | error cause => exact removeMatching_refused hplan
  | ok path =>
    obtain ⟨path', hpath'⟩ := Pattern.plan_normalize_ok (e := s.encoder) hplan
    obtain ⟨found, hfound, hanswers⟩ := hM.find_ok hpath'
    have hlists := hanswers.lists hM.classified
    obtain ⟨s', hrun, hencoder, hs'⟩ := hM.removeMatching_ok hfound hlists
    refine ⟨found, s', hfound, hrun, ?_, hlists.classified, fun t x => ?_⟩
    · obtain ⟨left, hleft, hnone⟩ := hs'.find_ok (p := Pattern.ofQuery q) (hencoder.symm ▸ hpath')
      rw [hencoder] at hnone
      have hnil : left = [] := List.eq_nil_iff_forall_not_mem.2 fun y hy =>
        hanswers.retract_selects hM.classified y ((hnone.mem y).1 hy)
      exact hnil ▸ hleft
    · obtain ⟨before, hbefore, hiff⟩ := hM.contains_context t x
      obtain ⟨after, hafter, hiff'⟩ := hs'.contains_context t x
      refine ⟨before, hbefore, ?_⟩
      rw [hencoder, hlists.inContext_retract, ← hiff] at hiff'
      rw [hafter, Except.ok.injEq, Bool.eq_iff_iff, hiff', Bool.and_eq_true, Bool.not_eq_true',
        List.any_eq_false]
      simp only [Bool.and_eq_true, beq_iff_eq, not_and]

/-- Two statements about a subject are deleted from one of their graphs. What is in another graph and
what is about another subject stays. -/
theorem Reachable.removeMatching_exact_graph :
    let g : Context := .named ⟨"a:g", by decide⟩
    let h : Context := .named ⟨"a:h", by decide⟩
    let o : Value := .resource (.uri ⟨"a:o", by decide⟩)
    let t : Triple := ⟨.uri ⟨"a:s", by decide⟩, ⟨"a:p", by decide⟩, o⟩
    let u : Triple := ⟨.uri ⟨"a:s", by decide⟩, ⟨"a:p", by decide⟩, .literal (.plain "x")⟩
    let w : Triple := ⟨.uri ⟨"a:t", by decide⟩, ⟨"a:p", by decide⟩, o⟩
    let s₀ : Store := { encoder := ⟨.verboseQuad, {}, none, {}⟩ }
    let s := s₀.after [.addAll [.ofContexts t [g, h], .ofContexts u [g], .ofContexts w [g]]]
    let q : Query :=
      ⟨.bound (.uri ⟨"a:s", by decide⟩), ⟨"a:p", by decide⟩, .any .anonymous, .bound [g]⟩
    s.Reachable ∧ ∃ s', s.get q = .ok [.ofContexts t [g], .ofContexts u [g]] ∧
      removeMatching q s = .ok 2 s' ∧ s'.get q = .ok [] ∧
      s'.contains (.ofContexts t [g]) = .ok false ∧ s'.contains (.ofContexts t [h]) = .ok true ∧
      s'.contains (.ofContexts u [g]) = .ok false ∧ s'.contains (.ofContexts w [g]) = .ok true := by
  intro g h o t u w s₀ s q
  have hs : s.Reachable := (Reachable.fresh (.ofConfig (c := {}) rfl)).after _
  have hget : s.get q = .ok [.ofContexts t [g], .ofContexts u [g]] := by
    decide +kernel +zetaReduce
  obtain ⟨found, s', hfound, hrun, hnone, -, hcontains⟩ := hs.removeMatching_exact q
  cases hfound.symm.trans hget
  have hafter : ∀ v x before, s.contains (.ofContexts v [x]) = .ok before →
      s'.contains (.ofContexts v [x]) = .ok (before &&
        !([Statement.ofContexts t [g], .ofContexts u [g]].any fun r =>
          r.triple == s.encoder.classifyTriple v && x.isOf r.contexts)) := by
    intro v x before hbefore
    obtain ⟨b, hb, hleft⟩ := hcontains v x
    cases hb.symm.trans hbefore
    exact hleft
  refine ⟨hs, s', hget, hrun, hnone, ?_, ?_, ?_, ?_⟩
  · exact (hafter t g true (by decide +kernel +zetaReduce)).trans (by decide +kernel +zetaReduce)
  · exact (hafter t h true (by decide +kernel +zetaReduce)).trans (by decide +kernel +zetaReduce)
  · exact (hafter u g true (by decide +kernel +zetaReduce)).trans (by decide +kernel +zetaReduce)
  · exact (hafter w g true (by decide +kernel +zetaReduce)).trans (by decide +kernel +zetaReduce)

end Store

end QuadStore
