import Mathlib
import QuadStore.Proofs.View.Paths
import QuadStore.Resolution
/-!
# Resolving patterns

In a graph that can be read a pattern with a subject or an object unites what can be read of every
triple that it accepts, as its filter lets it through. On the graph of a dataset a pattern that can
be planned selects what a scan of the whole dataset would: every stored triple that it accepts,
once, with the named graphs that its filter lets through.
-/

namespace QuadStore

namespace ContextFilter

variable {graphs kept : UriSet} {wanted : ContextSet} {c : Uri}

theorem mem_wanted : c ∈ (graphs.filter fun g => wanted.contains (.named g)) ↔
    c ∈ graphs ∧ .named c ∈ wanted := by
  simp only [Std.ExtTreeSet.mem_filter, Std.ExtTreeSet.get_eq, Std.ExtTreeSet.contains_iff_mem,
    exists_prop]

/-- What a filter lets through of the named graphs of a triple. -/
theorem restrict_among :
    (among wanted).restrict graphs = some kept ↔
      (graphs.isEmpty ∧ .default ∈ wanted ∧ kept = ∅) ∨
        (kept.isEmpty = false ∧ ∀ c, c ∈ kept ↔ c ∈ graphs ∧ .named c ∈ wanted) := by
  have hempty : graphs.isEmpty → ∀ c, c ∉ graphs := Dataset.isEmpty_iff_forall.1
  simp only [restrict]
  by_cases hgraphs : graphs.isEmpty
  · simp only [hgraphs, if_true, Std.ExtTreeSet.contains_iff_mem, Option.ite_none_right_eq_some,
      Option.some.injEq, true_and, eq_comm (a := ∅)]
    refine ⟨.inl, ?_⟩
    rintro (h | ⟨hne, hmem⟩)
    · exact h
    · rw [← Bool.not_eq_true, Dataset.isEmpty_iff_forall] at hne
      exact absurd (fun c hc => hempty hgraphs c ((hmem c).1 hc).1) hne
  · simp only [hgraphs, Bool.false_eq_true, if_false, Option.ite_none_left_eq_some, false_and,
      false_or, Option.some.injEq, Bool.not_eq_true]
    constructor
    · rintro ⟨hne, rfl⟩
      exact ⟨hne, fun c => mem_wanted⟩
    · rintro ⟨hne, hmem⟩
      have heq : (graphs.filter fun g => wanted.contains (.named g)) = kept := by
        ext c
        rw [mem_wanted, hmem]
      rw [heq]
      exact ⟨hne, rfl⟩

/-- A filter for named graphs alone lets through what both sets have, if that is anything. -/
theorem restrict_named (hdefault : .default ∉ wanted) :
    (among wanted).restrict graphs = some kept ↔
      (∃ c, c ∈ kept) ∧ ∀ c, c ∈ kept ↔ c ∈ graphs ∧ .named c ∈ wanted := by
  have hne : kept.isEmpty = false ↔ ∃ c, c ∈ kept := by
    rw [← Bool.not_eq_true, Dataset.isEmpty_iff_forall, not_forall_not]
  rw [restrict_among, hne]
  simp only [hdefault, false_and, and_false, false_or]

theorem exists_restrict_named (hdefault : .default ∉ wanted) :
    (∃ kept, (among wanted).restrict graphs = some kept ∧ c ∈ kept) ↔
      c ∈ graphs ∧ .named c ∈ wanted := by
  simp only [restrict_named hdefault]
  constructor
  · rintro ⟨kept, ⟨-, hmem⟩, hc⟩
    exact (hmem c).1 hc
  · exact fun hc => ⟨_, ⟨⟨c, mem_wanted.2 hc⟩, fun _ => mem_wanted⟩, mem_wanted.2 hc⟩

end ContextFilter

/-- The statement has the named graphs of all the given ones with its triple, and there is one. -/
@[mk_iff]
structure Statement.Unites (Q : Statement → Prop) (s : Statement) : Prop where
  mem : ∃ u, Q u ∧ u.triple = s.triple
  contexts : ∀ c, c ∈ s.contexts ↔ ∃ u, Q u ∧ u.triple = s.triple ∧ c ∈ u.contexts

/-- Statements that agree on every triple are united already. -/
theorem Statement.unites_of_agree {Q : Statement → Prop} {s : Statement}
    (h : ∀ t u, Q t → Q u → t.triple = u.triple → t = u) : s.Unites Q ↔ Q s := by
  constructor
  · rintro ⟨⟨u, hu, heq⟩, hcontexts⟩
    obtain ⟨t, A⟩ := s
    obtain ⟨_, B⟩ := u
    obtain rfl : _ = t := heq
    have hA : A = B := by
      ext c
      rw [hcontexts]
      constructor
      · rintro ⟨x, hx, heq, hc⟩
        rwa [h x _ hx hu heq] at hc
      · exact fun hc => ⟨_, hu, rfl, hc⟩
    rwa [hA]
  · intro hs
    refine ⟨⟨s, hs, rfl⟩, fun c => ⟨fun hc => ⟨s, hs, rfl, hc⟩, ?_⟩⟩
    rintro ⟨u, hu, heq, hc⟩
    rwa [h u s hu hs heq] at hc

namespace Pattern

variable {p : Pattern} {e : Encoder} {M : Dataset} {g : Graph} {s u : Statement}
  {found : List Statement} {H : Statement → Prop}

/-- What a pattern selects from a dataset. -/
def Selects (p : Pattern) (M : Dataset) (s : Statement) : Prop :=
  ∃ A, M[s.triple]? = some A ∧ p.accepts s.triple ∧ p.contexts.restrict A = some s.contexts

/-- The statements that a pattern selects, in some order, and each triple once. -/
structure Answers (p : Pattern) (M : Dataset) (found : List Statement) : Prop where
  nodup : (found.map (·.triple)).Nodup
  mem : ∀ s, s ∈ found ↔ p.Selects M s

/-- The statements that hold, as far as the pattern lets them through, united triple by triple, in
some order. -/
structure AnswersFrom (p : Pattern) (H : Statement → Prop) (found : List Statement) : Prop where
  nodup : (found.map (·.triple)).Nodup
  mem : ∀ s, s ∈ found ↔ s.Unites fun u => ∃ x, H x ∧ p.restrict x = some u

/-! ## Collecting -/

theorem triples_addFound :
    (addFound found s).map (·.triple) =
      if s.triple ∈ found.map (·.triple) then found.map (·.triple)
      else found.map (·.triple) ++ [s.triple] := by
  induction found with
  | nil => simp [addFound]
  | cons t rest ih =>
    simp only [addFound]
    split
    · simp [*]
    · simp only [List.map_cons, ih, List.mem_cons]
      grind

theorem nodup_addFound (h : (found.map (·.triple)).Nodup) :
    ((addFound found s).map (·.triple)).Nodup := by
  rw [triples_addFound]
  split
  · exact h
  · rename_i hnew
    exact List.nodup_append.2 ⟨h, List.nodup_singleton _, by grind⟩

theorem exists_addFound_triple {t : Triple} :
    (∃ u ∈ addFound found s, u.triple = t) ↔ (∃ u ∈ found, u.triple = t) ∨ s.triple = t := by
  rw [← List.mem_map, ← List.mem_map, triples_addFound]
  split
  · rename_i hthere
    refine ⟨.inl, ?_⟩
    rintro (h | rfl)
    · exact h
    · exact hthere
  · rw [List.mem_append, List.mem_singleton, eq_comm (a := t)]

theorem exists_addFound_context {t : Triple} {c : Uri} :
    (∃ u ∈ addFound found s, u.triple = t ∧ c ∈ u.contexts) ↔
      (∃ u ∈ found, u.triple = t ∧ c ∈ u.contexts) ∨ s.triple = t ∧ c ∈ s.contexts := by
  induction found with
  | nil => simp [addFound]
  | cons x rest ih =>
    simp only [addFound]
    split
    · rename_i heq
      simp only [List.exists_mem_cons_iff, heq, Std.ExtTreeSet.mem_union_iff, and_or_left, or_assoc]
      exact or_congr_right or_comm
    · simp only [List.exists_mem_cons_iff, ih, or_assoc]

/-- Adding statements one by one unites them. -/
theorem unites_foldl_addFound (statements : List Statement) :
    s.Unites (· ∈ statements.foldl addFound found) ↔ s.Unites (· ∈ found ++ statements) := by
  induction statements generalizing found with
  | nil => simp
  | cons x rest ih =>
    rw [List.foldl_cons, ih]
    simp only [Statement.unites_iff, List.mem_append, List.mem_cons, or_and_right, exists_or,
      exists_addFound_triple, exists_addFound_context, exists_eq_left, or_assoc]

theorem nodup_foldl_addFound (statements : List Statement) (h : (found.map (·.triple)).Nodup) :
    ((statements.foldl addFound found).map (·.triple)).Nodup := by
  induction statements generalizing found with
  | nil => exact h
  | cons x rest ih => exact ih (nodup_addFound h)

theorem restrict_eq_some :
    p.restrict u = some s ↔ u.triple = s.triple ∧ p.accepts s.triple ∧
      p.contexts.restrict u.contexts = some s.contexts := by
  obtain ⟨t, C⟩ := s
  simp only [restrict, Option.ite_none_right_eq_some, Option.map_eq_some_iff, Statement.mk.injEq]
  constructor
  · rintro ⟨haccepts, A, hrestrict, rfl, rfl⟩
    exact ⟨rfl, haccepts, hrestrict⟩
  · rintro ⟨rfl, haccepts, hrestrict⟩
    exact ⟨haccepts, C, hrestrict, rfl, rfl⟩

/-- What a pattern lets through of the statements that hold, united. -/
theorem unites_restrict :
    s.Unites (fun u => ∃ x, H x ∧ p.restrict x = some u) ↔ p.accepts s.triple ∧
      (∃ x, H x ∧ x.triple = s.triple ∧ ∃ kept, p.contexts.restrict x.contexts = some kept) ∧
      ∀ c, c ∈ s.contexts ↔ ∃ x, H x ∧ x.triple = s.triple ∧
        ∃ kept, p.contexts.restrict x.contexts = some kept ∧ c ∈ kept := by
  have hlet : ∀ Q : UriSet → Prop,
      (∃ u, (∃ x, H x ∧ p.restrict x = some u) ∧ u.triple = s.triple ∧ Q u.contexts) ↔
        p.accepts s.triple ∧ ∃ x, H x ∧ x.triple = s.triple ∧
          ∃ kept, p.contexts.restrict x.contexts = some kept ∧ Q kept := by
    intro Q
    simp only [restrict_eq_some]
    constructor
    · rintro ⟨u, ⟨x, hx, heq, haccepts, hrestrict⟩, hu, hq⟩
      exact ⟨hu ▸ haccepts, x, hx, heq.trans hu, _, hrestrict, hq⟩
    · rintro ⟨haccepts, x, hx, heq, kept, hrestrict, hq⟩
      exact ⟨⟨s.triple, kept⟩, ⟨x, hx, heq, haccepts, hrestrict⟩, rfl, hq⟩
  have hmem := hlet fun _ => True
  simp only [and_true] at hmem
  have hcontexts : ∀ c, (∃ u, (∃ x, H x ∧ p.restrict x = some u) ∧ u.triple = s.triple ∧
      c ∈ u.contexts) ↔ _ := fun c => hlet (c ∈ ·)
  rw [Statement.unites_iff, hmem]
  simp only [hcontexts]
  constructor
  · rintro ⟨⟨haccepts, hx⟩, hcontexts⟩
    exact ⟨haccepts, hx, fun c => by simp only [hcontexts, haccepts, true_and]⟩
  · rintro ⟨haccepts, hx, hcontexts⟩
    exact ⟨⟨haccepts, hx⟩, fun c => by simp only [hcontexts, haccepts, true_and]⟩

/-- Where no filter asks for the default graph, the parts of a triple are let through as the whole.
-/
theorem unites_restrict_iff (hdefault : ∀ wanted, p.contexts = .among wanted → .default ∉ wanted)
    (hunited : ∀ x, H x → ∃ A, Statement.Unites H ⟨x.triple, A⟩) :
    s.Unites (fun u => ∃ x, H x ∧ p.restrict x = some u) ↔
      ∃ A, Statement.Unites H ⟨s.triple, A⟩ ∧ p.accepts s.triple ∧
        p.contexts.restrict A = some s.contexts := by
  rw [unites_restrict]
  have hA : ∀ {A : UriSet}, Statement.Unites H ⟨s.triple, A⟩ → ∀ {Q : Prop} (c : Uri),
      (∃ x, H x ∧ x.triple = s.triple ∧ c ∈ x.contexts ∧ Q) ↔ c ∈ A ∧ Q := by
    intro A hA Q c
    rw [hA.contexts c]
    simp only [← and_assoc, exists_and_right]
  cases hfilter : p.contexts with
  | any =>
    simp only [ContextFilter.restrict, Option.some.injEq, exists_eq', and_true, exists_eq_left']
    constructor
    · rintro ⟨haccepts, hmem, hcontexts⟩
      exact ⟨_, ⟨hmem, hcontexts⟩, haccepts, rfl⟩
    · rintro ⟨_, ⟨hmem, hcontexts⟩, haccepts, rfl⟩
      exact ⟨haccepts, hmem, hcontexts⟩
  | among wanted =>
    have hdefault := hdefault _ hfilter
    simp only [ContextFilter.exists_restrict_named hdefault]
    constructor
    · rintro ⟨haccepts, ⟨x, hx, heq, kept, hkept⟩, hcontexts⟩
      obtain ⟨A, hunion⟩ := hunited x hx
      rw [heq] at hunion
      obtain ⟨⟨c, hc⟩, hmem⟩ := (ContextFilter.restrict_named hdefault).1 hkept
      have hthere := (hcontexts c).2 ⟨x, hx, heq, (hmem c).1 hc⟩
      exact ⟨A, hunion, haccepts, (ContextFilter.restrict_named hdefault).2
        ⟨⟨c, hthere⟩, fun c => (hcontexts c).trans (hA hunion c)⟩⟩
    · rintro ⟨A, hunion, haccepts, hrestrict⟩
      obtain ⟨⟨c, hc⟩, hmem⟩ := (ContextFilter.restrict_named hdefault).1 hrestrict
      obtain ⟨x, hx, heq, hpart⟩ := (hA hunion c).2 ((hmem c).1 hc)
      obtain ⟨kept, hkept, -⟩ := (ContextFilter.exists_restrict_named hdefault).2 hpart
      exact ⟨haccepts, ⟨x, hx, heq, kept, hkept⟩, fun c => (hmem c).trans (hA hunion c).symm⟩

/-- From statements that hold, among them all that matter, a pattern collects what it lets through.
-/
theorem collect_answersFrom (hfound : ∀ s ∈ found, H s)
    (hall : ∀ s, H s → p.accepts s.triple → (p.contexts.restrict s.contexts).isSome → s ∈ found) :
    p.AnswersFrom H (p.collect found) := by
  have hnodup : ((p.collect found).map (·.triple)).Nodup := nodup_foldl_addFound _ List.nodup_nil
  have hsame : ∀ u, u ∈ found.filterMap p.restrict ↔ ∃ x, H x ∧ p.restrict x = some u := by
    intro u
    rw [List.mem_filterMap]
    constructor
    · rintro ⟨x, hx, hrestrict⟩
      exact ⟨x, hfound x hx, hrestrict⟩
    · rintro ⟨x, hx, hrestrict⟩
      obtain ⟨heq, haccepts, hcontexts⟩ := restrict_eq_some.1 hrestrict
      exact ⟨x, hall x hx (heq ▸ haccepts) (by rw [hcontexts]; rfl), hrestrict⟩
  have hagree := List.inj_on_of_nodup_map hnodup
  refine ⟨hnodup, fun s => ?_⟩
  calc s ∈ p.collect found
    _ ↔ s.Unites (· ∈ p.collect found) :=
      (Statement.unites_of_agree fun _ _ ht hu heq => hagree ht hu heq).symm
    _ ↔ s.Unites (· ∈ found.filterMap p.restrict) := unites_foldl_addFound _
    _ ↔ s.Unites fun u => ∃ x, H x ∧ p.restrict x = some u := by simp only [hsame]

/-- The entries of a dataset agree on every triple, so a pattern selects from them. -/
theorem AnswersFrom.answers (h : p.AnswersFrom M.Holds found) : p.Answers M found := by
  refine ⟨h.nodup, fun s => ?_⟩
  rw [h.mem, Statement.unites_of_agree]
  · simp only [restrict_eq_some, Selects]
    constructor
    · rintro ⟨x, hx, heq, hselects⟩
      exact ⟨x.contexts, heq ▸ hx, hselects⟩
    · rintro ⟨A, hA, hselects⟩
      exact ⟨⟨s.triple, A⟩, hA, rfl, hselects⟩
  · rintro ⟨t, B⟩ ⟨u, C⟩ ⟨x, hx, hB⟩ ⟨y, hy, hC⟩ rfl
    obtain ⟨hxt, -, hB⟩ := restrict_eq_some.1 hB
    obtain ⟨hyt, -, hC⟩ := restrict_eq_some.1 hC
    obtain rfl : y = x := hx.eq (hxt.trans hyt.symm) hy
    cases hB.symm.trans hC
    rfl

/-! ## Following a path -/

/-- A filter for named graphs lets a triple through only if it is in one of them. -/
theorem exists_wantedGraph (hscans : p.scansContexts e.policy) {graphs : UriSet}
    (h : (p.contexts.restrict graphs).isSome) : ∃ c ∈ p.wantedGraphs, c ∈ graphs := by
  unfold scansContexts at hscans
  unfold wantedGraphs
  cases hcontexts : p.contexts with
  | any =>
    rw [hcontexts] at hscans
    cases hscans
  | among wanted =>
    simp only [hcontexts, Bool.and_eq_true] at hscans h
    obtain ⟨kept, hkept⟩ := Option.isSome_iff_exists.1 h
    rcases ContextFilter.restrict_among.1 hkept with ⟨-, hdefault, -⟩ | ⟨hne, hmem⟩
    · have hnamed := set_all_iff.1 hscans.2 _ hdefault
      simp [Context.isDefault] at hnamed
    · rw [← Bool.not_eq_true, Dataset.isEmpty_iff_forall, not_forall_not] at hne
      obtain ⟨c, hc⟩ := hne
      obtain ⟨hgraph, hwanted⟩ := (hmem c).1 hc
      exact ⟨c, List.mem_filterMap.2 ⟨_, Std.ExtTreeSet.mem_toList.2 hwanted, rfl⟩, hgraph⟩

/-- The reading lists statements that hold, among them all that the pattern lets through. -/
def Covers (p : Pattern) (H : Statement → Prop) (reading : Except Error (List Statement)) : Prop :=
  ∃ found, reading = .ok found ∧ (∀ s ∈ found, H s) ∧
    ∀ s, H s → p.accepts s.triple → (p.contexts.restrict s.contexts).isSome → s ∈ found

theorem covers_of_lists {reading : Except Error (List Statement)} {Q : Statement → Prop}
    (h : Lists reading fun s => H s ∧ Q s)
    (hQ : ∀ s, H s → p.accepts s.triple → (p.contexts.restrict s.contexts).isSome → Q s) :
    p.Covers H reading := by
  obtain ⟨found, hfound, hmem⟩ := h
  exact ⟨found, hfound, fun s hs => ((hmem s).1 hs).1,
    fun s hs haccepts hrestrict => (hmem s).2 ⟨hs, hQ s hs haccepts hrestrict⟩⟩

theorem accepts_iff {t : Triple} :
    p.accepts t ↔ (∀ r ∈ p.subject, r = t.subject) ∧ (∀ u ∈ p.predicate, u = t.predicate) ∧
      ∀ o ∈ p.object, o = t.object := by
  simp [accepts, Option.all_eq_true, and_assoc]

/-- The pattern binds its subject or its object. -/
def Bound (p : Pattern) : Prop := p.subject.isSome ∨ p.object.isSome

theorem Bound.normalize (h : p.Bound) : (p.normalize e).Bound := by
  unfold Pattern.normalize
  split
  · exact .inr rfl
  · exact h

theorem Bound.plan_ok (h : p.Bound) (policy : Policy) : ∃ path, p.plan policy = .ok path := by
  have haccess : ∃ path, p.accessPath? policy = some path := by
    obtain ⟨subject, predicate, object, contexts⟩ := p
    rcases subject with _ | s
    · rcases object with _ | (r | l)
      · simp [Bound] at h
      · exact ⟨_, rfl⟩
      · exact ⟨_, rfl⟩
    · rcases predicate with _ | u <;> rcases object with _ | o <;> exact ⟨_, rfl⟩
  obtain ⟨path, hpath⟩ := haccess
  exact ⟨path, by simp only [plan, hpath]⟩

theorem accessPath_of_plan {path : AccessPath} (h : p.plan e.policy = .ok path) :
    p.accessPath? e.policy = some path := by
  unfold plan at h
  split at h
  · rename_i other hother
    cases h
    exact hother
  · cases h

section Readable

variable {F : Facts Part} {P : Placement Part} {r : Resource} {l : Literal}
  (hv : e.vocabulary.Valid) (hF : Legible e.vocabulary F) (hg : g.Shows P F)

include hv hF hg

theorem covers_subject (h : p.subject = some r) :
    p.Covers (fun y => ∃ σ, Reads e.vocabulary F σ y)
      (match p.subject.bind (e.view g).vertexFor with
        | some v => (e.view g).statementsFrom v p.predicate
        | none => .ok []) := by
  rw [h, Option.bind_some]
  by_cases hr : .vertex (.resource r) ∈ F
  · rw [Encoder.vertexFor_ok hF hg hr]
    refine covers_of_lists (Encoder.statementsFrom_lists hv hF hg hr p.predicate) ?_
    rintro s - haccepts -
    obtain ⟨hsubject, hpredicate, -⟩ := accepts_iff.1 haccepts
    exact ⟨hpredicate, (hsubject r h).symm⟩
  · rw [Encoder.vertexFor_eq_none hv hF hg hr]
    refine covers_of_lists (Q := fun _ => False) (Lists.nil (by simp)) ?_
    rintro s ⟨σ, hs⟩ haccepts -
    rw [(accepts_iff.1 haccepts).1 r h] at hr
    exact hr (hs.subject_mem hF)

theorem covers_object (h : p.object = some (.resource r)) :
    p.Covers (fun y => ∃ σ, Reads e.vocabulary F σ y)
      (match (p.object.bind Value.resource?).bind (e.view g).vertexFor with
        | some v => (e.view g).statementsTo v p.predicate
        | none => .ok []) := by
  rw [h]
  simp only [Option.bind_some, Value.resource?]
  by_cases hr : .vertex (.resource r) ∈ F
  · rw [Encoder.vertexFor_ok hF hg hr]
    refine covers_of_lists (Encoder.statementsTo_lists hv hF hg hr p.predicate) ?_
    rintro s - haccepts -
    obtain ⟨-, hpredicate, hobject⟩ := accepts_iff.1 haccepts
    exact ⟨hpredicate, (hobject _ h).symm⟩
  · rw [Encoder.vertexFor_eq_none hv hF hg hr]
    refine covers_of_lists (Q := fun _ => False) (Lists.nil (by simp)) ?_
    rintro s ⟨σ, hs⟩ haccepts -
    exact hr (hs.object_mem hF ((accepts_iff.1 haccepts).2.2 _ h).symm)

theorem covers_literal (h : p.object = some (.literal l)) :
    p.Covers (fun y => ∃ σ, Reads e.vocabulary F σ y)
      (match p.object.bind Value.literal? with
        | some l => (e.view g).statementsOfLiteral l
        | none => .ok []) := by
  rw [h]
  refine covers_of_lists (Encoder.statementsOfLiteral_lists hv hF hg l) ?_
  rintro s - haccepts -
  exact ((accepts_iff.1 haccepts).2.2 _ h).symm

/-- From a subject or an object a path leads to what can be read, and to all that the pattern lets
through of it. -/
theorem Bound.follow_covers (h : p.Bound) {path : AccessPath}
    (hpath : p.accessPath? e.policy = some path) :
    p.Covers (fun y => ∃ σ, Reads e.vocabulary F σ y) (p.follow (e.view g) path) := by
  unfold accessPath? at hpath
  split at hpath
  · rename_i r u o hsubject hpredicate hobject
    cases hpath
    exact covers_subject hv hF hg hsubject
  · rename_i r u hsubject hpredicate hobject
    cases hpath
    exact covers_subject hv hF hg hsubject
  · rename_i r o hsubject hpredicate hobject
    cases hpath
    exact covers_subject hv hF hg hsubject
  · rename_i r hsubject hpredicate hobject
    cases hpath
    exact covers_subject hv hF hg hsubject
  · rename_i r hsubject hobject
    cases hpath
    exact covers_object hv hF hg hobject
  · rename_i l hsubject hobject
    cases hpath
    exact covers_literal hv hF hg hobject
  · rename_i hsubject hobject
    simp [Bound, hsubject, hobject] at h

/-- A pattern with a subject or an object is answered from what can be read. -/
theorem Bound.resolve_ok (h : p.Bound) :
    ∃ found, p.resolve e g = .ok found ∧
      (p.normalize e).AnswersFrom (fun y => ∃ σ, Reads e.vocabulary F σ y) found := by
  obtain ⟨path, hpath⟩ := (h.normalize (e := e)).plan_ok e.policy
  obtain ⟨found, hfound, hholds, hall⟩ :=
    h.normalize.follow_covers hv hF hg (accessPath_of_plan hpath)
  refine ⟨(p.normalize e).collect found, ?_, collect_answersFrom hholds hall⟩
  simp only [resolve, hpath, hfound]
  rfl

end Readable

section Shown

variable {P : Placement Part} (hv : e.vocabulary.Valid) (hg : g.Shows P (e.imageWith M ∅))

include hv hg

theorem covers_context (h : p.scansContexts e.policy) :
    p.Covers M.Holds
      (do return (← p.wantedGraphs.mapM (e.view g).statementsOfContext).flatten) := by
  have hfinds : e.policy.findsByContext := by
    unfold scansContexts at h
    split at h
    · cases h
    · simp only [Bool.and_eq_true] at h
      exact h.1.1
  have hlists := Lists.flatMapM (f := (e.view g).statementsOfContext)
    fun c (_ : c ∈ p.wantedGraphs) => Encoder.statementsOfContext_lists hv hg hfinds c
  refine covers_of_lists (Q := fun s => ∃ c ∈ p.wantedGraphs, c ∈ s.contexts)
    (hlists.congr fun s => by tauto) ?_
  rintro s - - hrestrict
  exact exists_wantedGraph h hrestrict

/-- A path that was planned leads to stored statements, and to all that the pattern selects from. -/
theorem follow_covers {path : AccessPath} (hpath : p.accessPath? e.policy = some path) :
    p.Covers M.Holds (p.follow (e.view g) path) := by
  by_cases hbound : p.Bound
  · have hsame : (fun y => ∃ σ, Reads e.vocabulary (e.imageWith M ∅) σ y) = M.Holds := by
      funext y
      simp only [Encoder.reads_imageWith hv, exists_and_left, exists_eq, and_true]
    rw [← hsame]
    exact hbound.follow_covers hv (Encoder.legible_imageWith hv) hg hpath
  · obtain ⟨subject, predicate, object, contexts⟩ := p
    cases subject with
    | some s => exact absurd (.inl rfl) hbound
    | none =>
      cases object with
      | some o => exact absurd (.inr rfl) hbound
      | none =>
        simp only [accessPath?, Option.ite_none_right_eq_some] at hpath
        obtain ⟨hscans, hpath⟩ := hpath
        cases hpath
        exact covers_context hv hg hscans

/-- A pattern that can be planned is answered. -/
theorem resolve_ok {path : AccessPath} (hpath : (p.normalize e).plan e.policy = .ok path) :
    ∃ found, p.resolve e g = .ok found ∧ (p.normalize e).Answers M found := by
  obtain ⟨found, hfound, hholds, hall⟩ := follow_covers hv hg (accessPath_of_plan hpath)
  refine ⟨(p.normalize e).collect found, ?_, (collect_answersFrom hholds hall).answers⟩
  simp only [resolve, hpath, hfound]
  rfl

end Shown

/-- A pattern that cannot be planned is refused. -/
theorem resolve_error {cause : QueryError} (h : (p.normalize e).plan e.policy = .error cause) :
    p.resolve e g = .error (.query cause) := by
  simp only [resolve, h]
  rfl

end Pattern

end QuadStore
