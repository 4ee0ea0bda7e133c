import Mathlib
import QuadStore.Proofs.Store.Writes
/-!
# What some statements say together

Statements are merged triple by triple: a triple is in the named graphs of all the statements that
have it, whatever their order and however they are split up.
-/

namespace QuadStore

variable {e e' : Encoder} {statements : List Statement} {M : Dataset} {t : Triple} {A : UriSet}

/-- Some statements have the triple, as the encoder stores it, and these are the named graphs that
they name together. -/
structure Merges (e : Encoder) (statements : List Statement) (t : Triple) (A : UriSet) : Prop where
  mem : ∃ s ∈ statements, e.classifyTriple s.triple = t
  contexts : ∀ c, c ∈ A ↔ ∃ s ∈ statements, e.classifyTriple s.triple = t ∧ c ∈ s.contexts

/-- Only the schema tells how a triple is stored. -/
theorem Encoder.classifyTriple_of_schema (h : e.schema = e'.schema) :
    e.classifyTriple = e'.classifyTriple := by
  obtain ⟨_, _, schema, _⟩ := e
  obtain ⟨_, _, schema', _⟩ := e'
  cases h
  rfl

theorem Merges.of_schema (h : e.schema = e'.schema) :
    Merges e statements t A ↔ Merges e' statements t A := by
  constructor
  · rintro ⟨hmem, hcontexts⟩
    rw [Encoder.classifyTriple_of_schema h] at hmem hcontexts
    exact ⟨hmem, hcontexts⟩
  · rintro ⟨hmem, hcontexts⟩
    rw [← Encoder.classifyTriple_of_schema h] at hmem hcontexts
    exact ⟨hmem, hcontexts⟩

/-- Sets of named graphs that are named by finitely many things have a union. -/
theorem exists_union {α : Type} (l : List α) (Q : α → Prop) (graphs : α → UriSet) :
    ∃ A : UriSet, ∀ c, c ∈ A ↔ ∃ x ∈ l, Q x ∧ c ∈ graphs x := by
  induction l with
  | nil => exact ⟨∅, by simp⟩
  | cons x rest ih =>
    obtain ⟨A, hA⟩ := ih
    by_cases hx : Q x
    · exact ⟨graphs x ∪ A, fun c => by simp [hA, hx]⟩
    · exact ⟨A, fun c => by simp [hA, hx]⟩

/-- The statements that have a triple name some graphs together. -/
theorem exists_merges (h : ∃ s ∈ statements, e.classifyTriple s.triple = t) :
    ∃ A, Merges e statements t A := by
  obtain ⟨A, hA⟩ := exists_union statements (e.classifyTriple ·.triple = t) Statement.contexts
  exact ⟨A, h, hA⟩

namespace Dataset

/-- What some statements make together. -/
def ofStatements (e : Encoder) (statements : List Statement) : Dataset :=
  statements.foldl (assert e) ∅

theorem getElem?_foldl_assert :
    (statements.foldl (assert e) M)[t]? = some A ↔
      ((∃ B, M[t]? = some B) ∨ ∃ s ∈ statements, e.classifyTriple s.triple = t) ∧
        ∀ c, c ∈ A ↔ (∃ B, M[t]? = some B ∧ c ∈ B) ∨
          ∃ s ∈ statements, e.classifyTriple s.triple = t ∧ c ∈ s.contexts := by
  induction statements generalizing M with
  | nil =>
    cases hM : M[t]? with
    | none => simp [hM]
    | some B =>
      simp only [List.foldl_nil, hM, Option.some.injEq, exists_eq', List.not_mem_nil, false_and,
        exists_false, or_false, true_and, exists_eq_left']
      constructor
      · rintro rfl
        exact fun _ => Iff.rfl
      · intro h
        ext c
        exact (h c).symm
  | cons s rest ih =>
    rw [List.foldl_cons, ih]
    simp only [assert, getElem?_add, List.mem_cons, exists_eq_or_imp]
    by_cases heq : e.classifyTriple s.triple = t
    · simp only [heq, if_true, Option.some.injEq, exists_eq', true_or, or_true, true_and,
        exists_eq_left', Std.ExtTreeSet.mem_union_iff]
      refine forall_congr' fun c => iff_congr Iff.rfl ?_
      rw [or_assoc]
      refine or_congr ?_ Iff.rfl
      cases M[t]? <;> simp
    · simp only [heq, if_false, false_and, false_or]

theorem ofStatements_eq_some_iff : (ofStatements e statements)[t]? = some A ↔
    Merges e statements t A := by
  rw [ofStatements, getElem?_foldl_assert]
  simp only [Std.ExtTreeMap.getElem?_empty, reduceCtorEq, exists_false, false_and, false_or]
  exact ⟨fun h => ⟨h.1, h.2⟩, fun h => ⟨h.mem, h.contexts⟩⟩

theorem eq_ofStatements (h : ∀ t A, M[t]? = some A ↔ Merges e statements t A) :
    M = ofStatements e statements := by
  apply Std.ExtTreeMap.ext_getElem?
  intro t
  apply Option.ext
  intro A
  rw [h, ofStatements_eq_some_iff]

/-- Statements that say the same make the same dataset. -/
theorem ofStatements_congr {others : List Statement}
    (h : ∀ t A, Merges e statements t A ↔ Merges e' others t A) :
    ofStatements e statements = ofStatements e' others :=
  eq_ofStatements fun t A => ofStatements_eq_some_iff.trans (h t A)

/-- The entries of a dataset as statements. -/
def entries (M : Dataset) : List Statement := M.toList.map fun x => ⟨x.1, x.2⟩

theorem mem_entries {s : Statement} : s ∈ M.entries ↔ M[s.triple]? = some s.contexts := by
  simp only [entries, List.mem_map, Prod.exists]
  constructor
  · rintro ⟨t, A, hmem, rfl⟩
    exact Std.ExtTreeMap.mem_toList_iff_getElem?_eq_some.1 hmem
  · intro h
    exact ⟨_, _, Std.ExtTreeMap.mem_toList_iff_getElem?_eq_some.2 h, rfl⟩

theorem nodup_entries : M.entries.Nodup := by
  refine List.pairwise_map.2 ((Std.ExtTreeMap.distinct_keys_toList (t := M)).imp fun hne heq => ?_)
  exact hne (Std.LawfulEqOrd.compare_eq_iff_eq.2 (congrArg Statement.triple heq))

end Dataset

end QuadStore
