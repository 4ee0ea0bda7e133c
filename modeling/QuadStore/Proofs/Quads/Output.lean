import Mathlib
import QuadStore.Proofs.Quads.Spelling
import QuadStore.Proofs.Sequence
/-!
# Writing quads

Statements whose terms are all accepted are written in order, a line for each of their quads. A
statement with a term that is not accepted stops the writing before any of its own lines.
-/

namespace QuadStore

/-- The quads a statement amounts to: one in each of its graphs, or one in the default graph if it
has none. -/
def Statement.quads (s : Statement) : List Quad :=
  if s.contexts = ∅ then [⟨s.triple, .default⟩]
  else s.contexts.toList.map fun c => ⟨s.triple, .named c⟩

namespace Quads

/-- Each term of the statement is accepted. -/
structure Accepts (s : Statement) : Prop where
  subject : checkResource s.subject = .ok ()
  predicate : checkUri s.predicate = .ok ()
  object : checkValue s.object = .ok ()
  contexts : ∀ c ∈ s.contexts, checkUri c = .ok ()

/-- The lines of some statements. -/
def document (statements : List Statement) : String :=
  String.join ((statements.flatMap Statement.quads).map line)

/-! ## Checks -/

variable {s : Statement} {statements : List Statement}

theorem checkStatement_ok_iff : checkStatement s = .ok () ↔ Accepts s := by
  have hcontexts : s.contexts.toList.forM checkUri = .ok () ↔
      ∀ c ∈ s.contexts, checkUri c = .ok () := by
    simp only [forM_eq_ok, Std.ExtTreeSet.mem_toList]
  rw [show Accepts s ↔ checkUri s.predicate = .ok () ∧ checkValue s.object = .ok () ∧
      s.contexts.toList.forM checkUri = .ok () ∧ checkResource s.subject = .ok () from
    ⟨fun h => ⟨h.predicate, h.object, hcontexts.2 h.contexts, h.subject⟩,
      fun h => ⟨h.2.2.2, h.1, h.2.1, hcontexts.1 h.2.2.1⟩⟩]
  unfold checkStatement
  cases checkUri s.predicate <;> cases checkValue s.object <;>
    cases s.contexts.toList.forM checkUri <;> cases checkResource s.subject <;>
    simp [bind, Except.bind]

instance : Decidable (Accepts s) := decidable_of_iff _ checkStatement_ok_iff

/-- Nothing goes wrong but that a term is not accepted. -/
def OnlyRejects (check : Except ExportError Unit) : Prop :=
  ∀ cause, check = .error cause → ∃ term message, cause = .rejected term message

theorem OnlyRejects.ite {b : Prop} [Decidable b] {term message : String} :
    OnlyRejects (if b then .ok () else .error (.rejected term message)) := by
  intro cause h
  split at h <;> cases h
  exact ⟨_, _, rfl⟩

theorem OnlyRejects.bind {check : Except ExportError Unit} {next : Unit → Except ExportError Unit}
    (h : OnlyRejects check) (hnext : OnlyRejects (next ())) : OnlyRejects (check >>= next) := by
  intro cause hcause
  cases check with
  | error cause' =>
    cases hcause
    exact h _ rfl
  | ok _ => exact hnext cause hcause

theorem onlyRejects_uri (u : Uri) : OnlyRejects (checkUri u) := .ite

theorem onlyRejects_resource (r : Resource) : OnlyRejects (checkResource r) := by
  cases r with
  | uri u => exact .ite
  | blank b => exact .ite

theorem onlyRejects_value (v : Value) : OnlyRejects (checkValue v) := by
  cases v with
  | resource r => exact onlyRejects_resource r
  | literal l =>
    obtain ⟨value, kind⟩ := l
    cases kind with
    | plain => exact fun _ h => by cases h
    | typed datatype => exact .ite
    | tagged language => exact .ite

theorem onlyRejects_forM (graphs : List Uri) : OnlyRejects (graphs.forM checkUri) := by
  induction graphs with
  | nil => exact fun _ h => by cases h
  | cons u graphs ih => exact (onlyRejects_uri u).bind ih

theorem onlyRejects_statement (s : Statement) : OnlyRejects (checkStatement s) :=
  (onlyRejects_uri _).bind ((onlyRejects_value _).bind
    ((onlyRejects_forM _).bind (onlyRejects_resource _)))

theorem ofStatement_ok (h : Accepts s) : ofStatement s = .ok s.quads := by
  have hgraphs : (graphsOf s).map (fun graph => (⟨s.triple, graph⟩ : Quad)) = s.quads := by
    unfold graphsOf Statement.quads
    by_cases hempty : s.contexts = ∅
    · simp [hempty]
    · simp [hempty, Std.ExtTreeSet.isEmpty_iff, Statement.contextList]
  simp only [ofStatement, checkStatement_ok_iff.2 h, hgraphs, bind, Except.bind, pure, Except.pure]

theorem ofStatement_error (h : ¬Accepts s) :
    ∃ term message, ofStatement s = .error (.rejected term message) := by
  cases hcheck : checkStatement s with
  | ok _ => exact absurd (checkStatement_ok_iff.1 hcheck) h
  | error cause =>
    obtain ⟨term, message, rfl⟩ := onlyRejects_statement s cause hcheck
    exact ⟨term, message, by simp only [ofStatement, hcheck, bind, Except.bind]⟩

/-! ## Output -/

variable {text : String}

theorem put_ok (s text : String) : put s { text } = .ok () { text := text ++ s } := rfl

theorem putLines_ok (quads : List Quad) (text : String) :
    (quads.forM fun q => put (line q) : OutputM Unit) { text } =
      .ok () { text := text ++ String.join (quads.map line) } := by
  induction quads generalizing text with
  | nil => simp [pure, EStateM.pure]
  | cons q quads ih =>
    refine (run_bind_ok (put_ok (line q) text)).trans ((ih _).trans ?_)
    rw [List.map_cons, String.join_cons, String.append_assoc]

theorem writeStatement_ok (h : Accepts s) :
    writeStatement s { text } =
      .ok s.quads.length { text := text ++ String.join (s.quads.map line) } := by
  simp only [writeStatement, ofStatement_ok h]
  exact run_bind_ok (putLines_ok s.quads text)

theorem writeStatement_error (h : ¬Accepts s) :
    ∃ term message, writeStatement s { text } = .error (.rejected term message) { text } := by
  obtain ⟨term, message, hquads⟩ := ofStatement_error h
  exact ⟨term, message, by simp only [writeStatement, hquads]⟩

/-- Write statements and count on. -/
def writeFrom (count : Nat) (statements : List Statement) : OutputM Nat :=
  statements.foldlM (fun count s => do return count + (← writeStatement s)) count

theorem writeFrom_cons (count : Nat) (s : Statement) (statements : List Statement) :
    writeFrom count (s :: statements) =
      writeStatement s >>= fun n => writeFrom (count + n) statements := by
  simp only [writeFrom, List.foldlM_cons, bind_assoc, pure_bind]

theorem document_cons : document (s :: statements) =
    String.join (s.quads.map line) ++ document statements := by
  simp [document]

/-- Statements that are accepted are written before the rest, and counted. -/
theorem writeFrom_append {before : List Statement} (after : List Statement)
    (h : ∀ s ∈ before, Accepts s) (count : Nat) :
    writeFrom count (before ++ after) { text } =
      writeFrom (count + (before.flatMap Statement.quads).length) after
        { text := text ++ document before } := by
  induction before generalizing text count with
  | nil => simp [document]
  | cons s before ih =>
    rw [List.forall_mem_cons] at h
    rw [List.cons_append, writeFrom_cons, run_bind_ok (writeStatement_ok h.1), ih h.2]
    simp only [document_cons, List.flatMap_cons, List.length_append, String.append_assoc,
      Nat.add_assoc]

theorem writeAll_ok (h : ∀ s ∈ statements, Accepts s) :
    writeAll statements { text } = .ok (statements.flatMap Statement.quads).length
      { text := text ++ document statements } := by
  have hall : writeFrom 0 (statements ++ []) { text } = _ := writeFrom_append [] h 0
  rw [List.append_nil, Nat.zero_add] at hall
  exact hall

theorem writeAll_error {before after : List Statement} (h : ∀ s ∈ before, Accepts s)
    (hs : ¬Accepts s) :
    ∃ term message, writeAll (before ++ s :: after) { text } =
      .error (.rejected term message) { text := text ++ document before } := by
  obtain ⟨term, message, hwrite⟩ : ∃ term message, writeStatement s { text := text ++ document before } =
      .error (.rejected term message) { text := text ++ document before } := writeStatement_error hs
  refine ⟨term, message, ?_⟩
  change writeFrom 0 (before ++ s :: after) _ = _
  rw [writeFrom_append (s :: after) h, writeFrom_cons]
  exact run_bind_error hwrite

/-! ## Lines and quads -/

theorem length_quads (s : Statement) : s.quads.length = max 1 s.contexts.size := by
  unfold Statement.quads
  by_cases hempty : s.contexts = ∅
  · simp [hempty]
  · have hsize : s.contexts.size ≠ 0 := fun hzero =>
      hempty (Std.ExtTreeSet.eq_empty_iff_size_eq_zero.2 hzero)
    rw [if_neg hempty, List.length_map, Std.ExtTreeSet.length_toList]
    omega

theorem length_flatMap_quads (statements : List Statement) :
    (statements.flatMap Statement.quads).length =
      (statements.map fun s => max 1 s.contexts.size).sum := by
  rw [List.length_flatMap]
  exact congrArg List.sum (List.map_congr_left fun s _ => length_quads s)

/-- The first statement that is not accepted. -/
theorem exists_first_rejected (h : ∃ s ∈ statements, ¬Accepts s) :
    ∃ before s after, statements = before ++ s :: after ∧ (∀ b ∈ before, Accepts b) ∧
      ¬Accepts s := by
  cases hfind : statements.find? fun s => !decide (Accepts s) with
  | none =>
    obtain ⟨s, hs, hrejected⟩ := h
    exact absurd (by simpa using List.find?_eq_none.1 hfind s hs) hrejected
  | some s =>
    obtain ⟨hrejected, before, after, heq, hbefore⟩ := List.find?_eq_some_iff_append.1 hfind
    exact ⟨before, s, after, heq, fun b hb => by simpa using hbefore b hb, by simpa using hrejected⟩

/-- Statements that are all accepted are written as one line for each of their quads, in order, and
the lines tell the quads, up to string datatypes. Of other statements those before the first one
that is not accepted are written. -/
theorem writeAll_faithful (statements : List Statement) (text : String) :
    ((∀ s ∈ statements, Accepts s) →
      writeAll statements { text } =
        .ok (statements.map fun s => max 1 s.contexts.size).sum
          { text := text ++ String.join ((statements.flatMap Statement.quads).map line) } ∧
      (statements.flatMap Statement.quads).length =
        (statements.map fun s => max 1 s.contexts.size).sum ∧
      (∀ q ∈ statements.flatMap Statement.quads,
        ∃ l, (line q).toList = l ++ ['\n'] ∧ ∀ c ∈ l, c ≠ '\n' ∧ c ≠ '\r') ∧
      ∀ others : List Statement, (∀ s ∈ others, Accepts s) → ∀ n out,
        writeAll others { text } = .ok n out →
          (out.text = text ++ String.join ((statements.flatMap Statement.quads).map line) ↔
            (others.flatMap Statement.quads).map Quad.asRead =
              (statements.flatMap Statement.quads).map Quad.asRead)) ∧
    ((∃ s ∈ statements, ¬Accepts s) →
      ∃ before s after term message, statements = before ++ s :: after ∧
        (∀ b ∈ before, Accepts b) ∧ ¬Accepts s ∧
        writeAll statements { text } = .error (.rejected term message)
          { text := text ++ String.join ((before.flatMap Statement.quads).map line) }) := by
  refine ⟨fun h => ⟨?_, length_flatMap_quads statements, fun q _ => line_unbroken q, ?_⟩, fun h => ?_⟩
  · rw [← length_flatMap_quads]
    exact writeAll_ok h
  · intro others hothers n out hwrite
    rw [writeAll_ok hothers] at hwrite
    cases hwrite
    rw [String.append_right_inj]
    exact join_lines_inj
  · obtain ⟨before, s, after, rfl, hbefore, hs⟩ := exists_first_rejected h
    obtain ⟨term, message, hwrite⟩ : ∃ term message, writeAll (before ++ s :: after) { text } =
        .error (.rejected term message) { text := text ++ document before } := writeAll_error hbefore hs
    exact ⟨before, s, after, term, message, rfl, hbefore, hs, hwrite⟩

theorem writeAll_faithful_blank :
    let t : Triple := ⟨.uri ⟨"a:s", by decide⟩, ⟨"a:p", by decide⟩, .literal (.plain "x\n")⟩
    let u : Triple := ⟨.blank ⟨"not/a/label", by decide⟩, ⟨"a:p", by decide⟩, .literal (.plain "y")⟩
    let good : Statement := ⟨t, ∅⟩
    let bad : Statement := ⟨u, ∅⟩
    Accepts good ∧ ¬Accepts bad ∧
      (writeAll [good] {} = .ok 1 { text := "<a:s> <a:p> \"x\\n\" .\n" }) ∧
      ∃ before s after term message, [good, bad] = before ++ s :: after ∧
        (∀ b ∈ before, Accepts b) ∧ ¬Accepts s ∧
        writeAll [good, bad] {} = .error (.rejected term message)
          { text := String.join ((before.flatMap Statement.quads).map line) } := by
  intro t u good bad
  have hgood : Accepts good := by decide
  have hbad : ¬Accepts bad := by decide
  refine ⟨hgood, hbad, ?_, ?_⟩
  · have h := ((writeAll_faithful [good] "").1 (by simpa using hgood)).1
    exact h.trans (congrArg₂ EStateM.Result.ok (by decide) (congrArg (Output.mk · none) (by decide)))
  · have h := (writeAll_faithful [good, bad] "").2 ⟨bad, by simp, hbad⟩
    simpa only [String.empty_append] using h

end Quads

end QuadStore
