import Mathlib
import QuadStore.CommandLine.Execution
import QuadStore.Proofs.Quads.Output
import QuadStore.Proofs.Statement.Json
import QuadStore.Proofs.Store.Content
import QuadStore.Proofs.Store.Reading
/-!
# Exporting a file

An export reads the store back subject by subject. Together the subjects tell all that the
statements of the file say, so what is printed does not depend on how they are laid out or split up.
-/

namespace QuadStore

namespace Config

/-- The encoder that a valid configuration gives. -/
def encoder (c : Config) : Encoder := ⟨c.encoding, c.vocabulary, c.schema.declared?, c.fulltext⟩

theorem encoder_of_valid {c : Config} (h : c.validate = .ok ()) :
    Encoder.ofConfig c = .ok c.encoder := by
  simp only [Encoder.ofConfig, h, bind, Except.bind]
  rfl

end Config

namespace CommandLine

variable {files : Files} {arguments : List String} {c : Config} {statements : List Statement}
  {s : Store} {M : Dataset}

/-! ## The store of a file -/

/-- A valid configuration gives a store that keeps what the statements make together. -/
theorem storeOf_ok (hc : c.validate = .ok ()) (statements : List Statement) :
    ∃ s, storeOf c statements = .ok s ∧ s.encoder = c.encoder ∧
      s.Keeps (Dataset.ofStatements c.encoder statements) := by
  have hopen : Store.ofConfig c = .ok { encoder := c.encoder } := by
    simp only [Store.ofConfig, Config.encoder_of_valid hc, bind, Except.bind]
    rfl
  have hfresh : Store.Fresh { encoder := c.encoder } := .ofConfig hopen
  obtain ⟨report, s, hadd, hencoder, hs⟩ := Store.addAll_ok statements hfresh.valid hfresh.stores
  have hclassified : (Dataset.ofStatements c.encoder statements).Classified c.encoder :=
    hfresh.keeps.classified.meaning (.addAll statements)
  refine ⟨s, ?_, hencoder, ⟨hencoder ▸ hfresh.valid, hencoder ▸ hs, hencoder ▸ hclassified⟩⟩
  simp only [storeOf, hopen, hadd, Except.mapError, bind, Except.bind]
  rfl

/-- Statements are read from a file that they were written to. -/
theorem statementsIn_render {path : String}
    (h : files path = some (Json.array (statements.map Statement.toJson)).render) :
    statementsIn files path = .ok statements := by
  simp only [statementsIn, h, Statement.listOfText,
    Json.parse?_render (Statement.inverts.list.plain statements), Json.required, bind, Except.bind,
    Statement.inverts.list.read_write statements]
  rfl

/-! ## Reading by subject -/

/-- What is stored about a subject is what the dataset has about it. -/
theorem find_subject (h : s.Keeps M) (r : Resource) :
    ∃ found, s.find { subject := some r } = .ok found ∧ found.Nodup ∧
      ∀ x, x ∈ found ↔ M[x.triple]? = some x.contexts ∧ x.subject = r := by
  have hplan : (({ subject := some r } : Pattern).normalize s.encoder).plan s.encoder.policy =
      .ok .subject := rfl
  obtain ⟨found, hfound, hanswers⟩ := h.find_ok hplan
  refine ⟨found, hfound, hanswers.nodup.of_map, fun x => (hanswers.mem x).trans ?_⟩
  constructor
  · rintro ⟨A, hA, haccepts, hrestrict⟩
    cases hrestrict
    exact ⟨hA, ((Pattern.accepts_iff.1 haccepts).1 r rfl).symm⟩
  · rintro ⟨hA, rfl⟩
    refine ⟨x.contexts, hA, ?_, rfl⟩
    rw [Pattern.accepts_iff]
    simp [Pattern.normalize, Statement.subject]

theorem aboutSubjects_ok (h : s.Keeps M) {subjects : List Resource} (hnodup : subjects.Nodup) :
    ∃ stored, aboutSubjects s subjects = .ok stored ∧ stored.Nodup ∧
      ∀ x, x ∈ stored ↔ M[x.triple]? = some x.contexts ∧ x.subject ∈ subjects := by
  induction subjects with
  | nil => exact ⟨[], rfl, List.nodup_nil, by simp⟩
  | cons r rest ih =>
    rw [List.nodup_cons] at hnodup
    obtain ⟨found, hfound, hnodupFound, hmem⟩ := find_subject h r
    obtain ⟨stored, hstored, hnodupStored, hmem'⟩ := ih hnodup.2
    refine ⟨found ++ stored, ?_, List.nodup_append.2 ⟨hnodupFound, hnodupStored, ?_⟩, fun x => ?_⟩
    · unfold aboutSubjects at hstored ⊢
      cases hrest : rest.mapM fun r => s.find { subject := some r } with
      | error cause =>
        rw [hrest] at hstored
        cases hstored
      | ok found' =>
        rw [hrest] at hstored
        cases hstored
        rw [List.mapM_cons, hfound, hrest]
        rfl
    · rintro x hx y hy rfl
      exact hnodup.1 (((hmem x).1 hx).2 ▸ ((hmem' x).1 hy).2)
    · rw [List.mem_append, hmem, hmem', List.mem_cons, ← and_or_left]

theorem mem_subjectsOf {r : Resource} :
    r ∈ subjectsOf statements ↔ ∃ x ∈ statements, x.subject = r := by
  simp [subjectsOf]

theorem nodup_subjectsOf : (subjectsOf statements).Nodup :=
  Std.ExtTreeSet.distinct_toList.imp fun hne heq =>
    hne (Std.LawfulEqOrd.compare_eq_iff_eq.2 heq)

/-- The subjects of the statements lead to everything that they make together. -/
theorem aboutSubjects_perm (h : s.Keeps (Dataset.ofStatements c.encoder statements)) :
    ∃ stored, aboutSubjects s (subjectsOf statements) = .ok stored ∧
      stored.Perm (Dataset.ofStatements c.encoder statements).entries := by
  obtain ⟨stored, hstored, hnodup, hmem⟩ := aboutSubjects_ok h nodup_subjectsOf
  refine ⟨stored, hstored, (List.perm_ext_iff_of_nodup hnodup Dataset.nodup_entries).2 fun x => ?_⟩
  rw [hmem, Dataset.mem_entries]
  refine and_iff_left_of_imp fun hx => ?_
  obtain ⟨y, hy, heq⟩ := (Dataset.ofStatements_eq_some_iff.1 hx).mem
  have hsubject : (c.encoder.classifyTriple y.triple).subject = x.subject :=
    congrArg Triple.subject heq
  exact mem_subjectsOf.2 ⟨y, hy, hsubject⟩

/-! ## Runs -/

/-- The command line asks to export these statements, with this valid configuration. -/
structure Exports (files : Files) (arguments : List String) (c : Config)
    (statements : List Statement) : Prop where
  asked : ∃ r, Request.ofArguments arguments = .ok r ∧ r.command = .quads ∧
    settle files r = .ok c ∧ statementsIn files r.file = .ok statements
  valid : c.validate = .ok ()

theorem Exports.run_eq (h : Exports files arguments c statements) :
    ∃ s, s.Keeps (Dataset.ofStatements c.encoder statements) ∧
      run files arguments = Command.run s statements .quads := by
  obtain ⟨r, hr, hcommand, hc, hstatements⟩ := h.asked
  obtain ⟨s, hs, -, hkeeps⟩ := storeOf_ok h.valid statements
  refine ⟨s, hkeeps, ?_⟩
  simp only [run, hr, Request.run, hc, hstatements, hs, Except.mapError, bind, Except.bind, pure,
    Except.pure, hcommand]

/-- The lines that are printed are the lines of the quads that the statements make together. -/
theorem Exports.run_perm (h : Exports files arguments c statements)
    (haccepts : ∀ t A, Merges c.encoder statements t A → Quads.Accepts ⟨t, A⟩) :
    ∃ output, run files arguments = { code := 0, output } ∧
      (Quads.linesOf output.toList).Perm
        (((Dataset.ofStatements c.encoder statements).entries.flatMap Statement.quads).map
          fun q => (Quads.line q).toList) := by
  obtain ⟨s, hkeeps, hrun⟩ := h.run_eq
  obtain ⟨stored, hstored, hperm⟩ := aboutSubjects_perm hkeeps
  have hall : ∀ x ∈ stored, Quads.Accepts x := fun x hx =>
    haccepts _ _ (Dataset.ofStatements_eq_some_iff.1 (Dataset.mem_entries.1 (hperm.mem_iff.1 hx)))
  refine ⟨Quads.document stored, ?_, ?_⟩
  · simp only [hrun, Command.run, hstored, writeQuads, Quads.writeAll_ok hall, String.empty_append]
  · rw [Quads.document, Quads.linesOf_join]
    exact (hperm.flatMap_right _).map _

/-- An export prints one line for each quad of what the statements of the file make together, in
some order. It prints the same lines for any file that says the same under the same schema, however
the statements are laid out, repeated or split up. -/
theorem Exports.run_merged (h : Exports files arguments c statements)
    (haccepts : ∀ t A, Merges c.encoder statements t A → Quads.Accepts ⟨t, A⟩) :
    ∃ output, run files arguments = { code := 0, output } ∧
      (∃ M : Dataset, (∀ t A, M[t]? = some A ↔ Merges c.encoder statements t A) ∧
        (Quads.linesOf output.toList).Perm
          ((M.entries.flatMap Statement.quads).map fun q => (Quads.line q).toList)) ∧
      ∀ files' arguments' c' statements', Exports files' arguments' c' statements' →
        c'.schema = c.schema →
        (∀ t A, Merges c.encoder statements' t A ↔ Merges c.encoder statements t A) →
        ∃ output', run files' arguments' = { code := 0, output := output' } ∧
          (Quads.linesOf output'.toList).Perm (Quads.linesOf output.toList) := by
  obtain ⟨output, hrun, hperm⟩ := h.run_perm haccepts
  refine ⟨output, hrun, ⟨_, fun t A => Dataset.ofStatements_eq_some_iff, hperm⟩, ?_⟩
  intro files' arguments' c' statements' h' hschema hmerges
  have hsame : c'.encoder.schema = c.encoder.schema := congrArg SchemaConfig.declared? hschema
  have hmerges' : ∀ t A, Merges c'.encoder statements' t A ↔ Merges c.encoder statements t A :=
    fun t A => (Merges.of_schema hsame).trans (hmerges t A)
  obtain ⟨output', hrun', hperm'⟩ := h'.run_perm fun t A hA => haccepts t A ((hmerges' t A).1 hA)
  rw [Dataset.ofStatements_congr hmerges'] at hperm'
  exact ⟨output', hrun', hperm'.trans hperm.symm⟩

/-- One file says of a triple twice that it is in one graph and once that it is in another. The other
file says it once, and is exported from another layout. -/
theorem Exports.run_merged_split :
    let g : Uri := ⟨"a:g", by decide⟩
    let h : Uri := ⟨"a:h", by decide⟩
    let t : Triple := ⟨.uri ⟨"a:s", by decide⟩, ⟨"a:p", by decide⟩, .resource (.uri ⟨"a:o", by decide⟩)⟩
    let u : Triple := ⟨.uri ⟨"a:s", by decide⟩, ⟨"a:p", by decide⟩, .literal (.plain "x")⟩
    let split : List Statement := [⟨t, {g}⟩, ⟨u, ∅⟩, ⟨t, {h}⟩, ⟨t, {g}⟩]
    let merged : List Statement := [⟨t, {g, h}⟩, ⟨u, ∅⟩]
    let files : Files := fun path =>
      some (Json.array ((if path = "split" then split else merged).map Statement.toJson)).render
    let arguments := ["export", "--file", "split"]
    let arguments' := ["--encoding", "dense", "export", "--file", "merged"]
    let lines := ["<a:s> <a:p> <a:o> <a:g> .\n", "<a:s> <a:p> <a:o> <a:h> .\n",
      "<a:s> <a:p> \"x\" .\n"]
    Exports files arguments {} split ∧ Exports files arguments' { encoding := .dense } merged ∧
      (∀ t A, Merges (Config.encoder {}) split t A → Quads.Accepts ⟨t, A⟩) ∧
      (∀ t A, Merges (Config.encoder {}) merged t A ↔ Merges (Config.encoder {}) split t A) ∧
      ∃ output output', run files arguments = { code := 0, output } ∧
        run files arguments' = { code := 0, output := output' } ∧
        (Quads.linesOf output.toList).Perm (lines.map String.toList) ∧
        (Quads.linesOf output'.toList).Perm (Quads.linesOf output.toList) := by
  intro g h t u split merged files arguments arguments' lines
  have hsplit : Exports files arguments {} split :=
    ⟨⟨⟨.quads, "split", none, none⟩, rfl, rfl, rfl, statementsIn_render rfl⟩, rfl⟩
  have hmerged : Exports files arguments' { encoding := .dense } merged :=
    ⟨⟨⟨.quads, "merged", none, some .dense⟩, rfl, rfl, rfl, statementsIn_render rfl⟩, rfl⟩
  have haccepts : ∀ t A, Merges (Config.encoder {}) split t A → Quads.Accepts ⟨t, A⟩ := by
    have hall : ∀ x ∈ (Dataset.ofStatements (Config.encoder {}) split).entries, Quads.Accepts x := by
      decide +kernel +zetaReduce
    exact fun t A hA => hall ⟨t, A⟩ (Dataset.mem_entries.2 (Dataset.ofStatements_eq_some_iff.2 hA))
  have hsame : ∀ t A, Merges (Config.encoder {}) merged t A ↔
      Merges (Config.encoder {}) split t A := by
    have heq : Dataset.ofStatements (Config.encoder {}) merged =
        Dataset.ofStatements (Config.encoder {}) split := by
      decide +kernel +zetaReduce
    intro t A
    rw [← Dataset.ofStatements_eq_some_iff, ← Dataset.ofStatements_eq_some_iff, heq]
  obtain ⟨output, hrun, ⟨M, hM, hlines⟩, hothers⟩ := hsplit.run_merged haccepts
  obtain ⟨output', hrun', hperm⟩ := hothers files arguments' _ merged hmerged rfl hsame
  refine ⟨hsplit, hmerged, haccepts, hsame, output, output', hrun, hrun', ?_, hperm⟩
  have hquads : ((Dataset.ofStatements (Config.encoder {}) split).entries.flatMap
      Statement.quads).map (fun q => (Quads.line q).toList) =
        lines.map String.toList := by
    decide +kernel +zetaReduce
  rw [Dataset.eq_ofStatements hM, hquads] at hlines
  exact hlines

end CommandLine

end QuadStore
