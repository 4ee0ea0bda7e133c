import Mathlib
import QuadStore.Proofs.Encoder.Dropping
import QuadStore.Proofs.Sequence
import QuadStore.Store
/-!
# Writing to a store

Whatever is written to a store, its graph is the image of the dataset that the writes lead to.
-/

namespace QuadStore

/-- A way to write statements. -/
inductive Write where
  | add (s : Statement)
  | addAll (statements : List Statement)
  | remove (s : Statement)
deriving DecidableEq

namespace Dataset

/-- Assert a statement, whose object is stored as the encoder has it. -/
def assert (e : Encoder) (M : Dataset) (s : Statement) : Dataset :=
  M.add (e.classifyTriple s.triple) s.contexts

/-- Take a statement back. -/
def retract (e : Encoder) (M : Dataset) (s : Statement) : Dataset :=
  M.remove (e.classifyTriple s.triple) s.contexts

end Dataset

namespace Write

def perform : Write → StoreM Unit
  | add s => discard (Store.add s)
  | addAll statements => discard (Store.addAll statements)
  | remove s => discard (Store.remove s)

def performAll (writes : List Write) : StoreM Unit := writes.forM perform

/-- What a write makes of a dataset. -/
def meaning (e : Encoder) (M : Dataset) : Write → Dataset
  | add s => M.assert e s
  | addAll statements => statements.foldl (Dataset.assert e) M
  | remove s => M.retract e s

/-- The dataset that writes lead to, from none. -/
def dataset (e : Encoder) (writes : List Write) : Dataset := writes.foldl (meaning e) ∅

end Write

variable {e : Encoder} {M : Dataset} {s : Statement} {α : Type}

/-- The graph says what the dataset calls for, and nothing else. -/
def Graph.Stores (g : Graph) (e : Encoder) (M : Dataset) : Prop := ∃ P, g.Shows P (e.image M)

/-! ## Work under way -/

namespace Work

variable {w : Work} {P : Placement Part}

/-- Steps that succeed hand the texts they leave to the index. -/
theorem run_ok {steps : GraphM Transaction (α × List TextChange)}
    {Q : α × List TextChange → Graph → Prop} (h : Yields steps w.transaction.graph Q) :
    ∃ a texts w', run steps w = .ok a w' ∧ w'.textIndex = w.textIndex.map (·.applyAll texts) ∧
      Q (a, texts) w'.transaction.graph := by
  obtain ⟨⟨a, texts⟩, t, hrun, hq⟩ := h w.transaction rfl
  refine ⟨a, texts, { w with transaction := t }.applyTexts texts, ?_, rfl, hq⟩
  simp only [run, hrun]

theorem encode_bind {f : Fragment} (h : e.fragment s = .ok f) {next : Fragment → WorkM α} :
    (encode e s >>= next) w = next f w := by
  refine run_bind_ok ?_
  simp only [encode, h]

/-- Adding a statement succeeds, leaves what stood for something where it was, and indexes the texts
of the triple. -/
theorem add_shows (hv : e.vocabulary.Valid) (s : Statement)
    (hw : w.transaction.graph.Shows P (e.image M)) :
    ∃ report w' P' texts, add e s w = .ok report w' ∧ P'.Extends P (e.image M) ∧
      w'.transaction.graph.Shows P' (e.image (M.assert e s)) ∧
      w'.textIndex = w.textIndex.map (·.applyAll texts) ∧
      ∀ c, c ∈ texts ↔ ∃ y ∈ e.texts (e.classifyTriple s.triple), c = .insert (P'.text y) := by
  obtain ⟨f, parts, hf, hsketch⟩ := Encoder.fragment_sketches hv s
  obtain ⟨report, texts, w', hrun, hindex, P', hP', hw', htexts⟩ :=
    run_ok (hsketch.mergeInto_yields hv hw)
  exact ⟨report, w', P', texts, (encode_bind hf).trans hrun, hP', hw', hindex, htexts⟩

/-- Removing a statement succeeds, and takes the texts of the triple out of the index if nothing is
left of it. -/
theorem remove_shows (hv : e.vocabulary.Valid) (s : Statement)
    (hw : w.transaction.graph.Shows P (e.image M)) :
    ∃ report w' texts, remove e s w = .ok report w' ∧
      w'.transaction.graph.Shows P (e.image (M.retract e s)) ∧
      w'.textIndex = w.textIndex.map (·.applyAll texts) ∧
      ∀ c, c ∈ texts ↔ M.Dropped (e.classifyTriple s.triple) s.contexts ∧
        ∃ y ∈ e.texts (e.classifyTriple s.triple), c = .erase (P.text y) := by
  obtain ⟨f, parts, hf, hsketch⟩ := Encoder.fragment_sketches hv s
  obtain ⟨report, texts, w', hrun, hindex, hw', htexts⟩ := run_ok (hsketch.removeFrom_yields hv hw)
  exact ⟨report, w', texts, (encode_bind hf).trans hrun, hw', hindex, htexts⟩

end Work

/-! ## Accounts of what was written -/

/-- An account of the statements that were written: when a graph and a text index bear it out, and
what a statement makes of it. -/
structure Account (e : Encoder) (σ : Type) where
  Holds : σ → Graph → Option TextIndex → Prop
  assert : σ → Statement → σ
  retract : σ → Statement → σ
  work_add_ok {x : σ} {w : Work} (s : Statement) (h : Holds x w.transaction.graph w.textIndex) :
    ∃ report w', Work.add e s w = .ok report w' ∧
      Holds (assert x s) w'.transaction.graph w'.textIndex
  work_remove_ok {x : σ} {w : Work} (s : Statement) (h : Holds x w.transaction.graph w.textIndex) :
    ∃ report w', Work.remove e s w = .ok report w' ∧
      Holds (retract x s) w'.transaction.graph w'.textIndex

namespace Account

variable {σ : Type} (A : Account e σ) {x y : σ} {w : Work} {st : Store}

/-- What a write makes of an account. -/
def meaning (x : σ) : Write → σ
  | .add s => A.assert x s
  | .addAll statements => statements.foldl A.assert x
  | .remove s => A.retract x s

/-- The store bears the account out. -/
def HoldsIn (x : σ) (st : Store) : Prop := st.encoder = e ∧ A.Holds x st.graph st.textIndex

variable {A}

theorem work_addAll_ok (statements : List Statement) (total : MergeReport)
    (h : A.Holds x w.transaction.graph w.textIndex) :
    ∃ report w', (statements.foldlM (fun total s => do return total.add (← Work.add e s)) total :
        WorkM MergeReport) w = .ok report w' ∧
      A.Holds (statements.foldl A.assert x) w'.transaction.graph w'.textIndex := by
  refine run_foldlM_ok (I := fun x (w : Work) => A.Holds x w.transaction.graph w.textIndex) ?_ _ _ h
  intro total s x w h
  obtain ⟨report, w', hadd, h'⟩ := A.work_add_ok s h
  exact ⟨total.add report, w', run_bind_ok hadd, h'⟩

/-- Work that succeeds is committed. -/
theorem transact_ok {work : Encoder → WorkM α} (hst : A.HoldsIn x st)
    (h : ∀ w : Work, A.Holds x w.transaction.graph w.textIndex →
      ∃ a w', work e w = .ok a w' ∧ A.Holds y w'.transaction.graph w'.textIndex) :
    ∃ a st', Store.transact work st = .ok a st' ∧ A.HoldsIn y st' := by
  obtain ⟨rfl, hholds⟩ := hst
  obtain ⟨a, w, hwork, hw⟩ := h ⟨.start st.graph, st.textIndex⟩ hholds
  refine ⟨a, { st with graph := w.transaction.commit, textIndex := w.textIndex }, ?_, rfl, hw⟩
  simp only [Store.transact, hwork]

theorem addAll_ok (statements : List Statement) (h : A.HoldsIn x st) :
    ∃ report st', Store.addAll statements st = .ok report st' ∧
      A.HoldsIn (statements.foldl A.assert x) st' :=
  transact_ok h fun _ hw => work_addAll_ok statements {} hw

theorem remove_ok (s : Statement) (h : A.HoldsIn x st) :
    ∃ changed st', Store.remove s st = .ok changed st' ∧ A.HoldsIn (A.retract x s) st' := by
  refine transact_ok h fun w hw => ?_
  obtain ⟨report, w', hremove, hw'⟩ := A.work_remove_ok s hw
  exact ⟨report.removed, w', run_bind_ok hremove, hw'⟩

theorem discard_ok {steps : StoreM α} {a : α} {st' : Store} (h : steps st = .ok a st') :
    discard steps st = .ok () st' :=
  run_map_ok h

/-- A write succeeds, and the store bears out what it makes of the account. -/
theorem perform_ok (h : A.HoldsIn x st) (write : Write) :
    ∃ st', write.perform st = .ok () st' ∧ A.HoldsIn (A.meaning x write) st' := by
  cases write with
  | add s =>
    obtain ⟨report, st', hrun, h'⟩ := addAll_ok [s] h
    exact ⟨st', discard_ok hrun, h'⟩
  | addAll statements =>
    obtain ⟨report, st', hrun, h'⟩ := addAll_ok statements h
    exact ⟨st', discard_ok hrun, h'⟩
  | remove s =>
    obtain ⟨changed, st', hrun, h'⟩ := remove_ok s h
    exact ⟨st', discard_ok hrun, h'⟩

theorem performAll_ok (h : A.HoldsIn x st) (writes : List Write) :
    ∃ st', Write.performAll writes st = .ok () st' ∧ A.HoldsIn (writes.foldl A.meaning x) st' := by
  induction writes generalizing st x with
  | nil => exact ⟨st, rfl, h⟩
  | cons write rest ih =>
    obtain ⟨st', hwrite, h'⟩ := perform_ok h write
    obtain ⟨st'', hrest, h''⟩ := ih h'
    exact ⟨st'', (run_bind_ok hwrite).trans hrest, h''⟩

/-- The dataset that is written, by what the graph stores. -/
def dataset (hv : e.vocabulary.Valid) : Account e Dataset where
  Holds M g _ := g.Stores e M
  assert := Dataset.assert e
  retract := Dataset.retract e
  work_add_ok s h := by
    obtain ⟨P, h⟩ := h
    obtain ⟨report, w', P', -, hrun, -, hw', -⟩ := Work.add_shows hv s h
    exact ⟨report, w', hrun, P', hw'⟩
  work_remove_ok s h := by
    obtain ⟨P, h⟩ := h
    obtain ⟨report, w', -, hrun, hw', -⟩ := Work.remove_shows hv s h
    exact ⟨report, w', hrun, P, hw'⟩

theorem meaning_dataset (hv : e.vocabulary.Valid) : (dataset hv).meaning = Write.meaning e := by
  funext M write
  cases write <;> rfl

end Account

/-! ## Stores -/

namespace Store

variable {s s' : Store}

/-- A store with a valid configuration that nothing was written to. -/
inductive Fresh : Store → Prop where
  | ofConfig {c : Config} {s : Store} (h : Store.ofConfig c = .ok s) : Fresh s
  | setSchema {s : Store} (h : Fresh s) (schema : Schema) : Fresh (s.setSchema schema)
  | setTextIndex {s : Store} (h : Fresh s) (x : TextIndex) : Fresh (s.setTextIndex x)

theorem Fresh.graph_eq (h : s.Fresh) : s.graph = {} := by
  induction h with
  | ofConfig h =>
    obtain ⟨e, -, h⟩ := Graph.bind_eq_ok.1 h
    cases h
    rfl
  | setSchema _ schema ih => exact ih
  | setTextIndex _ x ih => exact ih

theorem Fresh.valid (h : s.Fresh) : s.encoder.vocabulary.Valid := by
  induction h with
  | ofConfig h =>
    obtain ⟨e, he, h⟩ := Graph.bind_eq_ok.1 h
    cases h
    obtain ⟨_, hvalid, he⟩ := Graph.bind_eq_ok.1 he
    cases he
    obtain ⟨_, hvocabulary, -⟩ := Graph.bind_eq_ok.1 hvalid
    exact Vocabulary.valid_of_validate hvocabulary
  | setSchema _ schema ih => exact ih
  | setTextIndex _ x ih => exact ih

theorem Fresh.stores (h : s.Fresh) : s.graph.Stores s.encoder ∅ := by
  rw [h.graph_eq, Graph.Stores, Encoder.image_empty]
  exact ⟨⟨fun _ => ⟨0⟩, fun _ => ⟨0⟩⟩, Graph.Shows.empty⟩

theorem addAll_ok (statements : List Statement) (hv : s.encoder.vocabulary.Valid)
    (hs : s.graph.Stores s.encoder M) :
    ∃ report s', addAll statements s = .ok report s' ∧ s'.encoder = s.encoder ∧
      s'.graph.Stores s.encoder (statements.foldl (Dataset.assert s.encoder) M) :=
  Account.addAll_ok (A := .dataset hv) statements ⟨rfl, hs⟩

theorem remove_ok (statement : Statement) (hv : s.encoder.vocabulary.Valid)
    (hs : s.graph.Stores s.encoder M) :
    ∃ changed s', remove statement s = .ok changed s' ∧ s'.encoder = s.encoder ∧
      s'.graph.Stores s.encoder (M.retract s.encoder statement) :=
  Account.remove_ok (A := .dataset hv) statement ⟨rfl, hs⟩

end Store

namespace Write

variable {s s' : Store}

/-- A write succeeds and leaves what it means. -/
theorem perform_ok (hv : s.encoder.vocabulary.Valid) (hs : s.graph.Stores s.encoder M)
    (write : Write) :
    ∃ s', write.perform s = .ok () s' ∧ s'.encoder = s.encoder ∧
      s'.graph.Stores s.encoder (write.meaning s.encoder M) := by
  rw [← Account.meaning_dataset hv]
  exact Account.perform_ok (A := .dataset hv) ⟨rfl, hs⟩ write

theorem performAll_ok (hv : s.encoder.vocabulary.Valid) (hs : s.graph.Stores s.encoder M)
    (writes : List Write) :
    ∃ s', performAll writes s = .ok () s' ∧ s'.encoder = s.encoder ∧
      s'.graph.Stores s.encoder (writes.foldl (meaning s.encoder) M) := by
  rw [← Account.meaning_dataset hv]
  exact Account.performAll_ok (A := .dataset hv) ⟨rfl, hs⟩ writes

end Write

namespace Store

/-- After any writes the graph of a store is the image of the dataset they lead to. -/
theorem Fresh.stores_dataset {s : Store} (h : s.Fresh) (writes : List Write) :
    ∃ s', Write.performAll writes s = .ok () s' ∧ s'.encoder = s.encoder ∧
      ∃ P, s'.graph.Shows P (s.encoder.image (Write.dataset s.encoder writes)) :=
  Write.performAll_ok h.valid h.stores writes

theorem Fresh.stores_dataset_default :
    let s : Store := { encoder := ⟨.verboseQuad, {}, none, {}⟩ }
    let t : Triple := ⟨.uri ⟨"a:s", by decide⟩, ⟨"a:p", by decide⟩, .resource (.uri ⟨"a:o", by decide⟩)⟩
    let writes : List Write := [.add ⟨t, ∅⟩, .remove ⟨t, ∅⟩]
    s.Fresh ∧ ∃ s', Write.performAll writes s = .ok () s' ∧ s'.encoder = s.encoder ∧
      ∃ P, s'.graph.Shows P (s.encoder.image (Write.dataset s.encoder writes)) :=
  have h : Store.Fresh { encoder := ⟨.verboseQuad, {}, none, {}⟩ } := .ofConfig (c := {}) rfl
  ⟨h, h.stores_dataset _⟩

end Store

end QuadStore
