import Mathlib
import QuadStore.Proofs.Store.Contexts
import QuadStore.Proofs.TextIndex
/-!
# Indexed texts

The index has the texts of the stored literals, save those that were lost: where two triples have a
text in common, the text goes with the first of them that is removed.
-/

namespace QuadStore

namespace Dataset

variable {e : Encoder} {M : Dataset} {t : Triple} {C : UriSet} {s : Statement}
  {y : Part × FulltextEntry}

/-- The texts of the stored literals. -/
def texts (M : Dataset) (e : Encoder) : Set (Part × FulltextEntry) :=
  {y | ∃ t A, M[t]? = some A ∧ y ∈ e.texts t}

/-- The texts of a triple that is dropped when a statement is taken back. -/
def droppedTexts (M : Dataset) (e : Encoder) (s : Statement) : Set (Part × FulltextEntry) :=
  {y | M.Dropped (e.classifyTriple s.triple) s.contexts ∧ y ∈ e.texts (e.classifyTriple s.triple)}

/-- Taking a statement back drops a text that a triple has which is left. -/
def Loses (M : Dataset) (e : Encoder) (s : Statement) (y : Part × FulltextEntry) : Prop :=
  y ∈ M.droppedTexts e s ∧ y ∈ (M.retract e s).texts e

theorem vertex_of_texts (h : y ∈ M.texts e) : .vertex y.1 ∈ e.image M := by
  obtain ⟨t, A, hA, hy⟩ := h
  exact ⟨t, A, hA, Encoder.depicts_vertex.2 (Encoder.needs_of_texts hy)⟩

theorem texts_assert : (M.assert e s).texts e = M.texts e ∪ e.texts (e.classifyTriple s.triple) := by
  ext y
  simp only [texts, Dataset.assert, getElem?_add, Set.mem_ofPred_eq, Set.mem_union]
  constructor
  · rintro ⟨u, B, hB, hy⟩
    split at hB
    · rename_i heq
      exact .inr (heq ▸ hy)
    · exact .inl ⟨u, B, hB, hy⟩
  · rintro (⟨u, B, hB, hy⟩ | hy)
    · by_cases heq : e.classifyTriple s.triple = u
      · exact ⟨u, _, if_pos heq, hy⟩
      · exact ⟨u, B, by rw [if_neg heq, hB], hy⟩
    · exact ⟨_, _, if_pos rfl, hy⟩

theorem texts_retract_subset : (M.retract e s).texts e ⊆ M.texts e := by
  rintro y ⟨u, B, hB, hy⟩
  obtain ⟨A, hA, -⟩ := some_of_remove hB
  exact ⟨u, A, hA, hy⟩

/-- A text that is not dropped is left. -/
theorem mem_texts_retract (h : y ∈ M.texts e) (hkept : y ∉ M.droppedTexts e s) :
    y ∈ (M.retract e s).texts e := by
  obtain ⟨u, A, hA, hy⟩ := h
  by_cases heq : e.classifyTriple s.triple = u
  · subst heq
    have hstays : ¬Drops A s.contexts := fun hdrops =>
      hkept ⟨⟨⟨A, hA⟩, by rwa [hA, Option.getD_some]⟩, hy⟩
    exact ⟨_, _, by rw [Dataset.retract, getElem?_remove hA, if_pos rfl, if_neg hstays], hy⟩
  · exact ⟨u, A, (getElem?_remove_ne heq).trans hA, hy⟩

theorem Loses.dense (h : M.Loses e s y) : e.policy = .dense := by
  obtain ⟨⟨⟨-, hdrops⟩, hy⟩, u, B, hB, hu⟩ := h
  refine Encoder.dense_of_texts hy hu ?_
  rintro rfl
  rw [Dataset.retract, remove_self_eq_none hdrops] at hB
  cases hB

end Dataset

/-! ## Catalogues -/

/-- A dataset with those of its texts that are indexed. -/
structure Catalogue (e : Encoder) where
  dataset : Dataset
  indexed : Set (Part × FulltextEntry)
  indexed_subset : indexed ⊆ dataset.texts e

namespace Catalogue

variable {e : Encoder} {K : Catalogue e} {s : Statement} {y : Part × FulltextEntry}

/-- Nothing is stored and nothing is indexed. -/
def empty (e : Encoder) : Catalogue e := ⟨∅, ∅, Set.empty_subset _⟩

/-- An asserted triple is indexed by its texts. -/
def assert (K : Catalogue e) (s : Statement) : Catalogue e where
  dataset := K.dataset.assert e s
  indexed := K.indexed ∪ e.texts (e.classifyTriple s.triple)
  indexed_subset := by
    rw [Dataset.texts_assert]
    exact Set.union_subset_union_left _ K.indexed_subset

/-- The texts of a dropped triple are not indexed any more, whoever else has them. -/
def retract (K : Catalogue e) (s : Statement) : Catalogue e where
  dataset := K.dataset.retract e s
  indexed := K.indexed \ K.dataset.droppedTexts e s
  indexed_subset _ hy := Dataset.mem_texts_retract (K.indexed_subset hy.1) hy.2

end Catalogue

namespace TextIndex

variable {x : TextIndex} {P P' : Placement Part} {T U : Set (Part × FulltextEntry)}
  {changes : List TextChange}

/-- The entries of an index are these texts. -/
def Holds (x : TextIndex) (P : Placement Part) (T : Set (Part × FulltextEntry)) : Prop :=
  ∀ a, a ∈ x.entries ↔ ∃ y ∈ T, a = P.text y

theorem Holds.insert (h : x.Holds P T) (hP : ∀ y ∈ T, P'.vertex y.1 = P.vertex y.1)
    (hchanges : ∀ c, c ∈ changes ↔ ∃ y ∈ U, c = .insert (P'.text y)) :
    (x.applyAll changes).Holds P' (T ∪ U) := by
  intro a
  have hinserts : ∀ c ∈ changes, ∃ b, c = .insert b := fun c hc =>
    have ⟨y, _, heq⟩ := (hchanges c).1 hc
    ⟨_, heq⟩
  have hold : (∃ y ∈ T, a = P.text y) ↔ ∃ y ∈ T, a = P'.text y :=
    exists_congr fun y => and_congr_right fun hy => by rw [Placement.text, Placement.text, hP y hy]
  rw [mem_applyAll_insert hinserts, h a, hold, hchanges]
  simp only [TextChange.insert.injEq, Set.mem_union, or_and_right, exists_or]

/-- An entry that is taken out goes for every text that it is the entry of. -/
theorem Holds.erase (h : x.Holds P T) (hP : ∀ y ∈ T, ∀ z ∈ U, P.text y = P.text z → y = z)
    (hchanges : ∀ c, c ∈ changes ↔ ∃ y ∈ U, c = .erase (P.text y)) :
    (x.applyAll changes).Holds P (T \ U) := by
  intro a
  have herases : ∀ c ∈ changes, ∃ b, c = .erase b := fun c hc =>
    have ⟨y, _, heq⟩ := (hchanges c).1 hc
    ⟨_, heq⟩
  rw [mem_applyAll_erase herases, h a, hchanges]
  simp only [TextChange.erase.injEq]
  constructor
  · rintro ⟨⟨y, hy, rfl⟩, hgone⟩
    exact ⟨y, ⟨hy, fun hU => hgone ⟨y, hU, rfl⟩⟩, rfl⟩
  · rintro ⟨y, ⟨hy, hU⟩, rfl⟩
    refine ⟨⟨y, hy, rfl⟩, ?_⟩
    rintro ⟨z, hz, heq⟩
    exact hU (hP y hy z hz heq ▸ hz)

end TextIndex

namespace Account

variable {e : Encoder}

/-- A text is told by its entry, if the vertex that has it is there. -/
theorem text_injective {g : Graph} {P : Placement Part} {M : Dataset} (hg : g.Shows P (e.image M))
    {y z : Part × FulltextEntry} (hy : y ∈ M.texts e) (hz : z ∈ M.texts e)
    (h : P.text y = P.text z) : y = z := by
  obtain ⟨p, predicate, text⟩ := y
  obtain ⟨q, predicate', text'⟩ := z
  simp only [Placement.text, TextEntry.mk.injEq] at h
  obtain ⟨hvertex, rfl, rfl⟩ := h
  rw [hg.injective p q (Dataset.vertex_of_texts hy) (Dataset.vertex_of_texts hz) hvertex]

/-- What is stored and indexed, by what the graph stores and the entries that the index has. -/
def catalogue (hv : e.vocabulary.Valid) : Account e (Catalogue e) where
  Holds K g ti := ∃ P x, ti = some x ∧ g.Shows P (e.image K.dataset) ∧ x.Holds P K.indexed
  assert := Catalogue.assert
  retract := Catalogue.retract
  work_add_ok {K w} s h := by
    obtain ⟨P, x, hx, hg, hindex⟩ := h
    obtain ⟨report, w', P', texts, hrun, hP', hg', htexts, hmem⟩ := Work.add_shows hv s hg
    rw [hx, Option.map_some] at htexts
    refine ⟨report, w', hrun, P', _, htexts, hg', hindex.insert (fun y hy => ?_) hmem⟩
    exact hP'.vertex _ (Dataset.vertex_of_texts (K.indexed_subset hy))
  work_remove_ok {K w} s h := by
    obtain ⟨P, x, hx, hg, hindex⟩ := h
    obtain ⟨report, w', texts, hrun, hg', htexts, hmem⟩ := Work.remove_shows hv s hg
    rw [hx, Option.map_some] at htexts
    refine ⟨report, w', hrun, P, _, htexts, hg', hindex.erase (fun y hy z hz heq => ?_) fun c => ?_⟩
    · obtain ⟨⟨⟨A, hA⟩, -⟩, hz⟩ := hz
      exact text_injective hg (K.indexed_subset hy) ⟨_, A, hA, hz⟩ heq
    · rw [hmem]
      constructor
      · rintro ⟨hdropped, y, hy, rfl⟩
        exact ⟨y, ⟨hdropped, hy⟩, rfl⟩
      · rintro ⟨y, ⟨hdropped, hy⟩, rfl⟩
        exact ⟨hdropped, y, hy, rfl⟩

end Account

/-! ## Texts that are lost -/

namespace Write

variable {e : Encoder} {K : Catalogue e} {writes : List Write} {write : Write}
  {y : Part × FulltextEntry}

/-- The texts of the triples that a write asserts. -/
def texts (e : Encoder) : Write → Set (Part × FulltextEntry)
  | add s => e.texts (e.classifyTriple s.triple)
  | addAll statements => {y | ∃ s ∈ statements, y ∈ e.texts (e.classifyTriple s.triple)}
  | remove _ => ∅

/-- The texts that went with a triple while another one had them, and were not written again. -/
def lost (e : Encoder) (writes : List Write) : Set (Part × FulltextEntry) :=
  {y | ∃ before s after, writes = before ++ remove s :: after ∧ (dataset e before).Loses e s y ∧
    ∀ write ∈ after, y ∉ write.texts e}

/-- The literals that are stored after a write were stored before or are asserted by it. -/
theorem mem_texts_meaning {M : Dataset} (h : y ∈ (write.meaning e M).texts e) :
    y ∈ M.texts e ∨ y ∈ write.texts e := by
  cases write with
  | add s => rwa [meaning, Dataset.texts_assert] at h
  | addAll statements =>
    rw [meaning] at h
    induction statements generalizing M with
    | nil => exact .inl h
    | cons s rest ih =>
      rcases ih h with hy | ⟨s', hs', hy⟩
      · rw [Dataset.texts_assert] at hy
        exact hy.imp_right fun hy => ⟨s, List.mem_cons_self .., hy⟩
      · exact .inr ⟨s', List.mem_cons_of_mem _ hs', hy⟩
  | remove s => exact .inl (Dataset.texts_retract_subset h)

theorem dense_of_lost (h : y ∈ lost e writes) : e.policy = .dense := by
  obtain ⟨before, s, after, -, hloses, -⟩ := h
  exact hloses.dense

end Write

namespace Catalogue

variable {e : Encoder} {K : Catalogue e} {statements : List Statement} {writes : List Write}
  {write : Write} {y : Part × FulltextEntry}

/-- What a write makes of a catalogue. -/
def meaning (K : Catalogue e) : Write → Catalogue e
  | .add s => K.assert s
  | .addAll statements => statements.foldl assert K
  | .remove s => K.retract s

/-- The catalogue that writes lead to, from none. -/
def ofWrites (e : Encoder) (writes : List Write) : Catalogue e := writes.foldl meaning (empty e)

theorem dataset_assertAll :
    (statements.foldl assert K).dataset = statements.foldl (Dataset.assert e) K.dataset := by
  induction statements generalizing K with
  | nil => rfl
  | cons s rest ih => exact ih

theorem dataset_meaning : (K.meaning write).dataset = write.meaning e K.dataset := by
  cases write with
  | add s | remove s => rfl
  | addAll statements => exact dataset_assertAll

theorem dataset_ofWrites : (ofWrites e writes).dataset = Write.dataset e writes := by
  have hfold : ∀ K : Catalogue e,
      (writes.foldl meaning K).dataset = writes.foldl (Write.meaning e) K.dataset := by
    induction writes with
    | nil => exact fun _ => rfl
    | cons write rest ih =>
      intro K
      rw [List.foldl_cons, ih, dataset_meaning, List.foldl_cons]
  exact hfold _

theorem indexed_assertAll : y ∈ (statements.foldl assert K).indexed ↔
    y ∈ K.indexed ∨ ∃ s ∈ statements, y ∈ e.texts (e.classifyTriple s.triple) := by
  induction statements generalizing K with
  | nil => simp
  | cons s rest ih =>
    rw [List.foldl_cons, ih]
    simp only [assert, Set.mem_union, List.mem_cons, exists_eq_or_imp, or_assoc]

/-- A write indexes the texts that it asserts, and takes out those of a triple that it drops. -/
theorem indexed_meaning : y ∈ (K.meaning write).indexed ↔
    y ∈ write.texts e ∨ y ∈ K.indexed ∧ ∀ s, write = .remove s → y ∉ K.dataset.droppedTexts e s := by
  cases write with
  | add s => simp [meaning, assert, Write.texts, or_comm]
  | addAll statements => simp [meaning, indexed_assertAll, Write.texts, or_comm]
  | remove s => simp [meaning, retract, Write.texts]

/-- A text that is not indexed stays so until it is written. -/
theorem notMem_indexed (h : y ∉ K.indexed) (hnone : ∀ write ∈ writes, y ∉ write.texts e) :
    y ∉ (writes.foldl meaning K).indexed := by
  induction writes generalizing K with
  | nil => exact h
  | cons write rest ih =>
    rw [List.forall_mem_cons] at hnone
    refine ih (fun hy => ?_) hnone.2
    rcases indexed_meaning.1 hy with hy | ⟨hy, -⟩
    · exact hnone.1 hy
    · exact h hy

theorem ofWrites_append {after : List Write} :
    ofWrites e (writes ++ after) = after.foldl meaning (ofWrites e writes) := List.foldl_append

/-- A text of a stored literal that is not indexed was lost. -/
theorem lost_of_notMem (h : y ∈ (ofWrites e writes).dataset.texts e)
    (hnot : y ∉ (ofWrites e writes).indexed) : y ∈ Write.lost e writes := by
  induction writes using List.reverseRecOn with
  | nil =>
    obtain ⟨t, A, hA, -⟩ := h
    simp [ofWrites, empty] at hA
  | append_singleton before write ih =>
    rw [ofWrites_append, List.foldl_cons, List.foldl_nil] at h hnot
    rw [indexed_meaning, not_or, not_and] at hnot
    obtain ⟨hnew, hkept⟩ := hnot
    rw [dataset_meaning] at h
    have hthere := (Write.mem_texts_meaning h).resolve_right hnew
    by_cases hy : y ∈ (ofWrites e before).indexed
    · have hdropped := hkept hy
      push Not at hdropped
      obtain ⟨s, rfl, hdropped⟩ := hdropped
      rw [dataset_ofWrites] at h hdropped
      exact ⟨before, s, [], rfl, ⟨hdropped, h⟩, by simp⟩
    · obtain ⟨earlier, s, after, rfl, hloses, hnone⟩ := ih hthere hy
      refine ⟨earlier, s, after ++ [write], by simp, hloses, fun w hw => ?_⟩
      rw [List.mem_append, List.mem_singleton] at hw
      rcases hw with hw | rfl
      · exact hnone w hw
      · exact hnew

/-- What is indexed are the texts of the stored literals save the lost ones. -/
theorem indexed_ofWrites :
    (ofWrites e writes).indexed = (Write.dataset e writes).texts e \ Write.lost e writes := by
  ext y
  constructor
  · intro hy
    refine ⟨dataset_ofWrites ▸ (ofWrites e writes).indexed_subset hy, ?_⟩
    rintro ⟨before, s, after, rfl, ⟨hdropped, -⟩, hnone⟩
    rw [ofWrites_append, List.foldl_cons] at hy
    refine notMem_indexed (fun hy => ?_) hnone hy
    rw [indexed_meaning, dataset_ofWrites] at hy
    rcases hy with hy | ⟨-, hkept⟩
    · exact hy
    · exact hkept s rfl hdropped
  · rintro ⟨hy, hkept⟩
    by_contra hnot
    exact hkept (lost_of_notMem (dataset_ofWrites.symm ▸ hy) hnot)

end Catalogue

/-! ## Stores with a text index -/

theorem Account.meaning_catalogue {e : Encoder} (hv : e.vocabulary.Valid) :
    (catalogue hv).meaning = Catalogue.meaning := by
  funext K write
  cases write <;> rfl

namespace Store

variable {s : Store}

/-- After any writes an index that was empty has the texts that the catalogue has. -/
theorem Fresh.catalogues (h : s.Fresh) (hx : s.textIndex = some {}) (writes : List Write) :
    ∃ s' x P, Write.performAll writes s = .ok () s' ∧ s'.textIndex = some x ∧
      s'.graph.Shows P (s.encoder.image (Write.dataset s.encoder writes)) ∧
      x.Holds P (Catalogue.ofWrites s.encoder writes).indexed := by
  have hstart : (Account.catalogue h.valid).HoldsIn (.empty s.encoder) s := by
    obtain ⟨P, hg⟩ := h.stores
    exact ⟨rfl, P, {}, hx, hg, by simp [TextIndex.Holds, Catalogue.empty]⟩
  obtain ⟨s', hrun, -, P, x, hx', hg, hindex⟩ := Account.performAll_ok hstart writes
  rw [Account.meaning_catalogue] at hg hindex
  exact ⟨s', x, P, hrun, hx', Catalogue.dataset_ofWrites ▸ hg, hindex⟩

/-- After any writes an index that was empty has an entry for every text of a stored literal that
was not lost, and no other. A text is lost when a triple that has it is dropped while another has it
too, which takes literals as properties, until it is written again. -/
theorem Fresh.index_mirrors (h : s.Fresh) (hx : s.textIndex = some {}) (writes : List Write) :
    ∃ s' x P, Write.performAll writes s = .ok () s' ∧ s'.textIndex = some x ∧
      s'.graph.Shows P (s.encoder.image (Write.dataset s.encoder writes)) ∧
      (∀ a, a ∈ x.entries ↔ ∃ y ∈ (Write.dataset s.encoder writes).texts s.encoder,
        a = P.text y ∧ y ∉ Write.lost s.encoder writes) ∧
      ∀ y ∈ Write.lost s.encoder writes, s.encoder.policy = .dense := by
  obtain ⟨s', x, P, hrun, hx', hg, hindex⟩ := h.catalogues hx writes
  refine ⟨s', x, P, hrun, hx', hg, fun a => ?_, fun y => Write.dense_of_lost⟩
  rw [hindex a, Catalogue.indexed_ofWrites]
  constructor
  · rintro ⟨y, ⟨hy, hkept⟩, rfl⟩
    exact ⟨y, hy, rfl, hkept⟩
  · rintro ⟨y, hy, rfl, hkept⟩
    exact ⟨y, ⟨hy, hkept⟩, rfl⟩

theorem Fresh.index_mirrors_dense :
    let s : Store := { encoder := ⟨.dense, {}, none, { all := true }⟩, textIndex := some {} }
    let t : Triple := ⟨.uri ⟨"a:s", by decide⟩, ⟨"a:p", by decide⟩, .literal (.plain "chat")⟩
    let writes : List Write := [.add ⟨t, ∅⟩]
    s.Fresh ∧ s.textIndex = some {} ∧
      ∃ s' x P, Write.performAll writes s = .ok () s' ∧ s'.textIndex = some x ∧
        s'.graph.Shows P (s.encoder.image (Write.dataset s.encoder writes)) ∧
        (∀ a, a ∈ x.entries ↔ ∃ y ∈ (Write.dataset s.encoder writes).texts s.encoder,
          a = P.text y ∧ y ∉ Write.lost s.encoder writes) ∧
        ∀ y ∈ Write.lost s.encoder writes, s.encoder.policy = .dense := by
  intro s t writes
  have h : s.Fresh :=
    .setTextIndex (.ofConfig (c := { encoding := .dense, fulltext := { all := true } }) rfl) {}
  exact ⟨h, rfl, h.index_mirrors rfl writes⟩

/-- Two literals of one subject under one predicate have the same words in two languages: once one
of them is removed the index is empty, though the other is stored. -/
theorem twin_unindexed :
    let s : Store := { encoder := ⟨.dense, {}, none, { all := true }⟩, textIndex := some {} }
    let t (language : LanguageTag) : Triple :=
      ⟨.uri ⟨"a:s", by decide⟩, ⟨"a:p", by decide⟩, .literal ⟨"chat", .tagged language⟩⟩
    let french : Statement := ⟨t ⟨"fr", by decide, by decide⟩, ∅⟩
    let english : Statement := ⟨t ⟨"en", by decide, by decide⟩, ∅⟩
    let writes : List Write := [.add french, .add english, .remove french]
    s.Fresh ∧ s.textIndex = some {} ∧ ∃ s' x, Write.performAll writes s = .ok () s' ∧
      s'.textIndex = some x ∧ s'.contains english = .ok true ∧
      ((Write.dataset s.encoder writes).texts s.encoder).Nonempty ∧ x.isEmpty := by
  intro s t french english writes
  have h : s.Fresh :=
    .setTextIndex (.ofConfig (c := { encoding := .dense, fulltext := { all := true } }) rfl) {}
  have hne : french.triple ≠ english.triple := by simp [french, english, t]
  have htexts : s.encoder.texts english.triple = s.encoder.texts french.triple :=
    Encoder.texts_of_twin rfl rfl rfl rfl rfl rfl
  obtain ⟨s', x, P, hrun, hx, -, hindex⟩ := h.catalogues rfl writes
  obtain ⟨s'', hrun', hencoder, hs'⟩ := h.keeps.performAll writes
  cases hrun.symm.trans hrun'
  let M : Dataset := ((∅ : Dataset).add french.triple ∅).add english.triple ∅
  have hfrench : M[french.triple]? = some ∅ := by
    rw [Dataset.getElem?_add, if_neg hne.symm]
    exact Dataset.getElem?_add_default (by simp)
  have henglish : M[english.triple]? = some ∅ :=
    Dataset.getElem?_add_default (by simp [Dataset.getElem?_add, hne])
  have hleft : (Write.dataset s.encoder writes)[english.triple]? = some ∅ :=
    (Dataset.getElem?_remove_ne hne).trans henglish
  have hdropped : M.Dropped french.triple french.contexts := by
    refine ⟨⟨∅, hfrench⟩, ?_⟩
    rw [hfrench]
    simp [Dataset.Drops, french]
  have hgone : ∀ y, y ∉ (Catalogue.ofWrites s.encoder writes).indexed := by
    rintro y ⟨(hnone | hy) | hy, hkept⟩
    · exact hnone
    · exact hkept ⟨hdropped, hy⟩
    · exact hkept ⟨hdropped, htexts ▸ hy⟩
  refine ⟨h, rfl, s', x, hrun, hx, ?_, ?_, ?_⟩
  · obtain ⟨b, hb, hiff⟩ := hs'.contains_ok english
    rw [hb, Except.ok.injEq, hiff, hencoder]
    exact ⟨∅, hleft, by simp, by simp [english]⟩
  · exact ⟨(.resource (.uri ⟨"a:s", by decide⟩), ⟨"a:p", "chat"⟩), english.triple, _, hleft,
      _, rfl, rfl, rfl, rfl⟩
  · rw [TextIndex.isEmpty, Std.ExtTreeSet.isEmpty_iff, Std.ExtTreeSet.eq_empty_iff_forall_not_mem]
    intro a ha
    obtain ⟨y, hy, -⟩ := (hindex a).1 ha
    exact hgone y hy

end Store

end QuadStore
