import Mathlib
import QuadStore.Proofs.Resolution
import QuadStore.Proofs.Store.Content
/-!
# Mixed layouts

Encoders with the same vocabulary and schema may lay statements out in one graph, each under its own
policy. The graph keeps no record of the policies, and each of the encoders reads there what all of
them wrote together.
-/

namespace QuadStore

namespace Encoder

/-- The encoders have the vocabulary and the schema in common. -/
structure Shares (e e' : Encoder) : Prop where
  vocabulary : e'.vocabulary = e.vocabulary
  schema : e'.schema = e.schema

/-- What is said of statements, each laid out by an encoder. -/
def said (written : List (Encoder × Statement)) : Facts Part :=
  {f | ∃ x ∈ written, x.1.Depicts (x.1.classifyTriple x.2.triple) x.2.contexts f}

variable {e : Encoder} {written : List (Encoder × Statement)} {t : Triple}
  {A : UriSet} {σ : Site} {c : Uri}

theorem said_nil : said [] = ∅ := by
  ext f
  simp [said]

theorem said_cons (x : Encoder × Statement) :
    said (x :: written) = x.1.depiction (x.1.classifyTriple x.2.triple) x.2.contexts ∪
      said written := by
  ext f
  simp only [said, depiction, List.exists_mem_cons_iff, Set.mem_union, Set.mem_ofPred_eq]

/-- Statements laid out by several encoders can be read together. -/
theorem legible_said (hv : e.vocabulary.Valid) (h : ∀ x ∈ written, e.Shares x.1) :
    Legible e.vocabulary (said written) := by
  induction written with
  | nil =>
    rw [said_nil]
    exact Legible.empty
  | cons x rest ih =>
    obtain ⟨hx, hrest⟩ := List.forall_mem_cons.1 h
    have hdepiction := legible_depiction (e := x.1) (t := x.1.classifyTriple x.2.triple)
      (C := x.2.contexts) (hx.vocabulary.symm ▸ hv)
    rw [hx.vocabulary] at hdepiction
    rw [said_cons]
    exact hdepiction.union (ih hrest)

/-! ## What can be read of them -/

section Reading

variable (hv : e.vocabulary.Valid) (h : ∀ x ∈ written, e.Shares x.1)

include hv h

theorem exists_states_said :
    (∃ f ∈ said written, States t σ f) ↔
      ∃ x ∈ written, e.classifyTriple x.2.triple = t ∧ x.1.site t = σ := by
  constructor
  · rintro ⟨f, ⟨x, hx, hf⟩, hstates⟩
    have hx' := h x hx
    obtain ⟨rfl, rfl⟩ := hf.states (hx'.vocabulary.symm ▸ hv) hstates
    exact ⟨x, hx, congrFun (classifyTriple_of_schema hx'.schema.symm) _, rfl⟩
  · rintro ⟨x, hx, rfl, rfl⟩
    obtain ⟨f, hf, hstates⟩ :=
      x.1.exists_depicts_states (e.classifyTriple x.2.triple) x.2.contexts
    refine ⟨f, ⟨x, hx, ?_⟩, hstates⟩
    rwa [classifyTriple_of_schema (h x hx).schema]

theorem exists_places_said :
    (∃ f ∈ said written, Places e.vocabulary t c σ f) ↔
      ∃ x ∈ written, (e.classifyTriple x.2.triple = t ∧ x.1.site t = σ) ∧ c ∈ x.2.contexts := by
  constructor
  · rintro ⟨f, ⟨x, hx, hf⟩, hplaces⟩
    have hx' := h x hx
    rw [← hx'.vocabulary] at hplaces
    obtain ⟨rfl, rfl, hc⟩ := hf.places (hx'.vocabulary.symm ▸ hv) hplaces
    exact ⟨x, hx, ⟨congrFun (classifyTriple_of_schema hx'.schema.symm) _, rfl⟩, hc⟩
  · rintro ⟨x, hx, ⟨rfl, rfl⟩, hc⟩
    have hx' := h x hx
    obtain ⟨f, hf, hplaces⟩ := x.1.exists_depicts_places (e.classifyTriple x.2.triple) hc
    rw [hx'.vocabulary] at hplaces
    refine ⟨f, ⟨x, hx, ?_⟩, hplaces⟩
    rwa [classifyTriple_of_schema hx'.schema]

/-- Each statement is read at the site that its encoder has for it, with those that are read there
too. -/
theorem exists_reads_said {x : Encoder × Statement} (hx : x ∈ written) :
    ∃ C, Reads e.vocabulary (said written) (x.1.site (e.classifyTriple x.2.triple))
      ⟨e.classifyTriple x.2.triple, C⟩ := by
  obtain ⟨C, hC⟩ := exists_union written (fun y => e.classifyTriple y.2.triple =
    e.classifyTriple x.2.triple ∧ y.1.site (e.classifyTriple x.2.triple) =
      x.1.site (e.classifyTriple x.2.triple)) fun y => y.2.contexts
  exact ⟨C, (exists_states_said hv h).2 ⟨x, hx, rfl, rfl⟩,
    fun c => (hC c).trans (exists_places_said hv h).symm⟩

/-- What is read of a triple at all its sites is what the statements say of it together. -/
theorem unites_reads_said :
    Statement.Unites (fun y => ∃ σ, Reads e.vocabulary (said written) σ y) ⟨t, A⟩ ↔
      Merges e (written.map Prod.snd) t A := by
  have hmem : (∃ y : Statement, (∃ σ, Reads e.vocabulary (said written) σ y) ∧ y.triple = t) ↔
      ∃ s ∈ written.map Prod.snd, e.classifyTriple s.triple = t := by
    simp only [List.mem_map, exists_exists_and_eq_and]
    constructor
    · rintro ⟨y, ⟨σ, hy⟩, rfl⟩
      obtain ⟨x, hx, heq, -⟩ := (exists_states_said hv h).1 hy.states
      exact ⟨x, hx, heq⟩
    · rintro ⟨x, hx, rfl⟩
      obtain ⟨C, hreads⟩ := exists_reads_said hv h hx
      exact ⟨_, ⟨_, hreads⟩, rfl⟩
  have hcontexts : ∀ c, (∃ y : Statement, (∃ σ, Reads e.vocabulary (said written) σ y) ∧
      y.triple = t ∧ c ∈ y.contexts) ↔
      ∃ s ∈ written.map Prod.snd, e.classifyTriple s.triple = t ∧ c ∈ s.contexts := by
    intro c
    simp only [List.mem_map, exists_exists_and_eq_and]
    constructor
    · rintro ⟨y, ⟨σ, hy⟩, rfl, hc⟩
      obtain ⟨x, hx, ⟨heq, -⟩, hc⟩ := (exists_places_said hv h).1 ((hy.places c).1 hc)
      exact ⟨x, hx, heq, hc⟩
    · rintro ⟨x, hx, rfl, hc⟩
      obtain ⟨C, hreads⟩ := exists_reads_said hv h hx
      have hthere := (exists_places_said hv h).2 ⟨x, hx, ⟨rfl, rfl⟩, hc⟩
      exact ⟨_, ⟨_, hreads⟩, rfl, (hreads.places c).2 hthere⟩
  rw [Statement.unites_iff, hmem]
  simp only [hcontexts]
  exact ⟨fun h => ⟨h.1, h.2⟩, fun h => ⟨h.mem, h.contexts⟩⟩

end Reading

end Encoder

/-! ## Writing -/

namespace Work

variable {e : Encoder} {w : Work} {P : Placement Part} {F : Facts Part}
  {written : List (Encoder × Statement)}

/-- Add statements, each laid out by its encoder. -/
def addEach (written : List (Encoder × Statement)) : WorkM Unit :=
  written.forM fun x => discard (add x.1 x.2)

/-- Adding a statement to a graph that can be read says what it says beside what was said. -/
theorem add_says (hv : e.vocabulary.Valid) (hF : Legible e.vocabulary F) (s : Statement)
    (hw : w.transaction.graph.Shows P F) :
    ∃ report w' P', add e s w = .ok report w' ∧
      w'.transaction.graph.Shows P' (F ∪ e.depiction (e.classifyTriple s.triple) s.contexts) := by
  obtain ⟨f, parts, hf, hsketch⟩ := Encoder.fragment_sketches hv s
  obtain ⟨report, texts, w', hrun, -, P', -, hw', -⟩ := run_ok (hsketch.mergeInto_shows hF hv hw)
  exact ⟨report, w', P', (encode_bind hf).trans hrun, hw'⟩

theorem addEach_says (hv : e.vocabulary.Valid) (h : ∀ x ∈ written, e.Shares x.1)
    (hF : Legible e.vocabulary F) (hw : w.transaction.graph.Shows P F) :
    ∃ w' P', addEach written w = .ok () w' ∧
      w'.transaction.graph.Shows P' (F ∪ Encoder.said written) := by
  induction written generalizing w P F with
  | nil =>
    refine ⟨w, P, rfl, ?_⟩
    rwa [Encoder.said_nil, Set.union_empty]
  | cons x rest ih =>
    obtain ⟨hx, hrest⟩ := List.forall_mem_cons.1 h
    have hv' : x.1.vocabulary.Valid := hx.vocabulary.symm ▸ hv
    obtain ⟨report, w', P', hadd, hw'⟩ := add_says hv' (hx.vocabulary.symm ▸ hF) x.2 hw
    have hdepiction := Encoder.legible_depiction (t := x.1.classifyTriple x.2.triple)
      (C := x.2.contexts) hv'
    rw [hx.vocabulary] at hdepiction
    obtain ⟨w'', P'', hrun, hw''⟩ := ih hrest (hF.union hdepiction) hw'
    refine ⟨w'', P'', (run_bind_ok (run_map_ok hadd)).trans hrun, ?_⟩
    rwa [Encoder.said_cons, ← Set.union_assoc]

end Work

namespace Pattern

variable {e : Encoder} {p : Pattern}

/-- Whatever encoders laid out the statements of a graph, a pattern with a subject or an object is
answered there with what the statements say together: each triple that it matches once, with the
named graphs that it asks for. -/
theorem Bound.resolve_mixed (hp : p.Bound)
    (hfilter : ∀ wanted, p.contexts = .among wanted → .default ∉ wanted)
    (hv : e.vocabulary.validate = .ok ()) (written : List (Encoder × Statement))
    (hshares : ∀ x ∈ written, e.Shares x.1) (textIndex : Option TextIndex) :
    ∃ w found, Work.addEach written ⟨.start {}, textIndex⟩ = .ok () w ∧
      p.resolve e w.transaction.graph = .ok found ∧ (found.map (·.triple)).Nodup ∧
      ∀ s, s ∈ found ↔ ∃ A, Merges e (written.map Prod.snd) s.triple A ∧
        (p.normalize e).accepts s.triple ∧
        match p.contexts with
        | .any => s.contexts = A
        | .among wanted => (∃ c, c ∈ s.contexts) ∧
            ∀ c, c ∈ s.contexts ↔ c ∈ A ∧ .named c ∈ wanted := by
  have hv := Vocabulary.valid_of_validate hv
  obtain ⟨w, P, hrun, hw⟩ := Work.addEach_says (w := ⟨.start {}, textIndex⟩)
    (P := ⟨fun _ => ⟨0⟩, fun _ => ⟨0⟩⟩) hv hshares Legible.empty Graph.Shows.empty
  rw [Set.empty_union] at hw
  obtain ⟨found, hfound, hanswers⟩ :=
    hp.resolve_ok hv (Encoder.legible_said hv hshares) hw
  have hcontexts : (p.normalize e).contexts = p.contexts := by
    unfold Pattern.normalize
    split <;> rfl
  refine ⟨w, found, hrun, hfound, hanswers.nodup, fun s => ?_⟩
  rw [hanswers.mem, unites_restrict_iff (hcontexts ▸ hfilter), hcontexts]
  · simp only [Encoder.unites_reads_said hv hshares]
    refine exists_congr fun A => and_congr_right fun _ => and_congr_right fun _ => ?_
    cases hfilter' : p.contexts with
    | any => simp only [ContextFilter.restrict, Option.some.injEq, eq_comm]
    | among wanted => exact ContextFilter.restrict_named (hfilter _ hfilter')
  · rintro y ⟨σ, hy⟩
    simp only [Encoder.unites_reads_said hv hshares]
    obtain ⟨x, hx, heq, -⟩ := (Encoder.exists_states_said hv hshares).1 hy.states
    exact exists_merges ⟨x.2, List.mem_map_of_mem hx, heq⟩

theorem Bound.resolve_mixed_policies :
    let e : Encoder := ⟨.dense, {}, none, {}⟩
    let t : Triple := ⟨.uri ⟨"a:s", by decide⟩, ⟨"a:p", by decide⟩, .resource (.uri ⟨"a:o", by decide⟩)⟩
    let g : Uri := ⟨"a:g", by decide⟩
    let written := [Policy.dense, .verboseQuad, .alwaysMiddle].map fun policy =>
      ({ e with policy := policy }, (⟨t, Std.ExtTreeSet.ofList [g]⟩ : Statement))
    let wanted := Std.ExtTreeSet.ofList [Context.named g]
    let p : Pattern := { subject := some t.subject, contexts := .among wanted }
    p.Bound ∧ (∀ wanted, p.contexts = .among wanted → .default ∉ wanted) ∧
      e.vocabulary.validate = .ok () ∧ (∀ x ∈ written, e.Shares x.1) ∧
      ∃ w found, Work.addEach written ⟨.start {}, none⟩ = .ok () w ∧
        p.resolve e w.transaction.graph = .ok found ∧ (found.map (·.triple)).Nodup ∧
        ∀ s, s ∈ found ↔ ∃ A, Merges e (written.map Prod.snd) s.triple A ∧
          (p.normalize e).accepts s.triple ∧
          ((∃ c, c ∈ s.contexts) ∧ ∀ c, c ∈ s.contexts ↔ c ∈ A ∧ Context.named c ∈ wanted) := by
  intro e t g written wanted p
  have hp : p.Bound := .inl rfl
  have hfilter : ∀ wanted, p.contexts = .among wanted → .default ∉ wanted := by
    rintro _ ⟨⟩
    change Context.default ∉ Std.ExtTreeSet.ofList [Context.named g]
    simp
  have hv : ({} : Vocabulary).validate = .ok () := by rfl
  have hshares : ∀ x ∈ written, e.Shares x.1 := by
    intro x hx
    obtain ⟨policy, -, rfl⟩ := List.mem_map.1 hx
    exact ⟨rfl, rfl⟩
  exact ⟨hp, hfilter, hv, hshares, hp.resolve_mixed hfilter hv written hshares none⟩

end Pattern

end QuadStore
