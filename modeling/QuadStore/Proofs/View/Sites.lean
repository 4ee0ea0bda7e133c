import Mathlib
import QuadStore.Proofs.Encoder.Shapes
/-!
# Where triples are read

Some facts state a triple and others place it in a named graph, and each tells the site that it is
read at. So a site is read without asking how the triple was laid out. A policy has one site for a
triple.
-/

namespace QuadStore

/-- The fact states the triple at the site. -/
inductive States (t : Triple) : Site → Fact Part (Bond Part) → Prop where
  | relation {r : Resource} (h : t.object = .resource r) :
    States t .relation (.bond ⟨.resource t.subject, t.predicate.text, .resource r⟩)
  | value {l : Literal} (h : t.object = .literal l) :
    States t .value (.property (.resource t.subject) ⟨t.predicate.text, l.encode⟩)
  | around {m : Part} (h : m.middleOf? = some t) : States t (.around m) (.vertex m)

/-- The fact lists the named graph at the site of the triple. -/
inductive Places (v : Vocabulary) (t : Triple) (c : Uri) : Site → Fact Part (Bond Part) → Prop where
  | relation {r : Resource} (h : t.object = .resource r) :
    Places v t c .relation (.edgeProperty ⟨.resource t.subject, t.predicate.text, .resource r⟩
      ⟨v.contextsKey, c.text⟩)
  | value {l : Literal} (h : t.object = .literal l) :
    Places v t c .value (.property (.resource t.subject)
      ⟨v.contextsKeyOf t.predicate l.encode, c.text⟩)
  | link {m : Part} (h : m.middleOf? = some t) :
    Places v t c (.around m) (.bond ⟨m, v.contextEdgeLabel, .resource (.uri c)⟩)
  | record {m : Part} (h : m.middleOf? = some t) :
    Places v t c (.around m) (.property m ⟨v.contextsKey, c.text⟩)

section Places

variable {v : Vocabulary} {t : Triple} {c : Uri} {F : Facts Part} {m : Part} {r : Resource}
  {l : Literal}

theorem exists_places_relation (h : t.object = .resource r) :
    (∃ f ∈ F, Places v t c .relation f) ↔
      .edgeProperty ⟨.resource t.subject, t.predicate.text, .resource r⟩ ⟨v.contextsKey, c.text⟩ ∈
        F := by
  constructor
  · rintro ⟨f, hf, hplaces⟩
    cases hplaces with
    | relation h' =>
      cases h.symm.trans h'
      exact hf
  · exact fun hf => ⟨_, hf, .relation h⟩

theorem exists_places_value (h : t.object = .literal l) :
    (∃ f ∈ F, Places v t c .value f) ↔
      .property (.resource t.subject) ⟨v.contextsKeyOf t.predicate l.encode, c.text⟩ ∈ F := by
  constructor
  · rintro ⟨f, hf, hplaces⟩
    cases hplaces with
    | value h' =>
      cases h.symm.trans h'
      exact hf
  · exact fun hf => ⟨_, hf, .value h⟩

theorem exists_places_around (h : m.middleOf? = some t) :
    (∃ f ∈ F, Places v t c (.around m) f) ↔
      .bond ⟨m, v.contextEdgeLabel, .resource (.uri c)⟩ ∈ F ∨
        .property m ⟨v.contextsKey, c.text⟩ ∈ F := by
  constructor
  · rintro ⟨f, hf, hplaces⟩
    cases hplaces with
    | link => exact .inl hf
    | record => exact .inr hf
  · rintro (hf | hf)
    · exact ⟨_, hf, .link h⟩
    · exact ⟨_, hf, .record h⟩

end Places

/-- The facts have the triple of the statement at the site, in the named graphs of the statement. -/
structure Reads (v : Vocabulary) (F : Facts Part) (σ : Site) (y : Statement) : Prop where
  states : ∃ f ∈ F, States y.triple σ f
  places : ∀ c, c ∈ y.contexts ↔ ∃ f ∈ F, Places v y.triple c σ f

theorem Reads.unique {v : Vocabulary} {F : Facts Part} {σ : Site} {y z : Statement}
    (h : Reads v F σ y) (h' : Reads v F σ z) (ht : y.triple = z.triple) : y = z := by
  obtain ⟨t, A⟩ := y
  obtain ⟨u, B⟩ := z
  obtain rfl : t = u := ht
  have hcontexts : A = B := by
    ext c
    exact (h.places c).trans (h'.places c).symm
  rw [hcontexts]

namespace Dataset

/-- The statement is a stored triple with all its named graphs. -/
def Holds (M : Dataset) (s : Statement) : Prop := M[s.triple]? = some s.contexts

theorem Holds.eq {M : Dataset} {s : Statement} {t : Triple} {A : UriSet} (h : M.Holds s)
    (ht : s.triple = t) (hA : M[t]? = some A) : ⟨t, A⟩ = s := by
  obtain ⟨u, B⟩ := s
  obtain rfl : u = t := ht
  rw [Option.some.inj (hA.symm.trans h)]

end Dataset

namespace Encoder

variable {e : Encoder} {t u : Triple} {C : UriSet} {c : Uri} {σ : Site} {f : Fact Part (Bond Part)}
  {m : Part} {r : Resource} {l : Literal}

/-- The site of a triple. -/
def site (e : Encoder) (t : Triple) : Site :=
  match e.form t with
  | .relation _ => .relation
  | .property _ => .value
  | .quad _ | .recording (.resource _) => .around (.middle t)
  | .recording (.literal _) => .around (.holder t)

theorem site_of_middle (h : e.middle? t = some m) : e.site t = .around m := by
  unfold site
  rcases middle_eq h with ⟨⟨o, hform⟩, rfl⟩ | ⟨⟨r, hform⟩, rfl⟩ | ⟨⟨l, hform⟩, rfl⟩ <;>
    simp only [hform]

theorem site_of_relation (h : e.form t = .relation r) : e.site t = .relation := by
  simp only [site, h]

theorem site_of_property (h : e.form t = .property l) : e.site t = .value := by
  simp only [site, h]

/-! ## One triple -/

/-- What is said of a triple states that triple, at its site. -/
theorem Depicts.states (h : e.Depicts u C f) (hv : e.vocabulary.Valid) (hf : States t σ f) :
    t = u ∧ σ = e.site u := by
  cases hf with
  | relation ho =>
    obtain ⟨hform, hs, hp⟩ := depicts_relation.1 h
    exact ⟨Triple.ext hs.symm hp.symm (ho.trans (object_of_form hform).symm),
      (site_of_relation hform).symm⟩
  | value ho =>
    obtain ⟨l, hform, hs, hp, hl⟩ := (depicts_value hv t.predicate.not_isInternal).1 h
    rw [Literal.encode_injective hl] at ho
    exact ⟨Triple.ext (Part.resource.inj hs) (Uri.ext hp) (ho.trans (object_of_form hform).symm),
      (site_of_property hform).symm⟩
  | around hm =>
    obtain ⟨rfl, hmiddle⟩ := middle_of_needs (depicts_vertex.1 h) hm
    exact ⟨rfl, (site_of_middle hmiddle).symm⟩

theorem exists_depicts_states (e : Encoder) (t : Triple) (C : UriSet) :
    ∃ f, e.Depicts t C f ∧ States t (e.site t) f := by
  rcases form_cases e t with ⟨r, hr⟩ | ⟨l, hl⟩ | ⟨m, hm⟩
  · rw [site_of_relation hr]
    exact ⟨_, .relation hr, .relation (object_of_form hr)⟩
  · rw [site_of_property hl]
    exact ⟨_, .property hl, .value (object_of_form hl)⟩
  · rw [site_of_middle hm]
    exact ⟨_, depicts_vertex.2 (.middle hm), .around (middleOf_of_middle hm)⟩

/-- What is said of a triple places it in its named graphs, at its site. -/
theorem Depicts.places (h : e.Depicts u C f) (hv : e.vocabulary.Valid)
    (hf : Places e.vocabulary t c σ f) : t = u ∧ σ = e.site u ∧ c ∈ C := by
  cases hf with
  | relation ho =>
    obtain ⟨⟨hform, hs, hp⟩, d, hd, hentry⟩ := depicts_relationContext.1 h
    rw [← Uri.ext (Entry.mk.inj hentry).2] at hd
    exact ⟨Triple.ext hs.symm hp.symm (ho.trans (object_of_form hform).symm),
      (site_of_relation hform).symm, hd⟩
  | value ho =>
    obtain ⟨⟨hform, hs, hp⟩, d, hd, hc⟩ := (depicts_valueContext hv).1 h
    rw [← Uri.ext hc] at hd
    exact ⟨Triple.ext (Part.resource.inj hs) hp.symm (ho.trans (object_of_form hform).symm),
      (site_of_property hform).symm, hd⟩
  | link hm =>
    obtain ⟨o, hform, rfl, d, hd, hc⟩ := (depicts_context hv).1 h
    cases hc
    have hmiddle : e.middle? u = some (.middle u) := by simp only [middle?, hform]
    exact ⟨(Option.some.inj hm).symm, (site_of_middle hmiddle).symm, hd⟩
  | record hm =>
    obtain ⟨o, -, hmiddle, d, hd, hc⟩ := (depicts_record hv).1 h
    rw [← Uri.ext hc] at hd
    exact ⟨Option.some.inj (hm.symm.trans (middleOf_of_middle hmiddle)),
      (site_of_middle hmiddle).symm, hd⟩

theorem exists_depicts_places (e : Encoder) (t : Triple) (hc : c ∈ C) :
    ∃ f, e.Depicts t C f ∧ Places e.vocabulary t c (e.site t) f := by
  cases hform : e.form t with
  | relation r =>
    rw [site_of_relation hform]
    exact ⟨_, .relationContext hform hc, .relation (object_of_form hform)⟩
  | property l =>
    rw [site_of_property hform]
    exact ⟨_, .propertyContext hform hc, .value (object_of_form hform)⟩
  | quad o =>
    rw [site_of_middle (by simp only [middle?, hform] : e.middle? t = some (.middle t))]
    exact ⟨_, .context hform hc, .link rfl⟩
  | recording o =>
    rcases form_cases e t with ⟨r, hr⟩ | ⟨l, hl⟩ | ⟨m, hm⟩
    · exact absurd (hform.symm.trans hr) (by simp)
    · exact absurd (hform.symm.trans hl) (by simp)
    · rw [site_of_middle hm]
      exact ⟨_, .record hform hm hc, .record (middleOf_of_middle hm)⟩

/-! ## Datasets -/

variable {M : Dataset} {R : Set Resource} {y : Statement}

theorem states_spare (hv : e.vocabulary.Valid) (hf : f ∈ e.spare R) : ¬States t σ f := by
  obtain ⟨r, -, hf⟩ := hf
  intro h
  cases h with
  | relation => exact Identity.bond_mem hf
  | value => exact not_has_text hv (Identity.property_mem.1 hf).2
  | around hm => exact Part.ne_resource_of_middleOf hm (Identity.vertex_mem.1 hf)

theorem places_spare (hv : e.vocabulary.Valid) (hf : f ∈ e.spare R) :
    ¬Places e.vocabulary t c σ f := by
  obtain ⟨r, -, hf⟩ := hf
  intro h
  cases h with
  | relation => exact Identity.edgeProperty_mem hf
  | value =>
    exact hv.contextsKeyOf_ne _ _ (Vocabulary.has_mem_words (Identity.property_mem.1 hf).2) rfl
  | link => exact Identity.bond_mem hf
  | record hm => exact Part.ne_resource_of_middleOf hm (Identity.property_mem.1 hf).1

/-- The graph of a dataset reads as the dataset. -/
theorem reads_imageWith (hv : e.vocabulary.Valid) :
    Reads e.vocabulary (e.imageWith M R) σ y ↔ M.Holds y ∧ σ = e.site y.triple := by
  have hstates : (∃ f ∈ e.imageWith M R, States y.triple σ f) ↔
      (∃ A, M[y.triple]? = some A) ∧ σ = e.site y.triple := by
    constructor
    · rintro ⟨f, ⟨u, A, hA, hf⟩ | hf, h⟩
      · obtain ⟨rfl, rfl⟩ := hf.states hv h
        exact ⟨⟨A, hA⟩, rfl⟩
      · exact absurd h (states_spare hv hf)
    · rintro ⟨⟨A, hA⟩, hσ⟩
      obtain ⟨f, hf, h⟩ := e.exists_depicts_states y.triple A
      exact ⟨f, .inl ⟨_, A, hA, hf⟩, hσ ▸ h⟩
  have hplaces : ∀ c, (∃ f ∈ e.imageWith M R, Places e.vocabulary y.triple c σ f) ↔
      σ = e.site y.triple ∧ ∃ A, M[y.triple]? = some A ∧ c ∈ A := by
    intro c
    constructor
    · rintro ⟨f, ⟨u, A, hA, hf⟩ | hf, h⟩
      · obtain ⟨rfl, rfl, hc⟩ := hf.places hv h
        exact ⟨rfl, A, hA, hc⟩
      · exact absurd h (places_spare hv hf)
    · rintro ⟨hσ, A, hA, hc⟩
      obtain ⟨f, hf, h⟩ := e.exists_depicts_places y.triple hc
      exact ⟨f, .inl ⟨_, A, hA, hf⟩, hσ ▸ h⟩
  constructor
  · rintro ⟨hthere, hlisted⟩
    obtain ⟨⟨A, hA⟩, hσ⟩ := hstates.1 hthere
    refine ⟨?_, hσ⟩
    have hcontexts : y.contexts = A := by
      ext c
      rw [hlisted, hplaces]
      simp [hσ, hA]
    rw [Dataset.Holds, hcontexts, hA]
  · rintro ⟨hy, hσ⟩
    refine ⟨hstates.2 ⟨⟨_, hy⟩, hσ⟩, fun c => ?_⟩
    rw [hplaces]
    have hy' : M[y.triple]? = some y.contexts := hy
    simp [hσ, hy']

end Encoder

end QuadStore
