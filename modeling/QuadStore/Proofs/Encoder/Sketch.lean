import Mathlib
import QuadStore.Proofs.Encoder.Drawing
/-!
# The fragment of a statement

Every layout draws the parts that a triple needs, with the contents and strokes of its form.
-/

namespace QuadStore

namespace Node

variable {n : Node}

theorem content_addProperties {entries : List Entry} : (n.addProperties entries).content =
    { n.content with properties := n.content.properties.insertMany entries } :=
  rfl

theorem content_addGuarded {values : List GuardedValue} :
    (n.addGuarded values).content = { n.content with guarded := n.content.guarded ++ values } :=
  rfl

theorem content_addIndex {entries : List IndexEntry} :
    (n.addIndex entries).content = { n.content with index := n.content.index ++ entries } :=
  rfl

theorem content_addFulltext {entries : List FulltextEntry} :
    (n.addFulltext entries).content = { n.content with fulltext := n.content.fulltext ++ entries } :=
  rfl

end Node

namespace Layout

variable {l : Layout}

def graphSet (l : Layout) (key : String) : EntrySet := (∅ : EntrySet).insertMany (l.graphEntries key)

def relationContent (l : Layout) (policy : Policy) : Content where
  index :=
    if policy.findsByContext then
      l.contextIndex (.whenNoEdgeProperty l.label l.vocabulary.contextsKey)
    else []

def propertyContent (l : Layout) (literal : Literal) (indexed : Bool) : Content where
  properties := l.graphSet (l.vocabulary.contextsKeyOf l.predicate literal.encode)
  guarded := [⟨⟨l.label, literal.encode⟩, l.vocabulary.contextsKeyOf l.predicate literal.encode⟩]
  index := l.literalIndex literal (.whenNoProperty none)
  fulltext := l.fulltext literal indexed

def heldIndex (l : Layout) (object : Value) : List IndexEntry :=
  object.literal?.elim [] (l.literalIndex · .withVertex)

def heldTexts (l : Layout) (object : Value) (indexed : Bool) : List FulltextEntry :=
  object.literal?.elim [] (l.fulltext · indexed)

def heldContent (l : Layout) (object : Value) (indexed : Bool) : Content where
  index := l.heldIndex object
  fulltext := l.heldTexts object indexed

def recordingContent (l : Layout) (object : Value) (indexed : Bool) : Content where
  properties := l.graphSet l.vocabulary.contextsKey
  index := l.contextIndex (.whenNoProperty (some l.vocabulary.contextsKey)) ++ l.heldIndex object
  fulltext := l.heldTexts object indexed

def structuralStroke (l : Layout) (source target : Part) : Stroke :=
  ⟨⟨source, l.label, target⟩, .structural, ∅⟩

end Layout

namespace Vocabulary

/-- The stroke to the vertex of a named graph. -/
def contextStroke (v : Vocabulary) (middle : Part) (c : Uri) : Stroke :=
  ⟨⟨middle, v.contextEdgeLabel, .resource (.uri c)⟩, .context, ∅⟩

end Vocabulary

namespace Encoder

variable {e : Encoder} {t : Triple} {C : UriSet}

def layoutOf (e : Encoder) (t : Triple) (C : UriSet) : Layout :=
  ⟨e.vocabulary, t.predicate, C.toList⟩

/-- What the node of a part holds. -/
def contentOf (e : Encoder) (t : Triple) (C : UriSet) (p : Part) : Content :=
  match e.form t with
  | .relation _ =>
    if p = .resource t.subject then (e.layoutOf t C).relationContent e.policy else {}
  | .property literal =>
    if p = .resource t.subject then
      (e.layoutOf t C).propertyContent literal (e.fulltext.covers t.predicate)
    else {}
  | .quad object =>
    if p = .literal t then (e.layoutOf t C).heldContent object (e.fulltext.covers t.predicate)
    else {}
  | .recording object =>
    if e.middle? t = some p then
      (e.layoutOf t C).recordingContent object (e.fulltext.covers t.predicate)
    else {}

/-- The strokes through the middle vertex. -/
def throughStrokes (e : Encoder) (t : Triple) (C : UriSet) : List Stroke :=
  (e.middle? t).toList.flatMap fun m =>
    (e.layoutOf t C).structuralStroke (.resource t.subject) m ::
      (e.target? t).toList.map ((e.layoutOf t C).structuralStroke m)

/-- The edges of the fragment of a triple. -/
def strokesOf (e : Encoder) (t : Triple) (C : UriSet) : List Stroke :=
  match e.form t with
  | .relation object =>
    [⟨⟨.resource t.subject, t.predicate.text, .resource object⟩, .relation,
      (e.layoutOf t C).graphSet e.vocabulary.contextsKey⟩]
  | .property _ => []
  | .quad _ => e.throughStrokes t C ++ C.toList.map (e.vocabulary.contextStroke (.middle t))
  | .recording _ => e.throughStrokes t C

end Encoder

namespace Fragment

variable {f : Fragment} {l : Layout} {t : Triple} {content : Part → Content} {parts : List Part}
  {strokes : List Stroke} {i j k : Nat} {p q : Part}

theorem modify_last {α : Type} (change : α → α) (xs : List α) (x : α) :
    (xs ++ [x]).modify xs.length change = xs ++ [change x] := by
  induction xs with
  | nil => rfl
  | cons y xs ih => simpa using ih

namespace Draws

/-- The last stroke takes properties. -/
theorem modifyEdge {x : FragmentEdge} {edges : List FragmentEdge} {s : Stroke} {v : Vocabulary}
    (entries : List Entry) (h : f.Draws v t content parts (strokes ++ [s]))
    (hedges : f.edges = edges ++ [x]) :
    (f.modifyEdge edges.length (·.addProperties entries)).Draws v t content parts
      (strokes ++ [{ s with properties := s.properties.insertMany entries }]) := by
  have hmodified : (f.modifyEdge edges.length (·.addProperties entries)).edges =
      edges ++ [x.addProperties entries] := by
    simp only [Fragment.modifyEdge, hedges]
    exact modify_last _ edges x
  have hstrokes := h.strokes
  rw [hedges, List.map_append, List.map_singleton] at hstrokes
  obtain ⟨hfirst, hlast⟩ := List.append_inj' hstrokes rfl
  refine ⟨h.nodup, h.length, h.node, ?_, fun y hy => ?_⟩
  · rw [hmodified, List.map_append, hfirst, ← List.singleton_inj.1 hlast]
    rfl
  · rw [hmodified, List.mem_append, List.mem_singleton] at hy
    obtain hy | rfl := hy
    · exact h.ends y (by simp [hedges, hy])
    · exact h.ends x (by simp [hedges])

/-- A direct edge is a relation that lists the named graphs. -/
theorem direct (h : f.Draws l.vocabulary t content parts []) (hi : parts[i]? = some p)
    (hj : parts[j]? = some q) :
    ∃ f', l.direct f i j = .ok f' ∧ f'.Draws l.vocabulary t content parts
      [⟨⟨p, l.label, q⟩, .relation, l.graphSet l.vocabulary.contextsKey⟩] := by
  obtain ⟨f', hadd, hedges, hdraws⟩ :=
    h.addEdge_new l.label .relation hi hj (by simp)
  refine ⟨_, ?_, hdraws.modifyEdge (l.graphEntries l.vocabulary.contextsKey) hedges⟩
  simp only [Layout.direct, hadd, bind, Except.bind, pure, Except.pure]

/-- Edges go through the middle vertex. -/
theorem through {m : Part} (h : f.Draws l.vocabulary t content parts [])
    (hi : parts[i]? = some p) (hk : parts[k]? = some m) (hj : parts[j]? = some q) (hne : p ≠ m) :
    ∃ f', l.through f i k j = .ok f' ∧ f'.Draws l.vocabulary t content parts
      [l.structuralStroke p m, l.structuralStroke m q] := by
  obtain ⟨f₁, hadd₁, -, h₁⟩ :=
    h.addEdge_new l.label .structural hi hk (by simp)
  obtain ⟨f₂, hadd₂, -, h₂⟩ := h₁.addEdge_new l.label .structural hk hj
    (by simp [hne])
  refine ⟨f₂, ?_, h₂⟩
  simp only [Layout.through, hadd₁, hadd₂, bind, Except.bind, pure, Except.pure]

/-- An edge leads from the middle vertex to every named graph. -/
theorem linkContexts {graphs : List Uri} {v : Vocabulary} (predicate : Uri)
    (h : f.Draws v t content parts strokes) (honce : KeyedOnce v.identity)
    (hi : parts[i]? = some p) (hnodup : graphs.Nodup)
    (hnew : ∀ g ∈ graphs, ∀ x ∈ strokes, x.bond ≠ ⟨p, v.contextEdgeLabel, .resource (.uri g)⟩)
    (hcontent : ∀ r, content (.resource r) = {}) (hsubject : .resource t.subject ∈ parts)
    (hobject : ∀ r, t.object = .resource r → .resource r ∈ parts) :
    ∃ (f' : Fragment) (parts' : List Part),
      Layout.linkContexts ⟨v, predicate, graphs⟩ f i = .ok f' ∧
      f'.Draws v t content parts'
        (strokes ++ graphs.map (v.contextStroke p)) ∧
      ∀ q, q ∈ parts' ↔ q ∈ parts ∨ ∃ g ∈ graphs, q = .resource (.uri g) := by
  induction graphs generalizing f parts strokes with
  | nil => exact ⟨f, parts, rfl, by simpa using h, by simp⟩
  | cons g graphs ih =>
    obtain ⟨hg, hnodup⟩ := List.nodup_cons.1 hnodup
    have hnewPart : .resource (.uri g) ∉ parts → true → t.OnlyContext (.resource (.uri g)) :=
      fun hmem _ => ⟨_, rfl, fun heq => hmem (heq ▸ hsubject), fun heq => hmem (hobject _ heq)⟩
    obtain ⟨j, f₁, more, hadd, -, hj, hparts, h₁⟩ := h.addResource (.uri g) .context true
      honce (by decide) (hcontent _) (fun _ => rfl) hnewPart
    have hkeep : ∀ {k : Nat} {q : Part}, parts[k]? = some q → (parts ++ more)[k]? = some q :=
      fun hk => by rw [List.getElem?_append_left (List.getElem?_eq_some_iff.1 hk).1, hk]
    obtain ⟨f₂, hedge, -, h₂⟩ := h₁.addEdge_new v.contextEdgeLabel .context
      (hkeep hi) hj
      (hnew g (List.mem_cons_self ..))
    have hrestNew : ∀ c ∈ graphs, ∀ x ∈ strokes ++ [v.contextStroke p g],
        x.bond ≠ ⟨p, v.contextEdgeLabel, .resource (.uri c)⟩ := by
      intro c hc x hx
      obtain hx | hx := List.mem_append.1 hx
      · exact hnew c (List.mem_cons_of_mem _ hc) x hx
      · rw [List.mem_singleton.1 hx]
        intro heq
        simp only [Vocabulary.contextStroke, Bond.mk.injEq, Part.resource.injEq,
          Resource.uri.injEq, true_and] at heq
        exact hg (heq ▸ hc)
    obtain ⟨f₃, parts', hrest, h₃, hparts'⟩ := ih h₂ (hkeep hi) hnodup hrestNew
      (by simp [hsubject]) (fun r hr => by simp [hobject r hr])
    refine ⟨f₃, parts', ?_, by rwa [List.append_assoc] at h₃, fun q => ?_⟩
    · simp only [Layout.linkContexts, List.foldlM_cons, hadd, hedge, bind, Except.bind]
      exact hrest
    · simp only [hparts', hparts, List.mem_cons, exists_eq_or_imp, or_assoc]

/-! ## The nodes every layout starts with -/

theorem subject (content : Part → Content) (honce : KeyedOnce l.vocabulary.identity)
    (hsubject : content (.resource t.subject) = {}) :
    ∃ (i : Nat) (f : Fragment) (parts : List Part),
      Fragment.empty.addNode (l.vocabulary.nodeOfResource t.subject .subject) = (i, f) ∧
      parts[i]? = some (.resource t.subject) ∧ (∀ p, p ∈ parts ↔ p = .resource t.subject) ∧
      f.Draws l.vocabulary t content parts [] := by
  have hempty : Fragment.empty.Draws l.vocabulary t content [] [] := empty
  obtain ⟨i, f, parts, hadd, -, hi, hparts, hdraws⟩ := hempty.addResource t.subject .subject false
    honce (by decide) hsubject (by simp [Triple.OnlyContext]) (by simp)
  exact ⟨i, f, parts, hadd, hi, by simpa using hparts, hdraws⟩

theorem subjectObject {r : Resource} (content : Part → Content) (tag : Tag)
    (honce : KeyedOnce l.vocabulary.identity) (hr : t.object = .resource r) (htag : tag ≠ .middle)
    (hcontent : ∀ s, content (.resource s) = {}) :
    ∃ (i j : Nat) (f f' : Fragment) (parts : List Part),
      Fragment.empty.addNode (l.vocabulary.nodeOfResource t.subject .subject) = (i, f) ∧
      f.addNode (l.vocabulary.nodeOfResource r tag) = (j, f') ∧
      parts[i]? = some (.resource t.subject) ∧ parts[j]? = some (.resource r) ∧
      (∀ p, p ∈ parts ↔ p = .resource t.subject ∨ p = .resource r) ∧
      f'.Draws l.vocabulary t content parts [] := by
  obtain ⟨i, f, parts, hadd, hi, hparts, hdraws⟩ :=
    subject (t := t) content honce (hcontent _)
  obtain ⟨j, f', more, hadd', -, hj, hparts', hdraws'⟩ := hdraws.addResource r tag false honce htag
    (hcontent _) (by simp [Triple.OnlyContext, hr]) (by simp)
  refine ⟨i, j, f, f', parts ++ more, hadd, hadd', ?_, hj, by simpa [hparts] using hparts', hdraws'⟩
  rw [List.getElem?_append_left (List.getElem?_eq_some_iff.1 hi).1, hi]

end Draws

end Fragment

namespace Encoder

variable {f : Fragment} {e : Encoder} {t : Triple} {C : UriSet} {parts : List Part}

/-- The fragment draws what a triple in these named graphs needs. -/
structure Sketches (e : Encoder) (t : Triple) (C : UriSet) (f : Fragment) (parts : List Part) :
    Prop where
  draws : f.Draws e.vocabulary t (e.contentOf t C) parts (e.strokesOf t C)
  needs : ∀ p, p ∈ parts ↔ e.Needs t C p

theorem type_sketches {r : Resource} (tag : Tag) (hv : e.vocabulary.Valid)
    (hform : e.form t = .relation r) (htag : tag ≠ .middle) :
    ∃ (i j : Nat) (f f' f'' : Fragment) (parts : List Part),
      Fragment.empty.addNode (e.vocabulary.nodeOfResource t.subject .subject) = (i, f) ∧
      f.addNode (e.vocabulary.nodeOfResource r tag) = (j, f') ∧
      (e.layoutOf t C).type e.policy f' i j = .ok f'' ∧ e.Sketches t C f'' parts := by
  obtain ⟨i, j, f, f', parts, hadd, hadd', hi, hj, hparts, hdraws⟩ :=
    Fragment.Draws.subjectObject (l := e.layoutOf t C) (fun _ => {}) tag hv.keyedOnce
      (object_of_form hform) htag fun _ => rfl
  obtain ⟨f₁, hdirect, h₁⟩ := hdraws.direct hi hj
  have hneeds : ∀ p, p ∈ parts ↔ e.Needs t C p := fun p => by
    simp [hparts, needs_iff, middle?, target?, hform, object_of_form hform, Form.object]
  have hstrokes : e.strokesOf t C = [⟨⟨.resource t.subject, t.predicate.text, .resource r⟩,
      .relation, (e.layoutOf t C).graphSet e.vocabulary.contextsKey⟩] := by
    simp only [strokesOf, hform]
  have hcontent : e.contentOf t C = fun p =>
      if p = .resource t.subject then (e.layoutOf t C).relationContent e.policy else {} := by
    funext p
    simp only [contentOf, hform]
  by_cases hfinds : e.policy.findsByContext
  · have hmodified := h₁.modifyNode (e.contentOf t C) (·.addIndex ((e.layoutOf t C).contextIndex
      (.whenNoEdgeProperty (e.layoutOf t C).label e.vocabulary.contextsKey))) hi
      (fun n hn => ⟨hn.identity, ?_, hn.optional, hn.middle⟩) fun q hq => by
        rw [hcontent]
        exact if_neg hq
    · refine ⟨i, j, f, f', _, parts, hadd, hadd', ?_, hstrokes ▸ hmodified, hneeds⟩
      simp only [Layout.type, hdirect, bind, Except.bind, hfinds, if_true]
      rfl
    · rw [hcontent, Node.content_addIndex, hn.content]
      simp only [if_true, Layout.relationContent, hfinds, List.nil_append]
      rfl
  · refine ⟨i, j, f, f', f₁, parts, hadd, hadd', ?_, ?_, hneeds⟩
    · simp only [Layout.type, hdirect, bind, Except.bind, hfinds]
      rfl
    · have hnone : e.contentOf t C = fun _ => {} := by
        rw [hcontent]
        funext p
        simp only [Layout.relationContent, hfinds]
        split <;> rfl
      rw [hnone, hstrokes]
      exact h₁

theorem denseLiteral_sketches {literal : Literal} (hv : e.vocabulary.Valid)
    (hform : e.form t = .property literal) :
    ∃ (i : Nat) (f : Fragment) (parts : List Part),
      Fragment.empty.addNode (e.vocabulary.nodeOfResource t.subject .subject) = (i, f) ∧
      e.Sketches t C ((e.layoutOf t C).denseLiteral f i literal (e.fulltext.covers t.predicate))
        parts := by
  obtain ⟨i, f, parts, hadd, hi, hparts, hdraws⟩ := Fragment.Draws.subject (l := e.layoutOf t C)
    (t := t) (fun _ => {}) hv.keyedOnce rfl
  have hcontent : e.contentOf t C = fun p =>
      if p = .resource t.subject then
        (e.layoutOf t C).propertyContent literal (e.fulltext.covers t.predicate)
      else {} := by
    funext p
    simp only [contentOf, hform]
  have hself : e.contentOf t C (.resource t.subject) =
      (e.layoutOf t C).propertyContent literal (e.fulltext.covers t.predicate) := by
    rw [hcontent]
    exact if_pos rfl
  have hstrokes : e.strokesOf t C = [] := by simp only [strokesOf, hform]
  refine ⟨i, f, parts, hadd, hstrokes ▸ hdraws.modifyNode _ _ hi (fun n hn => ?_) (fun q hq => ?_),
    fun p => ?_⟩
  · refine ⟨hn.identity, ?_, hn.optional, hn.middle⟩
    rw [hself, Node.content_addFulltext, Node.content_addIndex, Node.content_addGuarded,
      Node.content_addProperties, hn.content]
    rfl
  · rw [hcontent]
    exact if_neg hq
  · simp [hparts, needs_iff, middle?, target?, hform, object_of_form hform, Form.object]

/-- The edges around a middle vertex complete the fragment. -/
theorem quad_sketches {o : Value} {q : Part} {i j k : Nat} (hv : e.vocabulary.Valid)
    (hform : e.form t = .quad o) (htarget : e.target? t = some q)
    (hdraws : f.Draws e.vocabulary t (e.contentOf t C) parts [])
    (hi : parts[i]? = some (.resource t.subject)) (hj : parts[j]? = some q)
    (hk : parts[k]? = some (.middle t))
    (hparts : ∀ p, p ∈ parts ↔ p = .resource t.subject ∨
      (∃ r, t.object = .resource r ∧ p = .resource r) ∨ p = .middle t ∨ p = q) :
    ∃ (f' : Fragment) (parts' : List Part), (do
        let f ← (e.layoutOf t C).through f i k j
        (e.layoutOf t C).linkContexts f k) = .ok f' ∧ e.Sketches t C f' parts' := by
  have hmiddle : e.middle? t = some (.middle t) := by simp only [middle?, hform]
  obtain ⟨f₁, hthrough, h₁⟩ := Fragment.Draws.through (l := e.layoutOf t C) hdraws hi hk hj (by simp)
  have hlabel : t.predicate.text ≠ e.vocabulary.contextEdgeLabel :=
    hv.text_ne _ (Vocabulary.contextEdgeLabel_mem _)
  have hnew : ∀ c ∈ C.toList, ∀ x ∈ [(e.layoutOf t C).structuralStroke (.resource t.subject)
      (.middle t), (e.layoutOf t C).structuralStroke (.middle t) q],
      x.bond ≠ ⟨.middle t, e.vocabulary.contextEdgeLabel, .resource (.uri c)⟩ := by
    intro c _ x hx heq
    have hbond := congrArg Bond.label heq
    simp only [List.mem_cons, List.not_mem_nil, or_false] at hx
    obtain rfl | rfl := hx <;> exact hlabel hbond
  have hcontent : ∀ r, e.contentOf t C (.resource r) = {} := fun r => by
    simp only [contentOf, hform, reduceCtorEq, if_false]
  have hobject : ∀ r, t.object = .resource r → .resource r ∈ parts := fun r hr => by
    simp [hparts, hr]
  obtain ⟨f₂, parts', hlink, h₂, hparts'⟩ := Fragment.Draws.linkContexts t.predicate h₁
    hv.keyedOnce hk set_nodup_toList hnew hcontent (by simp [hparts]) hobject
  refine ⟨f₂, parts', ?_, ?_, fun p => ?_⟩
  · rw [hthrough]
    exact hlink
  · have hstrokes : e.strokesOf t C = [(e.layoutOf t C).structuralStroke (.resource t.subject)
        (.middle t), (e.layoutOf t C).structuralStroke (.middle t) q] ++
        C.toList.map (e.vocabulary.contextStroke (.middle t)) := by
      simp [strokesOf, throughStrokes, hmiddle, htarget, hform]
    rw [hstrokes]
    exact h₂
  · simp only [hparts', hparts, needs_iff, hmiddle, htarget, hform, Option.some.injEq,
      Std.ExtTreeSet.mem_toList, Form.quad.injEq, exists_eq', true_and, or_assoc, @eq_comm _ p]

theorem getElem?_append_some {α : Type} {xs ys : List α} {i : Nat} {a : α} (h : xs[i]? = some a) :
    (xs ++ ys)[i]? = some a := by
  rw [List.getElem?_append_left (List.getElem?_eq_some_iff.1 h).1, h]

theorem standsFor_middle {o : Value} (hform : e.form t = .quad o) :
    Fragment.StandsFor e.vocabulary t (e.contentOf t C) (.middle t)
      (e.vocabulary.nodeOfMiddle none) where
  identity := rfl
  content := by
    simp only [contentOf, hform, reduceCtorEq, if_false]
    rfl
  optional := by simp [Triple.OnlyContext, Vocabulary.nodeOfMiddle, Node.unkeyed]
  middle := by simp [Part.IsMiddle, Vocabulary.nodeOfMiddle, Node.unkeyed, Node.hasTag]

theorem quadObject_sketches {r : Resource} (hv : e.vocabulary.Valid)
    (hform : e.form t = .quad (.resource r)) :
    ∃ (i j : Nat) (f f' f'' : Fragment) (parts : List Part),
      Fragment.empty.addNode (e.vocabulary.nodeOfResource t.subject .subject) = (i, f) ∧
      f.addNode (e.vocabulary.nodeOfResource r .object) = (j, f') ∧
      (e.layoutOf t C).quadObject f' i j = .ok f'' ∧ e.Sketches t C f'' parts := by
  have hcontent : ∀ s, e.contentOf t C (.resource s) = {} := fun s => by
    simp only [contentOf, hform, reduceCtorEq, if_false]
  obtain ⟨i, j, f, f', parts, hadd, hadd', hi, hj, hparts, hdraws⟩ :=
    Fragment.Draws.subjectObject (l := e.layoutOf t C) _ .object hv.keyedOnce
      (object_of_form hform) (by decide) hcontent
  obtain ⟨hk, h₁⟩ := hdraws.addNode_new hv.keyedOnce (by simp [hparts]) (standsFor_middle hform)
  obtain ⟨f₂, parts', hrun, h₂⟩ := quad_sketches (q := .resource r) (k := parts.length) hv hform
    (by simp only [target?, hform]) h₁ (getElem?_append_some hi) (getElem?_append_some hj) (by simp)
    fun p => by
      simp only [List.mem_append, hparts, List.mem_singleton, object_of_form hform, Form.object,
        Value.resource.injEq, exists_eq_left', or_assoc]
      tauto
  rw [← hk] at hrun
  exact ⟨i, j, f, f', f₂, parts', hadd, hadd', hrun, h₂⟩

theorem quadLiteral_sketches {literal : Literal} (hv : e.vocabulary.Valid)
    (hform : e.form t = .quad (.literal literal)) :
    ∃ (i : Nat) (f f' : Fragment) (parts : List Part),
      Fragment.empty.addNode (e.vocabulary.nodeOfResource t.subject .subject) = (i, f) ∧
      (e.layoutOf t C).quadLiteral f i literal (e.fulltext.covers t.predicate) = .ok f' ∧
      e.Sketches t C f' parts := by
  have hcontent : e.contentOf t C (.resource t.subject) = {} := by
    simp only [contentOf, hform, reduceCtorEq, if_false]
  obtain ⟨i, f, parts, hadd, hi, hparts, hdraws⟩ := Fragment.Draws.subject (l := e.layoutOf t C)
    _ hv.keyedOnce hcontent
  obtain ⟨hk, h₁⟩ := hdraws.addNode_new hv.keyedOnce (by simp [hparts]) (standsFor_middle hform)
  have hliteral : Fragment.StandsFor e.vocabulary t (e.contentOf t C) (.literal t)
      (((e.vocabulary.nodeOfLiteral literal).addIndex ((e.layoutOf t C).literalIndex literal
        .withVertex)).addFulltext ((e.layoutOf t C).fulltext literal
          (e.fulltext.covers t.predicate))) := by
    refine ⟨?_, ?_, ?_, ?_⟩
    · simp only [Vocabulary.identity, object_of_form hform, Form.object, Value.literal?]
      rfl
    · simp only [contentOf, hform, if_true]
      rfl
    · simp [Triple.OnlyContext, Vocabulary.nodeOfLiteral, Node.unkeyed, Node.addIndex,
        Node.addFulltext]
    · simp [Part.IsMiddle, Vocabulary.nodeOfLiteral, Node.unkeyed, Node.hasTag, Node.addIndex,
        Node.addFulltext]
  obtain ⟨hj, h₂⟩ := h₁.addNode_new hv.keyedOnce (by simp [hparts]) hliteral
  obtain ⟨f₃, parts', hrun, h₃⟩ := quad_sketches (q := .literal t)
    (j := (parts ++ [Part.middle t]).length) (k := parts.length) hv hform
    (by simp only [target?, hform]) h₂ (getElem?_append_some (getElem?_append_some hi))
    (by simp) (by simp) fun p => by
      simp only [List.mem_append, hparts, List.mem_singleton, object_of_form hform, Form.object,
        reduceCtorEq, false_and, exists_false, false_or, or_assoc]
  rw [← hk, ← hj] at hrun
  exact ⟨i, f, f₃, parts', hadd, hrun, h₃⟩

theorem middleObject_sketches {r : Resource} (hv : e.vocabulary.Valid)
    (hform : e.form t = .recording (.resource r)) :
    ∃ (i j : Nat) (f f' f'' : Fragment) (parts : List Part),
      Fragment.empty.addNode (e.vocabulary.nodeOfResource t.subject .subject) = (i, f) ∧
      f.addNode (e.vocabulary.nodeOfResource r .object) = (j, f') ∧
      (e.layoutOf t C).middleObject f' i j = .ok f'' ∧ e.Sketches t C f'' parts := by
  have hmiddle : e.middle? t = some (.middle t) := by simp only [middle?, hform]
  have htarget : e.target? t = some (.resource r) := by simp only [target?, hform]
  have hcontent : ∀ s, e.contentOf t C (.resource s) = {} := fun s => by
    simp [contentOf, hform, hmiddle]
  obtain ⟨i, j, f, f', parts, hadd, hadd', hi, hj, hparts, hdraws⟩ :=
    Fragment.Draws.subjectObject (l := e.layoutOf t C) _ .object hv.keyedOnce
      (object_of_form hform) (by decide) hcontent
  have hstands : Fragment.StandsFor e.vocabulary t (e.contentOf t C) (.middle t)
      ((e.layoutOf t C).recordingNode none) := by
    refine ⟨rfl, ?_, ?_, ?_⟩
    · rw [Layout.recordingNode, Node.content_addIndex, Node.content_addProperties]
      simp only [contentOf, hform, hmiddle, if_true, Layout.recordingContent, Layout.heldIndex,
        Layout.heldTexts, Value.literal?, Option.elim_none, List.append_nil]
      rfl
    · simp [Triple.OnlyContext, Layout.recordingNode, Vocabulary.nodeOfMiddle, Node.unkeyed,
        Node.addIndex, Node.addProperties]
    · simp [Part.IsMiddle, Layout.recordingNode, Vocabulary.nodeOfMiddle, Node.unkeyed,
        Node.hasTag, Node.addIndex, Node.addProperties]
  obtain ⟨hk, h₁⟩ := hdraws.addNode_new hv.keyedOnce (by simp [hparts]) hstands
  obtain ⟨f₂, hthrough, h₂⟩ := h₁.through (l := e.layoutOf t C)
    (getElem?_append_some hi) List.getElem?_concat_length (getElem?_append_some hj) (by simp)
  rw [← hk] at hthrough
  refine ⟨i, j, f, f', f₂, parts ++ [.middle t], hadd, hadd', hthrough, ?_, fun p => ?_⟩
  · have hstrokes : e.strokesOf t C = [(e.layoutOf t C).structuralStroke (.resource t.subject)
        (.middle t), (e.layoutOf t C).structuralStroke (.middle t) (.resource r)] := by
      simp [strokesOf, throughStrokes, hmiddle, htarget, hform]
    rw [hstrokes]
    exact h₂
  · simp only [List.mem_append, hparts, List.mem_singleton, needs_iff, hmiddle, htarget,
      object_of_form hform, Form.object, Value.resource.injEq, exists_eq_left', hform,
      Option.some.injEq, reduceCtorEq, exists_false, false_and, and_false, or_false,
      @eq_comm _ (Part.middle t), @eq_comm _ (Part.resource r)]
    tauto

theorem middleLiteral_sketches {literal : Literal} (hv : e.vocabulary.Valid)
    (hform : e.form t = .recording (.literal literal)) :
    ∃ (i : Nat) (f f' : Fragment) (parts : List Part),
      Fragment.empty.addNode (e.vocabulary.nodeOfResource t.subject .subject) = (i, f) ∧
      (e.layoutOf t C).middleLiteral f i literal (e.fulltext.covers t.predicate) = .ok f' ∧
      e.Sketches t C f' parts := by
  have hmiddle : e.middle? t = some (.holder t) := by simp only [middle?, hform]
  have htarget : e.target? t = none := by simp only [target?, hform]
  have hcontent : e.contentOf t C (.resource t.subject) = {} := by
    simp [contentOf, hform, hmiddle]
  obtain ⟨i, f, parts, hadd, hi, hparts, hdraws⟩ := Fragment.Draws.subject (l := e.layoutOf t C)
    _ hv.keyedOnce hcontent
  have hstands : Fragment.StandsFor e.vocabulary t (e.contentOf t C) (.holder t)
      ((((e.layoutOf t C).recordingNode (some literal)).addIndex ((e.layoutOf t C).literalIndex
        literal .withVertex)).addFulltext ((e.layoutOf t C).fulltext literal
          (e.fulltext.covers t.predicate))) := by
    refine ⟨?_, ?_, ?_, ?_⟩
    · simp only [Vocabulary.identity, object_of_form hform, Form.object, Value.literal?]
      rfl
    · rw [Node.content_addFulltext, Node.content_addIndex, Layout.recordingNode,
        Node.content_addIndex, Node.content_addProperties]
      simp only [contentOf, hform, hmiddle, if_true, Layout.recordingContent, Layout.heldIndex,
        Layout.heldTexts, Value.literal?, Option.elim_some]
      rfl
    · simp [Triple.OnlyContext, Layout.recordingNode, Vocabulary.nodeOfMiddle, Node.unkeyed,
        Node.addIndex, Node.addProperties, Node.addFulltext]
    · simp [Part.IsMiddle, Layout.recordingNode, Vocabulary.nodeOfMiddle, Node.unkeyed,
        Node.hasTag, Node.addIndex, Node.addProperties, Node.addFulltext]
  obtain ⟨hk, h₁⟩ := hdraws.addNode_new hv.keyedOnce (by simp [hparts]) hstands
  obtain ⟨f₂, hedge, -, h₂⟩ := h₁.addEdge_new (e.layoutOf t C).label .structural
    (getElem?_append_some hi) List.getElem?_concat_length (by simp)
  rw [← hk] at hedge
  refine ⟨i, f, f₂, parts ++ [.holder t], hadd, ?_, ?_, fun p => ?_⟩
  · simp only [Layout.middleLiteral, bind, Except.bind]
    exact congrArg (fun x => x.bind fun y : Nat × Fragment => Except.ok y.2) hedge
  · have hstrokes : e.strokesOf t C = [(e.layoutOf t C).structuralStroke (.resource t.subject)
        (.holder t)] := by
      simp [strokesOf, throughStrokes, hmiddle, htarget, hform]
    rw [hstrokes]
    exact h₂
  · simp only [List.mem_append, hparts, List.mem_singleton, needs_iff, hmiddle, htarget,
      object_of_form hform, Form.object, hform, Option.some.injEq, reduceCtorEq, exists_false,
      false_and, and_false, or_false, false_or, @eq_comm _ (Part.holder t)]

theorem type_dense {f : Fragment} {l : Layout} {i j : Nat} :
    l.type .dense f i j = l.direct f i j := by
  simp only [Layout.type, Policy.findsByContext]
  cases l.direct f i j <;> rfl

/-- Every statement has a fragment, and it draws the triple as it is stored. -/
theorem fragment_sketches (hv : e.vocabulary.Valid) (s : Statement) :
    ∃ f parts, e.fragment s = .ok f ∧ e.Sketches (e.classifyTriple s.triple) s.contexts f parts := by
  have hlayout : e.layout s = e.layoutOf (e.classifyTriple s.triple) s.contexts := rfl
  have hsubject : (e.classifyTriple s.triple).subject = s.subject := rfl
  have hobject : (e.classifyTriple s.triple).object = e.classify s.predicate s.object := rfl
  have hpredicate : (e.classifyTriple s.triple).predicate = s.predicate := rfl
  unfold fragment
  rw [hlayout, ← hobject, ← hsubject, ← hpredicate]
  generalize e.classifyTriple s.triple = t
  generalize s.contexts = C
  cases ho : t.object with
  | resource r =>
    by_cases htype : t.predicate = e.vocabulary.typePredicate
    · have hform : e.form t = .relation r := by simp only [form, ho, htype, if_true]
      obtain ⟨i, j, f, f', f'', parts, hadd, hadd', hrun, h⟩ :=
        type_sketches (C := C) .class_ hv hform (by decide)
      refine ⟨f'', parts, ?_, h⟩
      simp only [hadd, hadd', htype, if_true, hrun]
    · cases hpolicy : e.policy with
      | dense =>
        have hform : e.form t = .relation r := by simp only [form, ho, htype, hpolicy, if_false]
        obtain ⟨i, j, f, f', f'', parts, hadd, hadd', hrun, h⟩ :=
          type_sketches (C := C) .object hv hform (by decide)
        rw [hpolicy, type_dense] at hrun
        refine ⟨f'', parts, ?_, h⟩
        simp only [hadd, hadd', htype, if_false, hrun]
      | verboseQuad =>
        have hform : e.form t = .quad (.resource r) := by
          simp only [form, ho, htype, hpolicy, if_false]
        obtain ⟨i, j, f, f', f'', parts, hadd, hadd', hrun, h⟩ := quadObject_sketches (C := C) hv hform
        refine ⟨f'', parts, ?_, h⟩
        simp only [hadd, hadd', htype, if_false, hrun]
      | alwaysMiddle =>
        have hform : e.form t = .recording (.resource r) := by
          simp only [form, ho, htype, hpolicy, if_false]
        obtain ⟨i, j, f, f', f'', parts, hadd, hadd', hrun, h⟩ :=
          middleObject_sketches (C := C) hv hform
        refine ⟨f'', parts, ?_, h⟩
        simp only [hadd, hadd', htype, if_false, hrun]
  | literal literal =>
    cases hpolicy : e.policy with
    | dense =>
      have hform : e.form t = .property literal := by simp only [form, ho, hpolicy]
      obtain ⟨i, f, parts, hadd, h⟩ := denseLiteral_sketches (C := C) hv hform
      refine ⟨_, parts, ?_, h⟩
      simp only [hadd]
    | verboseQuad =>
      have hform : e.form t = .quad (.literal literal) := by simp only [form, ho, hpolicy]
      obtain ⟨i, f, f', parts, hadd, hrun, h⟩ := quadLiteral_sketches (C := C) hv hform
      refine ⟨f', parts, ?_, h⟩
      simp only [hadd, hrun]
    | alwaysMiddle =>
      have hform : e.form t = .recording (.literal literal) := by simp only [form, ho, hpolicy]
      obtain ⟨i, f, f', parts, hadd, hrun, h⟩ := middleLiteral_sketches (C := C) hv hform
      refine ⟨f', parts, ?_, h⟩
      simp only [hadd, hrun]

end Encoder

end QuadStore
