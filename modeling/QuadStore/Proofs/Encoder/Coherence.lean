import Mathlib
import QuadStore.Proofs.Encoder.Adding
import QuadStore.Proofs.Fragment.Repeating
import QuadStore.Proofs.Graph.History
/-!
# Statements in graphs of any origin

The unkeyed nodes of a statement's fragment are the middle vertex and the literal vertex of its
triple. They differ in kind, and an edge leads from one to the other. So the fragment can be merged
into any graph, whoever wrote it, and is found there again.
-/

namespace QuadStore

namespace Vocabulary

variable {v : Vocabulary} {kind : String} {l : Option Literal}

/-- An identity names each key once. -/
theorem Valid.nodup_identityProperties (hv : v.Valid) :
    ((v.identityProperties kind l).map (·.1)).Nodup := by
  have hsub : ((v.identityProperties kind l).map (·.1)).Sublist v.identityKeys := by
    simp [identityProperties, identityKeys]
  exact (List.nodup_cons.1 hv.nodup_keys).2.sublist hsub

theorem kind_mem : (v.kindKey, some kind) ∈ v.identityProperties kind l := List.mem_cons_self ..

end Vocabulary

namespace Fragment

/-- No vertex has two kinds. -/
theorem kind_unique {g : Graph} {x : VertexId} {v : Vocabulary} {kind kind' : String}
    {l l' : Option Literal} (h : identityHolds g (.unkeyed (v.identityProperties kind l)) x)
    (h' : identityHolds g (.unkeyed (v.identityProperties kind' l')) x) : kind' = kind := by
  have hkind := (identityHolds_unkeyed.1 h _ Vocabulary.kind_mem kind).2 rfl
  exact Option.some.inj ((identityHolds_unkeyed.1 h' _ Vocabulary.kind_mem kind).1 hkind)

end Fragment

namespace Encoder

variable {e : Encoder} {t : Triple} {C : UriSet} {f : Fragment} {parts : List Part} {i j : Nat}
  {n m : Node} {p : Part} {entry : Entry} {y z : FragmentEdge}
  {properties : List (String × Option String)}

/-- Only contexts are written on the vertex of an unkeyed part. -/
theorem key_of_content (h : .property p entry ∈ (e.contentOf t C p).facts p)
    (hne : ∀ r, p ≠ .resource r) : entry.key = e.vocabulary.contextsKey := by
  unfold contentOf at h
  split at h
  · simp [hne, Content.facts_empty] at h
  · simp [hne, Content.facts_empty] at h
  · split at h
    · obtain ⟨_, -, heq⟩ := Layout.mem_heldContent.1 h
      cases heq
    · simp [Content.facts_empty] at h
  · split at h
    · obtain ⟨c, -, heq⟩ | ⟨c, -, heq⟩ | ⟨l, -, heq⟩ := Layout.mem_recordingContent.1 h
      · exact congrArg Entry.key (Fact.property.inj heq).2
      · cases heq
      · cases heq
    · simp [Content.facts_empty] at h

/-- The unkeyed parts of a triple are of different kinds. -/
theorem kind_ne_of_target {q : Part} {kind kind' : String} {l l' : Option Literal}
    (hm : e.middle? t = some p) (ho : e.target? t = some q) (hp : p.shape = some (kind, l))
    (hq : q.shape = some (kind', l')) : kind ≠ kind' := by
  have hliteral : kind' = literalKind := by
    obtain ⟨r, -, rfl⟩ | ⟨_, -, rfl⟩ := target_eq ho
    · cases hq
    · exact (Prod.mk.inj (Option.some.inj hq)).1.symm
  have hmiddle : kind = middleKind := by
    obtain ⟨-, rfl⟩ | ⟨-, rfl⟩ | ⟨-, rfl⟩ := middle_eq hm <;>
      exact (Prod.mk.inj (Option.some.inj hp)).1.symm
  rw [hmiddle, hliteral]
  decide

namespace Sketches

variable (h : e.Sketches t C f parts)

include h

/-- An unkeyed node is known by its kind and the literal it holds. -/
theorem identity_of_unkeyed (hn : f.nodes[i]? = some n) (hi : n.identity = .unkeyed properties) :
    ∃ kind l, (role t parts i).shape = some (kind, l) ∧
      properties = e.vocabulary.identityProperties kind l := by
  rw [(h.standsFor hn).identity] at hi
  cases hshape : (role t parts i).shape with
  | none =>
    obtain ⟨r, hr⟩ := Part.shape_eq_none.1 hshape
    rw [hr] at hi
    cases hi
  | some y =>
    rw [Part.identity_of_shape hshape] at hi
    exact ⟨y.1, y.2, rfl, (Identity.unkeyed.inj hi).symm⟩

/-- Of two unkeyed nodes one is the middle vertex and the other is what it leads to. -/
theorem unkeyed_pair (hn : f.nodes[i]? = some n) (hm : f.nodes[j]? = some m)
    (hk : n.isKeyed = false) (hk' : m.isKeyed = false) (hij : i ≠ j) :
    (e.middle? t = some (role t parts i) ∧ e.target? t = some (role t parts j)) ∨
      e.middle? t = some (role t parts j) ∧ e.target? t = some (role t parts i) := by
  have hi := (List.getElem?_eq_some_iff.1 hn).1
  have hj := (List.getElem?_eq_some_iff.1 hm).1
  have hne : role t parts i ≠ role t parts j := fun heq => hij (h.casts.injective i j hi hj heq)
  obtain hi' | hi' := unkeyed_needs (h.needs_role hi) (h.unkeyed_role hn hk).2 <;>
    obtain hj' | hj' := unkeyed_needs (h.needs_role hj) (h.unkeyed_role hm hk').2
  · exact absurd (Option.some.inj (hi'.symm.trans hj')) hne
  · exact .inl ⟨hi', hj'⟩
  · exact .inr ⟨hj', hi'⟩
  · exact absurd (Option.some.inj (hi'.symm.trans hj')) hne

theorem linked_of_target (hi : i < f.nodes.length) (hj : j < f.nodes.length)
    (hm : e.middle? t = some (role t parts i)) (ho : e.target? t = some (role t parts j)) :
    (∃ l ∈ f.links i, l.neighbour = j) ∧ ∃ l ∈ f.links j, l.neighbour = i := by
  obtain ⟨x, hx, hbond, hkind⟩ := h.leaving_edge hm ho
  obtain ⟨hsource, -, htarget⟩ := bond_label hbond
  obtain ⟨hslt, htlt⟩ := h.draws.ends x hx
  obtain rfl := h.casts.injective _ _ hslt hi hsource
  obtain rfl := h.casts.injective _ _ htlt hj htarget
  have hne : x.source ≠ x.target := fun heq => middle_ne_target hm ho (by rw [heq])
  have hlink : (⟨x.label, x.target, true⟩ : Fragment.Link) ∈ f.links x.source :=
    Fragment.mem_links.2 ⟨x, hx, by simp [Fragment.link?, hkind]⟩
  exact ⟨⟨_, hlink, rfl⟩, _, link_of_edge hx hkind hne, rfl⟩

theorem linked (hn : f.nodes[i]? = some n) (hm : f.nodes[j]? = some m) (hk : n.isKeyed = false)
    (hk' : m.isKeyed = false) (hij : i ≠ j) : ∃ l ∈ f.links i, l.neighbour = j := by
  have hi := (List.getElem?_eq_some_iff.1 hn).1
  have hj := (List.getElem?_eq_some_iff.1 hm).1
  obtain ⟨hmiddle, htarget⟩ | ⟨hmiddle, htarget⟩ := h.unkeyed_pair hn hm hk hk' hij
  · exact (h.linked_of_target hi hj hmiddle htarget).1
  · exact (h.linked_of_target hj hi hmiddle htarget).2

theorem conflict (hn : f.nodes[i]? = some n) (hm : f.nodes[j]? = some m) (hij : i ≠ j) (g : Graph)
    (v : VertexId) (hholds : Fragment.identityHolds g n.identity v) :
    ¬Fragment.identityHolds g m.identity v := by
  intro hholds'
  have hunkeyed : ∀ {n : Node}, Fragment.identityHolds g n.identity v →
      ∃ properties, n.identity = .unkeyed properties := fun {n} hholds => by
    cases hi : n.identity with
    | keyed entry => simp [hi, Fragment.identityHolds] at hholds
    | unkeyed properties => exact ⟨properties, rfl⟩
  obtain ⟨properties, hi⟩ := hunkeyed hholds
  obtain ⟨properties', hj⟩ := hunkeyed hholds'
  obtain ⟨kind, l, hshape, rfl⟩ := h.identity_of_unkeyed hn hi
  obtain ⟨kind', l', hshape', rfl⟩ := h.identity_of_unkeyed hm hj
  rw [hi] at hholds
  rw [hj] at hholds'
  have hsame := Fragment.kind_unique hholds hholds'
  have hk := Node.isKeyed_eq_false_iff.2 ⟨_, hi⟩
  have hk' := Node.isKeyed_eq_false_iff.2 ⟨_, hj⟩
  obtain ⟨hmiddle, htarget⟩ | ⟨hmiddle, htarget⟩ := h.unkeyed_pair hn hm hk hk' hij
  · exact kind_ne_of_target hmiddle htarget hshape hshape' hsame.symm
  · exact kind_ne_of_target hmiddle htarget hshape' hshape hsame

theorem apart (hv : e.vocabulary.Valid) (hn : f.nodes[i]? = some n) (hm : f.nodes[j]? = some m)
    (hi : n.identity = .unkeyed properties) (hk : m.isKeyed = false)
    {q : String × Option String} (hq : q ∈ properties) (value : String) (v : VertexId) :
    .property v ⟨q.1, value⟩ ∉ m.written v := by
  intro hwritten
  obtain ⟨kind, l, -, rfl⟩ := h.identity_of_unkeyed hn hi
  have hcontent : .property (role t parts j) ⟨q.1, value⟩ ∈
      (e.contentOf t C (role t parts j)).facts (role t parts j) := by
    rw [← (h.standsFor hm).content]
    rcases hwritten with ⟨entry, hentry, heq⟩ | ⟨x, hx, heq⟩ | ⟨x, hx, heq⟩
    · exact .inl ⟨entry, hentry, by rw [(Fact.property.inj heq).2]⟩
    · exact .inr (.inl ⟨x, hx, by rw [(Fact.property.inj heq).2]⟩)
    · cases heq
  have hkey := key_of_content hcontent (h.unkeyed_role hm hk).2
  exact hv.contextsKey_notMem (hkey ▸ Vocabulary.fst_mem_identityKeys (o := q.2) hq)

/-- An edge under the predicate of a structural edge is structural. -/
theorem labels (hv : e.vocabulary.Valid) (hy : y ∈ f.edges) (hz : z ∈ f.edges)
    (hkind : y.kind = .structural) (hlabel : z.label = y.label) : z.kind = .structural := by
  obtain ⟨p, hm, hbonds⟩ := h.structural hy hkind
  have hpredicate : y.label = t.predicate.text := by
    rcases hbonds with hbond | ⟨o, -, hbond⟩ <;> exact congrArg Bond.label hbond
  have hmem : Fragment.stroke (role t parts) z ∈ e.strokesOf t C := by
    rw [← h.draws.strokes]
    exact List.mem_map_of_mem hz
  have hthrough : Fragment.stroke (role t parts) z ∈ e.throughStrokes t C →
      z.kind = .structural := by
    intro hmem
    simp only [throughStrokes, List.mem_flatMap, Option.mem_toList, List.mem_cons,
      List.mem_map] at hmem
    obtain ⟨_, -, heq | ⟨o, -, heq⟩⟩ := hmem
    · exact congrArg Stroke.kind heq
    · exact (congrArg Stroke.kind heq).symm
  unfold strokesOf at hmem
  split at hmem
  · rename_i hform
    simp [middle?, hform] at hm
  · cases hmem
  · obtain hmem | hmem := List.mem_append.1 hmem
    · exact hthrough hmem
    · obtain ⟨c, -, heq⟩ := List.mem_map.1 hmem
      have hcontext : e.vocabulary.contextEdgeLabel = z.label :=
        congrArg (fun s => s.bond.label) heq
      exact absurd (hpredicate.symm.trans (hlabel.symm.trans hcontext.symm))
        (hv.text_ne _ (Vocabulary.contextEdgeLabel_mem _))
  · exact hthrough hmem

/-- A structural edge meets the node of the middle vertex. -/
theorem meets (hy : y ∈ f.edges) (hkind : y.kind = .structural) :
    ∃ (i : Nat) (n : Node), (y.source = i ∨ y.target = i) ∧ f.nodes[i]? = some n ∧
      n.isKeyed = false := by
  obtain ⟨p, hm, hbonds⟩ := h.structural hy hkind
  obtain ⟨hslt, htlt⟩ := h.draws.ends y hy
  have hunkeyed : ∀ (i : Nat) (hi : i < f.nodes.length), role t parts i = p →
      f.nodes[i].isKeyed = false := by
    intro i hi hrole
    rw [← Bool.not_eq_true, h.isKeyed_iff (List.getElem?_eq_getElem hi), hrole]
    rintro ⟨r, rfl⟩
    exact middle_ne_resource hm rfl
  rcases hbonds with hbond | ⟨o, -, hbond⟩
  · have htarget := (bond_label hbond).2.2
    exact ⟨_, _, .inr rfl, List.getElem?_eq_getElem htlt, hunkeyed _ htlt htarget⟩
  · have hsource := (bond_label hbond).1
    exact ⟨_, _, .inl rfl, List.getElem?_eq_getElem hslt, hunkeyed _ hslt hsource⟩

theorem anchored_of_keyed {a : Assignment}
    (ha : ∀ (i : Nat) (n : Node), f.nodes[i]? = some n → (i ∈ a ↔ n.isKeyed)) :
    f.Anchored a (f.pending a) := by
  have hpending : ∀ i, i ∈ f.pending a ↔
      i < f.nodes.length ∧ ∀ r, role t parts i ≠ .resource r := by
    intro i
    rw [Fragment.mem_pending]
    constructor
    · rintro ⟨⟨n, hn, hk⟩, -⟩
      exact h.unkeyed_role hn (by simpa using hk)
    · rintro ⟨hi, hne⟩
      have hn := List.getElem?_eq_getElem hi
      have hk : ¬f.nodes[i].isKeyed := fun hk => by
        obtain ⟨r, hr⟩ := (h.isKeyed_iff hn).1 hk
        exact hne r hr
      exact ⟨⟨_, hn, by simpa using hk⟩, fun hmem => hk ((ha i _ hn).1 hmem)⟩
  cases hm : e.middle? t with
  | some m =>
    refine h.anchored_of_pending hpending (fun i hi hrole => ?_) hm
    have hn := List.getElem?_eq_getElem hi
    exact (ha i _ hn).2 ((h.isKeyed_iff hn).2 ⟨_, hrole⟩)
  | none =>
    rintro S ⟨i, hi⟩ hsub
    obtain ⟨hlt, hne⟩ := (hpending i).1 (hsub i hi)
    obtain ⟨r, hr⟩ := (h.isKeyed_iff (List.getElem?_eq_getElem hlt)).1
      (h.keyed_of_direct hm (List.getElem?_eq_getElem hlt))
    exact absurd hr (hne r)

/-- The fragment of a statement tells its unkeyed nodes apart. -/
theorem coherent (hv : e.vocabulary.Valid) : f.Coherent where
  ends := h.draws.ends
  keys i n properties hn hi := by
    obtain ⟨kind, l, -, rfl⟩ := h.identity_of_unkeyed hn hi
    exact ⟨hv.nodup_identityProperties, _, _, Vocabulary.kind_mem⟩
  apart i j n m properties hn hm hi hk q hq value v := h.apart hv hn hm hi hk hq value v
  linked i j n m hn hm hk hk' hij := h.linked hn hm hk hk' hij
  conflict i j n m hn hm hij g v hholds := h.conflict hn hm hij g v hholds
  labels y hy z hz hkind hlabel := h.labels hv hy hz hkind hlabel
  meets y hy hkind := h.meets hy hkind
  anchored a ha := h.anchored_of_keyed ha

end Sketches

/-- Whatever the sessions made of the graph, the fragment of a statement can be merged into it. All
that was there stays as it was, the whole fragment is there afterwards, where the lookup and the
search find it, and merging it a second time creates nothing and changes nothing. -/
theorem fragment_merges_again (hvalid : e.vocabulary.validate = .ok ()) (x : Statement)
    (ss : List Session) (ms : List Mutation) :
    let g := ((Transaction.start (Graph.afterSessions ss)).attemptAll ms).graph
    ∃ f, e.fragment x = .ok f ∧ Yields f.mergeInto g fun _ g' => g.Keeps g' ∧
      (∃ keyed a, f.lookupKeyed? g' = some keyed ∧ Fragment.LooksUp f.nodes.zipIdx g' keyed ∧
        f.solve g' keyed = some a ∧ f.Embeds g' a) ∧
      Yields f.mergeInto g' fun report' g'' => report'.1 = {} ∧ g'' = g' := by
  intro g
  have hv := Vocabulary.valid_of_validate hvalid
  have hg : g.WellFormed := by
    have hstart := Graph.afterSessions_wellFormed ss
    exact ((Transaction.Tracks.start _).attemptAll hstart).wellFormed hstart
  obtain ⟨f, parts, hf, hsketch⟩ := fragment_sketches hv x
  exact ⟨f, hf, (hsketch.coherent hv).mergeInto_again hg⟩

/-- The middle vertex is found next to a loop that was there under the same predicate. -/
theorem fragment_merges_again_loop :
    let e : Encoder := ⟨.alwaysMiddle, {}, none, {}⟩
    let s : Resource := .uri ⟨"a:s", by decide⟩
    let x : Statement := ⟨⟨s, ⟨"a:p", by decide⟩, .resource s⟩, {⟨"a:g", by decide⟩}⟩
    let g := ((Transaction.start (Graph.afterSessions [])).attemptAll [.createVertex,
      .registerKey ⟨1⟩ (e.vocabulary.resourceEntry s), .createEdge ⟨1⟩ "a:p" ⟨1⟩]).graph
    e.vocabulary.validate = .ok () ∧
      ∃ f, e.fragment x = .ok f ∧ Yields f.mergeInto g fun _ g' => g.Keeps g' ∧
        (∃ keyed a, f.lookupKeyed? g' = some keyed ∧ Fragment.LooksUp f.nodes.zipIdx g' keyed ∧
          f.solve g' keyed = some a ∧ f.Embeds g' a) ∧
        Yields f.mergeInto g' fun report' g'' => report'.1 = {} ∧ g'' = g' := by
  intro e s x g
  have hvalid : ({} : Vocabulary).validate = .ok () := by rfl
  exact ⟨hvalid, fragment_merges_again hvalid x [] _⟩

end Encoder

end QuadStore
