import Mathlib
import QuadStore.Proofs.Encoder.Finding
import QuadStore.Proofs.Fragment.Building
import QuadStore.Proofs.Fragment.FirstMatch
/-!
# The roles of nodes

In the fragment of a statement a node is optional when it is only a context of the statement, also
where the context, the object and the subject are one resource. Structural edges lead from every
unkeyed node to a keyed node that is not optional, so the search has always a node to go on with.
-/

namespace QuadStore

/-! ## Roles of a node -/

namespace Node

variable {n m : Node}

/-- The node is a context of its statement, and nothing else in it. -/
def OnlyContext (n : Node) : Prop :=
  n.hasTag .context ∧ ¬n.hasTag .subject ∧ ¬n.hasTag .object ∧ ¬n.hasTag .class_

structure Settled (n : Node) : Prop where
  optional : n.optional ↔ n.OnlyContext
  keyed : n.isKeyed → n.hasTag .subject ∨ n.hasTag .object ∨ n.hasTag .class_ ∨ n.hasTag .context

/-- A node of a statement's resource takes in another: each of them is a context and nothing else,
or has another role that it keeps. -/
theorem Settled.merge (hn : n.Settled) (hm : m.Settled) (hkeyed : n.isKeyed) (hkeyed' : m.isKeyed) :
    (n.merge m).Settled where
  optional := by
    have hcontext : (n.merge m).OnlyContext ↔ n.OnlyContext ∧ m.OnlyContext := by
      have hn' := hn.keyed hkeyed
      have hm' := hm.keyed hkeyed'
      simp only [OnlyContext, hasTag_merge]
      tauto
    rw [hcontext, ← hn.optional, ← hm.optional]
    simp only [Node.merge, Bool.and_eq_true]
  keyed _ := by
    have hn' := hn.keyed hkeyed
    simp only [hasTag_merge]
    tauto

theorem Settled.of_same (h : n.Settled) (hidentity : m.identity = n.identity)
    (htags : m.tags = n.tags) (hoptional : m.optional = n.optional) : m.Settled := by
  have htag (tag : Tag) : m.hasTag tag = n.hasTag tag := by rw [hasTag, htags, hasTag]
  have hkeyed : m.isKeyed = n.isKeyed := by rw [isKeyed, hidentity, isKeyed]
  refine ⟨?_, ?_⟩
  · simp only [OnlyContext, htag, hoptional]
    exact h.optional
  · simp only [htag, hkeyed]
    exact h.keyed

theorem settled_unkeyed (properties : List (String × Option String)) (tag : Tag)
    (htag : tag ≠ .context) : (Node.unkeyed properties tag).Settled where
  optional := by
    have hne : Tag.context ≠ tag := htag.symm
    simp [OnlyContext, Node.unkeyed, hasTag, hne]
  keyed h := by simp [Node.unkeyed, isKeyed, Identity.entry?] at h

theorem settled_keyed (entry : Entry) (tag : Tag)
    (htag : tag = .subject ∨ tag = .object ∨ tag = .class_) : (Node.keyed entry tag).Settled := by
  rcases htag with rfl | rfl | rfl <;> constructor <;> simp [OnlyContext, Node.keyed, hasTag]

theorem settled_context (entry : Entry) :
    Settled { Node.keyed entry .context with optional := true } := by
  constructor <;> simp [OnlyContext, Node.keyed, hasTag]

end Node

/-! ## What the layouts build -/

namespace Fragment

variable {f f' : Fragment} {n : Node} {l : Layout} {i j k : Nat} {literal : Literal}
  {indexed : Bool}

structure Tidy (f : Fragment) : Prop where
  sound : f.Sound
  settled : ∀ n ∈ f.nodes, n.Settled

namespace Tidy

theorem addNode (h : f.Tidy) (hn : n.Settled) : (f.addNode n).2.Tidy where
  sound := h.sound.addNode n
  settled := forall_addNode h.settled hn fun m hsame hkeyed hm =>
    hm.merge hn (by rwa [Node.isKeyed, hsame]) hkeyed

theorem addEdge {label : String} {kind : EdgeKind} (h : f.Tidy)
    (hadd : f.addEdge i label j kind = .ok (k, f')) : f'.Tidy where
  sound := h.sound.addEdge hadd
  settled := by
    rw [addEdge_nodes hadd]
    exact h.settled

theorem modifyNode (h : f.Tidy) {change : Node → Node}
    (hidentity : ∀ n, (change n).identity = n.identity) (htags : ∀ n, (change n).tags = n.tags)
    (hoptional : ∀ n, (change n).optional = n.optional) : (f.modifyNode i change).Tidy where
  sound := by
    refine ⟨?_, h.sound.places, by simpa [Fragment.modifyNode] using h.sound.ends⟩
    rw [Fragment.keys, identities_modify change hidentity]
    exact h.sound.keys
  settled := forall_mem_modify h.settled fun n _ hn =>
    hn.of_same (hidentity n) (htags n) (hoptional n)

theorem modifyEdge (h : f.Tidy) (entries : List Entry) :
    (f.modifyEdge i (·.addProperties entries)).Tidy where
  sound := by
    refine ⟨h.sound.keys, ?_, forall_mem_modify h.sound.ends fun _ _ hx => hx⟩
    rw [places_modify (·.addProperties entries) fun _ => rfl]
    exact h.sound.places
  settled := h.settled

theorem direct (h : f.Tidy) (hrun : l.direct f i j = .ok f') : f'.Tidy := by
  obtain ⟨⟨k, g⟩, hadd, hrun⟩ := Graph.bind_eq_ok.1 hrun
  obtain rfl := Except.ok.inj hrun
  exact (h.addEdge hadd).modifyEdge _

theorem type {policy : Policy} (h : f.Tidy) (hrun : l.type policy f i j = .ok f') : f'.Tidy := by
  obtain ⟨g, hdirect, hrun⟩ := Graph.bind_eq_ok.1 hrun
  have hg : g.Tidy := h.direct hdirect
  split at hrun
  · obtain rfl := Except.ok.inj hrun
    exact hg.modifyNode (fun _ => rfl) (fun _ => rfl) fun _ => rfl
  · obtain rfl := Except.ok.inj hrun
    exact hg

theorem denseLiteral (h : f.Tidy) : (l.denseLiteral f i literal indexed).Tidy :=
  h.modifyNode (fun _ => rfl) (fun _ => rfl) fun _ => rfl

theorem linkContexts (h : f.Tidy) (hrun : l.linkContexts f i = .ok f') : f'.Tidy := by
  unfold Layout.linkContexts at hrun
  generalize l.graphs = graphs at hrun
  induction graphs generalizing f with
  | nil =>
    obtain rfl := Except.ok.inj hrun
    exact h
  | cons g graphs ih =>
    rw [List.foldlM_cons] at hrun
    obtain ⟨f₂, hstep, hrest⟩ := Graph.bind_eq_ok.1 hrun
    obtain ⟨⟨k, f₁⟩, hadd, hstep⟩ := Graph.bind_eq_ok.1 hstep
    obtain rfl := Except.ok.inj hstep
    exact ih ((h.addNode (Node.settled_context _)).addEdge hadd) hrest

theorem through (h : f.Tidy) (hrun : l.through f i k j = .ok f') : f'.Tidy := by
  obtain ⟨⟨_, f₁⟩, hfirst, hrun⟩ := Graph.bind_eq_ok.1 hrun
  obtain ⟨⟨_, f₂⟩, hsecond, hrun⟩ := Graph.bind_eq_ok.1 hrun
  obtain rfl := Except.ok.inj hrun
  exact (h.addEdge hfirst).addEdge hsecond

theorem addMiddle {v : Vocabulary} {o : Option Literal} (h : f.Tidy)
    (hidentity : n.identity = (v.nodeOfMiddle o).identity) (htags : n.tags = [.middle])
    (hoptional : n.optional = false) : (f.addNode n).2.Tidy :=
  h.addNode ((Node.settled_unkeyed (v.identityProperties middleKind o) .middle
    (by decide)).of_same hidentity htags hoptional)

theorem quadObject (h : f.Tidy) (hrun : l.quadObject f i j = .ok f') : f'.Tidy := by
  obtain ⟨g, hthrough, hrun⟩ := Graph.bind_eq_ok.1 hrun
  exact ((h.addMiddle (v := l.vocabulary) (o := none) rfl rfl rfl).through hthrough).linkContexts
    hrun

theorem quadLiteral (h : f.Tidy) (hrun : l.quadLiteral f i literal indexed = .ok f') : f'.Tidy := by
  obtain ⟨g, hthrough, hrun⟩ := Graph.bind_eq_ok.1 hrun
  have hliteral : Node.Settled (((l.vocabulary.nodeOfLiteral literal).addIndex
      (l.literalIndex literal .withVertex)).addFulltext (l.fulltext literal indexed)) :=
    (Node.settled_unkeyed (l.vocabulary.identityProperties literalKind (some literal)) .literal
      (by decide)).of_same rfl rfl rfl
  exact (((h.addMiddle (v := l.vocabulary) (o := none) rfl rfl rfl).addNode hliteral).through
    hthrough).linkContexts hrun

theorem middleObject (h : f.Tidy) (hrun : l.middleObject f i j = .ok f') : f'.Tidy :=
  (h.addMiddle (v := l.vocabulary) (o := none) (n := l.recordingNode none) rfl rfl rfl).through hrun

theorem middleLiteral (h : f.Tidy) (hrun : l.middleLiteral f i literal indexed = .ok f') :
    f'.Tidy := by
  obtain ⟨⟨_, g⟩, hadd, hrun⟩ := Graph.bind_eq_ok.1 hrun
  obtain rfl := Except.ok.inj hrun
  have hmiddle := h.addMiddle (v := l.vocabulary) (o := some literal)
    (n := ((l.recordingNode (some literal)).addIndex
      (l.literalIndex literal .withVertex)).addFulltext (l.fulltext literal indexed)) rfl rfl rfl
  exact hmiddle.addEdge hadd

end Tidy

end Fragment

namespace Encoder

variable {e : Encoder} {t : Triple} {C : UriSet} {f : Fragment} {parts : List Part} {i : Nat}
  {n : Node}

theorem fragment_tidy {s : Statement} (h : e.fragment s = .ok f) : f.Tidy := by
  have hempty : Fragment.empty.Tidy := ⟨Fragment.empty_sound, by simp [Fragment.empty]⟩
  have hsubject := hempty.addNode
    (Node.settled_keyed (e.vocabulary.resourceEntry s.subject) .subject (.inl rfl))
  unfold fragment at h
  dsimp only at h
  split at h
  · rename_i r _
    split at h
    · exact (hsubject.addNode (Node.settled_keyed (e.vocabulary.resourceEntry r) .class_
        (.inr (.inr rfl)))).type h
    · have hobject := hsubject.addNode
        (Node.settled_keyed (e.vocabulary.resourceEntry r) .object (.inr (.inl rfl)))
      split at h
      · exact hobject.direct h
      · exact hobject.quadObject h
      · exact hobject.middleObject h
  · split at h
    · obtain rfl := Except.ok.inj h
      exact hsubject.denseLiteral
    · exact hsubject.quadLiteral h
    · exact hsubject.middleLiteral h

end Encoder

/-! ## Moored nodes -/

namespace Fragment

variable {f : Fragment} {a : Assignment}

/-- Structural edges lead from the node, over unkeyed nodes, to a keyed one that removal cannot do
without. -/
inductive Moored (f : Fragment) : Nat → Prop where
  | keyed {i j : Nat} {n : Node} (adjacent : f.Adjacent i j) (node : f.nodes[j]? = some n)
      (keyed : n.isKeyed = true) (required : n.optional = false) : Moored f i
  | unkeyed {i j : Nat} {n : Node} (adjacent : f.Adjacent i j) (node : f.nodes[j]? = some n)
      (unkeyed : n.isKeyed = false) (rest : Moored f j) : Moored f i

/-- Once the keyed nodes are assigned that removal cannot do without, any unkeyed nodes without a
vertex have one among them that is next to an assigned node. -/
theorem anchored_of_moored
    (h : ∀ (i : Nat) (n : Node), f.nodes[i]? = some n → n.isKeyed = false → f.Moored i)
    (ha : ∀ (i : Nat) (n : Node), f.nodes[i]? = some n → n.isKeyed → n.optional = false → i ∈ a) :
    f.Anchored a (f.pending a) := by
  rintro S ⟨i, hi⟩ hsub
  obtain ⟨⟨n, hn, hunkeyed⟩, -⟩ := mem_pending.1 (hsub i hi)
  induction h i n hn (by simpa using hunkeyed) generalizing n with
  | @keyed i j m adjacent node keyed required =>
    obtain ⟨l, hl, rfl⟩ := adjacent_iff.1 adjacent
    exact ⟨i, hi, l, hl, .inl (ha _ m node keyed required)⟩
  | @unkeyed i j m adjacent node unkeyed _ ih =>
    by_cases hj : j ∈ S
    · exact ih hj m node (by simpa using unkeyed)
    · obtain ⟨l, hl, rfl⟩ := adjacent_iff.1 adjacent
      refine ⟨i, hi, l, hl, ?_⟩
      by_cases hassigned : l.neighbour ∈ a
      · exact .inl hassigned
      · exact .inr ⟨mem_pending.2 ⟨⟨m, node, by simpa using unkeyed⟩, hassigned⟩, hj⟩

end Fragment

namespace Encoder

variable {e : Encoder} {t : Triple} {C : UriSet} {f : Fragment} {parts : List Part} {i : Nat}
  {n : Node}

namespace Sketches

/-- The node of the middle vertex is next to that of the subject. -/
theorem middle_moored (h : e.Sketches t C f parts) (hi : i < f.nodes.length)
    (hm : e.middle? t = some (role t parts i)) : f.Moored i := by
  obtain ⟨x, hx, hbond, hkind⟩ := h.entering_edge hm
  obtain ⟨hsource, -, htarget⟩ := bond_label hbond
  obtain ⟨hslt, htlt⟩ := h.draws.ends x hx
  obtain rfl := h.casts.injective _ _ htlt hi htarget
  have hn := List.getElem?_eq_getElem hslt
  refine .keyed ⟨x, hx, hkind, .inr ⟨rfl, rfl⟩⟩ hn ((h.isKeyed_iff hn).2 ⟨_, hsource⟩) ?_
  rw [← Bool.not_eq_true, (h.standsFor hn).optional, hsource]
  rintro ⟨r, hr, hne, -⟩
  exact hne (Part.resource.inj hr).symm

theorem moored (h : e.Sketches t C f parts) (hn : f.nodes[i]? = some n)
    (hunkeyed : n.isKeyed = false) : f.Moored i := by
  have hi : i < f.nodes.length := (List.getElem?_eq_some_iff.1 hn).1
  have hrole : ∀ r, role t parts i ≠ .resource r := fun r hr => by
    rw [(h.isKeyed_iff hn).2 ⟨r, hr⟩] at hunkeyed
    cases hunkeyed
  obtain hm | ho := unkeyed_needs (h.needs_role hi) hrole
  · exact h.middle_moored hi hm
  · -- an edge leads from the middle vertex to its target
    obtain ⟨m, hm⟩ : ∃ m, e.middle? t = some m := by
      unfold target? at ho
      unfold middle?
      split at ho <;> simp_all
    obtain ⟨x, hx, hbond, hkind⟩ := h.leaving_edge hm ho
    obtain ⟨hsource, -, htarget⟩ := bond_label hbond
    obtain ⟨hslt, htlt⟩ := h.draws.ends x hx
    obtain rfl := h.casts.injective _ _ htlt hi htarget
    have hmiddle := List.getElem?_eq_getElem hslt
    refine .unkeyed ⟨x, hx, hkind, .inr ⟨rfl, rfl⟩⟩ hmiddle ?_
      (h.middle_moored hslt (hsource ▸ hm))
    rw [← Bool.not_eq_true, h.isKeyed_iff hmiddle, hsource]
    rintro ⟨r, rfl⟩
    exact middle_ne_resource hm rfl

/-- The optional nodes are those of the named graphs that the triple does not name itself. -/
theorem optional_iff (h : e.Sketches t C f parts) (hv : e.vocabulary.Valid)
    (hn : f.nodes[i]? = some n) :
    n.optional ↔ ∃ c ∈ C, n.identity = .keyed (e.vocabulary.resourceEntry (.uri c)) ∧
      t.subject ≠ .uri c ∧ t.object ≠ .resource (.uri c) := by
  have hstands := h.standsFor hn
  rw [hstands.optional, hstands.identity]
  constructor
  · rintro ⟨r, hr, hsubject, hobject⟩
    have hneeds := h.needs_role (List.getElem?_eq_some_iff.1 hn).1
    rw [hr] at hneeds ⊢
    obtain heq | ⟨r', ho, heq⟩ | hm | ho | ⟨c, hc, -, heq⟩ := needs_iff.1 hneeds
    · exact absurd (Part.resource.inj heq) hsubject
    · exact absurd (Part.resource.inj heq ▸ ho) hobject
    · exact absurd rfl (middle_ne_resource hm)
    · obtain ⟨r', ho, heq⟩ | ⟨l, -, heq⟩ := target_eq ho
      · exact absurd (Part.resource.inj heq ▸ ho) hobject
      · cases heq
    · cases heq
      exact ⟨c, hc, rfl, hsubject.symm, hobject⟩
  · rintro ⟨c, -, hidentity, hsubject, hobject⟩
    exact ⟨.uri c, hv.keyedOnce _ _ _ hidentity rfl, hsubject.symm, hobject⟩

end Sketches

/-- Fragments are well formed whatever is added to them, each addition being answered by where it is
or refused without an effect. Every statement has a fragment; in it the optional nodes are those that
are only a context, and the search has a node to go on with as long as any is without a vertex. -/
theorem fragments_well_formed (hvalid : e.vocabulary.validate = .ok ()) (s : Statement) :
    (∀ (before after : List Fragment.Addition) (x : Fragment.Addition),
      let f := Fragment.empty.extendAll before
      let f' := (f.extend x).2
      let f'' := f'.extendAll after
      f.Sound ∧ f'.Sound ∧ f''.Sound ∧
        ((∃ i, (f.extend x).1 = .ok i ∧ x.At f' i ∧ x.At f'' i) ∨
          ∃ cause, f.extend x = (.error cause, f) ∧ x.Refused f cause)) ∧
    ∃ f, e.fragment s = .ok f ∧ f.Sound ∧
      (∀ n ∈ f.nodes, (n.optional ↔ n.OnlyContext) ∧
        (n.optional ↔ ∃ c ∈ s.contexts, n.identity = .keyed (e.vocabulary.resourceEntry (.uri c)) ∧
          s.subject ≠ .uri c ∧ e.classify s.predicate s.object ≠ .resource (.uri c))) ∧
      (∀ (i : Nat) (n : Node), f.nodes[i]? = some n → n.isKeyed = false → f.Moored i) ∧
      ∀ a : Assignment,
        (∀ (i : Nat) (n : Node), f.nodes[i]? = some n → n.isKeyed → n.optional = false → i ∈ a) →
        f.pending a ≠ [] → ∃ next, f.nextPending? a (f.pending a) = some next := by
  have hv := Vocabulary.valid_of_validate hvalid
  refine ⟨fun before after x => ?_, ?_⟩
  · have hsound := Fragment.empty_sound.extendAll before
    refine ⟨hsound, hsound.extend x, (hsound.extend x).extendAll after, ?_⟩
    obtain ⟨i, hanswer, hat⟩ | hrefused := (Fragment.empty.extendAll before).extend_answer x
    · exact .inl ⟨i, hanswer, hat, hat.extends (Fragment.extendAll_extends _ after)⟩
    · exact .inr hrefused
  · obtain ⟨f, parts, hf, hsketch⟩ := fragment_sketches hv s
    have htidy := fragment_tidy hf
    refine ⟨f, hf, htidy.sound, fun n hn => ?_, fun i n => hsketch.moored, fun a ha hne => ?_⟩
    · obtain ⟨i, hi⟩ := List.mem_iff_getElem?.1 hn
      exact ⟨(htidy.settled n hn).optional, hsketch.optional_iff hv hi⟩
    · rw [← Option.isSome_iff_exists, Option.isSome_iff_ne_none]
      exact fun hnone => hne ((Fragment.anchored_of_moored (fun i n => hsketch.moored) ha).eq_nil
        (Fragment.nextPending?_eq_none hnone))

/-- A resource that is subject, object and context of one statement has a node that is not
optional. -/
theorem fragments_well_formed_reflexive :
    let e : Encoder := ⟨.verboseQuad, {}, none, {}⟩
    let r : Uri := ⟨"a:s", by decide⟩
    let s : Statement := ⟨⟨.uri r, ⟨"a:p", by decide⟩, .resource (.uri r)⟩, {r}⟩
    e.vocabulary.validate = .ok () ∧ ∃ f, e.fragment s = .ok f ∧ f.Sound ∧
      (∀ n ∈ f.nodes, n.optional = false) ∧
      ∀ (i : Nat) (n : Node), f.nodes[i]? = some n → n.isKeyed = false → f.Moored i := by
  intro e r s
  have hvalid : ({} : Vocabulary).validate = .ok () := by rfl
  obtain ⟨-, f, hf, hsound, hoptional, hmoored, -⟩ :=
    fragments_well_formed (e := e) hvalid s
  refine ⟨hvalid, f, hf, hsound, fun n hn => ?_, hmoored⟩
  rw [← Bool.not_eq_true, (hoptional n hn).2]
  rintro ⟨c, hc, -, hsubject, -⟩
  obtain rfl : r = c := by simpa [s] using hc
  exact hsubject rfl

end Encoder

end QuadStore
