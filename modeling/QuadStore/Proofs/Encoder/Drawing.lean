import Mathlib
import QuadStore.Proofs.Encoder.Image
/-!
# What a fragment draws

The fragment of a statement has one node for every part that its triple needs. This module says what
each node and each edge holds, whatever order the nodes are in and whichever resources coincide.
-/

namespace QuadStore

/-- What a node holds beside its identity. -/
structure Content where
  properties : EntrySet := ∅
  guarded : List GuardedValue := []
  index : List IndexEntry := []
  fulltext : List FulltextEntry := []

/-- An edge of a fragment between the parts that its nodes stand for. -/
structure Stroke where
  bond : Bond Part
  kind : EdgeKind
  properties : EntrySet

namespace Node

def content (n : Node) : Content := ⟨n.properties, n.guarded, n.index, n.fulltext⟩

end Node

namespace Triple

/-- The part is a vertex of a resource that the triple does not name itself. -/
def OnlyContext (t : Triple) (p : Part) : Prop :=
  ∃ r, p = .resource r ∧ r ≠ t.subject ∧ t.object ≠ .resource r

end Triple

namespace Part

def IsMiddle : Part → Prop
  | middle _ | holder _ => True
  | _ => False

end Part

namespace Fragment

def stroke (role : Nat → Part) (x : FragmentEdge) : Stroke :=
  ⟨⟨role x.source, x.label, role x.target⟩, x.kind, x.properties⟩

/-- A node that stands for a part of a triple. -/
structure StandsFor (v : Vocabulary) (t : Triple) (content : Part → Content) (p : Part) (n : Node) :
    Prop where
  identity : n.identity = v.identity p
  content : n.content = content p
  optional : n.optional ↔ t.OnlyContext p
  middle : n.hasTag .middle ↔ p.IsMiddle

/-- A node stays as it is when one of the same resource that says nothing else is merged into it. -/
theorem StandsFor.merge {v : Vocabulary} {t : Triple} {content : Part → Content} {r : Resource}
    {m : Node} {tag : Tag} {optional : Bool} (hm : StandsFor v t content (.resource r) m)
    (htag : tag ≠ .middle) (hoptional : t.OnlyContext (.resource r) → optional) :
    StandsFor v t content (.resource r)
      (m.merge { v.nodeOfResource r tag with optional := optional }) where
  identity := hm.identity
  content := by
    have hproperties : m.properties ∪ (∅ : EntrySet) = m.properties := by
      ext
      simp
    rw [← hm.content]
    simp only [Node.content, Node.merge, Vocabulary.nodeOfResource, Node.keyed, appendNew,
      hproperties, List.foldl_nil]
  optional := by
    simp only [Node.merge, Bool.and_eq_true, hm.optional]
    exact ⟨fun h => h.1, fun h => ⟨h, hoptional h⟩⟩
  middle := by
    rw [← hm.middle]
    simp only [Node.hasTag, Node.merge, Vocabulary.nodeOfResource, Node.keyed, appendNew,
      List.foldl_cons, List.foldl_nil]
    split <;> simp [Ne.symm htag]

/-- The nodes of a fragment stand for the parts in this order, and its edges are these strokes. -/
structure Draws (f : Fragment) (v : Vocabulary) (t : Triple) (content : Part → Content)
    (parts : List Part) (strokes : List Stroke) : Prop where
  nodup : parts.Nodup
  length : f.nodes.length = parts.length
  node : ∀ (i : Nat) (n : Node) (p : Part), f.nodes[i]? = some n → parts[i]? = some p →
    StandsFor v t content p n
  strokes : f.edges.map (stroke fun i => parts.getD i (.resource t.subject)) = strokes
  ends : ∀ x ∈ f.edges, x.source < f.nodes.length ∧ x.target < f.nodes.length

namespace Draws

variable {f : Fragment} {v : Vocabulary} {t : Triple} {content : Part → Content}
  {parts : List Part} {strokes : List Stroke} {n : Node} {p : Part} {i j : Nat}

theorem empty : Fragment.empty.Draws v t content [] [] where
  nodup := List.nodup_nil
  length := rfl
  node i n p h := by simp [Fragment.empty] at h
  strokes := rfl
  ends := by simp [Fragment.empty]

theorem getD_append {x : Nat} {d q : Part} (h : x < parts.length) :
    (parts ++ [q]).getD x d = parts.getD x d := by
  simp only [List.getD_eq_getElem?_getD, List.getElem?_append_left h]

theorem append (h : f.Draws v t content parts strokes) (hp : p ∉ parts)
    (hn : StandsFor v t content p n) :
    Draws { f with nodes := f.nodes ++ [n] } v t content (parts ++ [p]) strokes where
  nodup := by
    rw [List.nodup_append_comm]
    exact List.nodup_cons.2 ⟨hp, h.nodup⟩
  length := by simp [h.length]
  node i m q hm hq := by
    by_cases hi : i < parts.length
    · rw [List.getElem?_append_left (by omega)] at hq
      rw [List.getElem?_append_left (by rw [h.length]; omega)] at hm
      exact h.node i m q hm hq
    · rw [List.getElem?_append_right (by omega)] at hq
      rw [List.getElem?_append_right (by rw [h.length]; omega), h.length] at hm
      cases hk : i - parts.length with
      | zero =>
        rw [hk] at hm hq
        cases hm
        cases hq
        exact hn
      | succ k => simp [hk] at hq
  strokes := by
    rw [← h.strokes]
    refine List.map_congr_left fun x hx => ?_
    obtain ⟨hs, ht⟩ := h.ends x hx
    rw [h.length] at hs ht
    simp only [stroke, getD_append hs, getD_append ht]
  ends x hx := by
    have := h.ends x hx
    simp only [List.length_append, List.length_singleton]
    omega

/-- A new part gets a node at the end. -/
theorem addNode_new (h : f.Draws v t content parts strokes) (honce : KeyedOnce v.identity)
    (hp : p ∉ parts) (hn : StandsFor v t content p n) :
    (f.addNode n).1 = parts.length ∧
      (f.addNode n).2.Draws v t content (parts ++ [p]) strokes := by
  have hnone : (n.identity.entry?.bind fun _ => f.nodes.findIdx? (·.identity == n.identity)) =
      none := by
    cases hentry : n.identity.entry? with
    | none => rfl
    | some entry =>
      rw [Option.bind_some, List.findIdx?_eq_none_iff]
      intro m hm
      obtain ⟨k, hk⟩ := List.mem_iff_getElem?.1 hm
      have hlt := (List.getElem?_eq_some_iff.1 hk).1
      have hq := List.getElem?_eq_getElem (h.length ▸ hlt)
      have hm' := (h.node k m _ hk hq).identity
      rw [← Bool.not_eq_true, beq_iff_eq, hm', hn.identity]
      intro heq
      have hkeyed : v.identity p = .keyed entry := by
        rw [← hn.identity]
        cases hi : n.identity <;> simp_all [Identity.entry?]
      have hpart := honce _ _ _ (heq.trans hkeyed) hkeyed
      exact hp (hpart ▸ List.getElem_mem _)
  unfold addNode
  rw [hnone]
  exact ⟨h.length, h.append hp hn⟩

/-- A resource that has a node keeps it. -/
theorem addNode_old (h : f.Draws v t content parts strokes) (hi : parts[i]? = some p)
    {entry : Entry} (hkeyed : v.identity p = .keyed entry) (honce : KeyedOnce v.identity)
    (hn : n.identity = .keyed entry) (hmerge : ∀ m, StandsFor v t content p m →
      StandsFor v t content p (m.merge n)) :
    (f.addNode n).1 = i ∧ (f.addNode n).2.Draws v t content parts strokes := by
  have hlt : i < f.nodes.length := by
    rw [h.length]
    exact (List.getElem?_eq_some_iff.1 hi).1
  have hfound : (n.identity.entry?.bind fun _ => f.nodes.findIdx? (·.identity == n.identity)) =
      some i := by
    rw [hn]
    simp only [Identity.entry?, Option.bind_some]
    rw [List.findIdx?_eq_some_iff_getElem]
    have hat : ∀ (k : Nat) (hk : k < f.nodes.length),
        f.nodes[k].identity = .keyed entry ↔ parts[k]? = some p := by
      intro k hk
      have hq := List.getElem?_eq_getElem (h.length ▸ hk)
      have hidentity := (h.node k _ _ (List.getElem?_eq_getElem hk) hq).identity
      rw [hidentity, hq, Option.some.injEq]
      exact ⟨fun heq => honce _ _ _ heq hkeyed, fun heq => heq ▸ hkeyed⟩
    refine ⟨hlt, by simpa using (hat i hlt).2 hi, fun k hk => ?_⟩
    rw [beq_iff_eq]
    intro heq
    have hsame := (hat k (by omega)).1 heq
    have hindex := (List.getElem?_inj (by rw [← h.length]; omega) h.nodup).1 (hsame.trans hi.symm)
    omega
  unfold addNode
  rw [hfound]
  refine ⟨rfl, ⟨h.nodup, by simp [h.length], fun k m q hm hq => ?_, h.strokes, ?_⟩⟩
  · by_cases hik : i = k
    · subst hik
      rw [hi] at hq
      cases hq
      rw [List.getElem?_modify_eq] at hm
      obtain ⟨m', hm', rfl⟩ := Option.map_eq_some_iff.1 hm
      exact hmerge m' (h.node i m' p hm' hi)
    · rw [List.getElem?_modify_ne _ _ hik] at hm
      exact h.node k m q hm hq
  · simpa using h.ends

/-- A node of a resource that says nothing else joins the others, or the one that is there. -/
theorem addResource (h : f.Draws v t content parts strokes) (r : Resource) (tag : Tag)
    (optional : Bool) (honce : KeyedOnce v.identity) (htag : tag ≠ .middle)
    (hcontent : content (.resource r) = {}) (hoptional : t.OnlyContext (.resource r) → optional)
    (hnew : .resource r ∉ parts → optional → t.OnlyContext (.resource r)) :
    ∃ (i : Nat) (f' : Fragment) (more : List Part),
      f.addNode { v.nodeOfResource r tag with optional := optional } = (i, f') ∧
      f'.edges = f.edges ∧ (parts ++ more)[i]? = some (.resource r) ∧
      (∀ p, p ∈ parts ++ more ↔ p ∈ parts ∨ p = .resource r) ∧
      f'.Draws v t content (parts ++ more) strokes := by
  have hedges : ∀ n, (f.addNode n).2.edges = f.edges := fun n => by
    unfold addNode
    split <;> rfl
  by_cases hmem : .resource r ∈ parts
  · obtain ⟨i, hi⟩ := List.mem_iff_getElem?.1 hmem
    have hold := h.addNode_old hi rfl honce
      (show ({ v.nodeOfResource r tag with optional := optional } : Node).identity = _ from rfl)
      fun m hm => hm.merge htag hoptional
    refine ⟨i, _, [], Prod.ext hold.1 rfl, hedges _, by simpa using hi, by simp [hmem], ?_⟩
    rw [List.append_nil]
    exact hold.2
  · have hadd := h.addNode_new (n := { v.nodeOfResource r tag with optional := optional }) honce
      hmem ⟨rfl, hcontent.symm, ⟨hnew hmem, hoptional⟩, by
        simp [Node.hasTag, Vocabulary.nodeOfResource, Node.keyed, Part.IsMiddle, Ne.symm htag]⟩
    refine ⟨parts.length, _, [.resource r], Prod.ext hadd.1 rfl, hedges _, by simp, by simp,
      hadd.2⟩

/-- A node that says more stands for a part with more content. -/
theorem modifyNode (h : f.Draws v t content parts strokes) (content' : Part → Content)
    (change : Node → Node) (hi : parts[i]? = some p)
    (hchange : ∀ n, StandsFor v t content p n → StandsFor v t content' p (change n))
    (hother : ∀ q, q ≠ p → content' q = content q) :
    (f.modifyNode i change).Draws v t content' parts strokes where
  nodup := h.nodup
  length := by simp [Fragment.modifyNode, h.length]
  node k m q hm hq := by
    simp only [Fragment.modifyNode] at hm
    by_cases hik : i = k
    · subst hik
      rw [hi] at hq
      cases hq
      rw [List.getElem?_modify_eq] at hm
      obtain ⟨m', hm', rfl⟩ := Option.map_eq_some_iff.1 hm
      exact hchange m' (h.node i m' p hm' hi)
    · rw [List.getElem?_modify_ne _ _ hik] at hm
      have hne : q ≠ p := by
        rintro rfl
        have hlt := (List.getElem?_eq_some_iff.1 hq).1
        exact hik ((List.getElem?_inj hlt h.nodup).1 (hq.trans hi.symm)).symm
      obtain ⟨hidentity, hcontent, hoptional, hmiddle⟩ := h.node k m q hm hq
      exact ⟨hidentity, hcontent.trans (hother q hne).symm, hoptional, hmiddle⟩
  strokes := h.strokes
  ends := by simpa [Fragment.modifyNode] using h.ends

theorem addEdge_new {q : Part} (h : f.Draws v t content parts strokes) (label : String)
    (kind : EdgeKind) (hi : parts[i]? = some p) (hj : parts[j]? = some q)
    (hnew : ∀ x ∈ strokes, x.bond ≠ ⟨p, label, q⟩) :
    ∃ f', f.addEdge i label j kind = .ok (f.edges.length, f') ∧
      f'.edges = f.edges ++ [⟨i, label, j, kind, ∅⟩] ∧
      f'.Draws v t content parts (strokes ++ [⟨⟨p, label, q⟩, kind, ∅⟩]) := by
  have hilt : i < f.nodes.length := by
    rw [h.length]
    exact (List.getElem?_eq_some_iff.1 hi).1
  have hjlt : j < f.nodes.length := by
    rw [h.length]
    exact (List.getElem?_eq_some_iff.1 hj).1
  have hid : parts.getD i (.resource t.subject) = p := by simp [List.getD_eq_getElem?_getD, hi]
  have hjd : parts.getD j (.resource t.subject) = q := by simp [List.getD_eq_getElem?_getD, hj]
  have hnone : f.edges.findIdx? (·.connects i label j kind) = none := by
    rw [List.findIdx?_eq_none_iff]
    intro x hx
    rw [← Bool.not_eq_true]
    intro hconnects
    simp only [FragmentEdge.connects, Bool.and_eq_true, beq_iff_eq] at hconnects
    obtain ⟨⟨⟨rfl, rfl⟩, rfl⟩, -⟩ := hconnects
    refine hnew (stroke (fun i => parts.getD i (.resource t.subject)) x) ?_ ?_
    · rw [← h.strokes]
      exact List.mem_map_of_mem hx
    · simp only [stroke, hid, hjd]
  refine ⟨{ f with edges := f.edges ++ [⟨i, label, j, kind, ∅⟩] }, ?_, rfl, ?_⟩
  · simp only [addEdge, checkNode, hilt, hjlt, if_true, hnone, bind, Except.bind, pure, Except.pure]
  · refine ⟨h.nodup, h.length, h.node, ?_, fun x hx => ?_⟩
    · simp only [List.map_append, h.strokes, List.map_cons, List.map_nil, stroke, hid, hjd]
    · obtain hx | hx := List.mem_append.1 hx
      · exact h.ends x hx
      · rw [List.mem_singleton] at hx
        subst hx
        exact ⟨hilt, hjlt⟩

end Draws

end Fragment

end QuadStore
