import Mathlib
import QuadStore.Proofs.Graph.Effect
/-!
# Histories

A history is a list of sessions. A session tries mutations one after the other, going on after one
that fails, and ends with a commit or with a rollback. Whatever a session tries, a rollback takes it
back, and the graph stays consistent at every point in between.
-/

namespace QuadStore

/-- How a session ends. -/
inductive Ending where
  | commit
  | rollback
deriving DecidableEq, Repr

structure Session where
  mutations : List Mutation
  ending : Ending
deriving DecidableEq, Repr

/-- A mutation together with its answer. -/
abbrev Answered := (m : Mutation) × m.Answer

namespace Transaction

/-- Try a mutation, and go on where it leaves the transaction. -/
def attempt (t : Transaction) (m : Mutation) : Transaction :=
  match (GraphM.perform m).run t with
  | .ok _ t' => t'
  | .error _ t' => t'

def attemptAll (t : Transaction) (ms : List Mutation) : Transaction := ms.foldl attempt t

/-- What the mutations answer, those that fail left out. -/
def answers (t : Transaction) : List Mutation → List Answered
  | [] => []
  | m :: ms =>
    match (GraphM.perform m).run t with
    | .ok a t' => ⟨m, a⟩ :: t'.answers ms
    | .error _ t' => t'.answers ms

def finish (t : Transaction) : Ending → Graph
  | .commit => t.commit
  | .rollback => t.rollback

end Transaction

namespace Session

/-- The transaction of the session before it ends. -/
def opened (s : Session) (g : Graph) : Transaction := (Transaction.start g).attemptAll s.mutations

def run (g : Graph) (s : Session) : Graph := (s.opened g).finish s.ending

end Session

namespace Graph

/-- The graph that the sessions leave of an empty one. -/
def afterSessions (ss : List Session) : Graph := ss.foldl Session.run {}

/-- The answers of all the sessions, whether committed or rolled back. -/
def answersOf (g : Graph) : List Session → List Answered
  | [] => []
  | s :: ss => (Transaction.start g).answers s.mutations ++ (s.run g).answersOf ss

end Graph

/-! ## Open transactions -/

namespace Transaction

variable {t t' : Transaction} {m : Mutation} {g : Graph}

theorem perform_ok {a : m.Answer} :
    (GraphM.perform m).run t = .ok a t' ↔
      ∃ cs, t.graph.Performs m a cs ∧ t' = t.record cs := by
  simp only [EStateM.run, GraphM.perform, GraphAccess.perform, perform, bind, Except.bind,
    ← Graph.effect_eq_ok]
  cases t.graph.effect m with
  | error cause => simp
  | ok r =>
    obtain ⟨b, cs⟩ := r
    simp only [pure, Except.pure, EStateM.Result.ok.injEq, Except.ok.injEq, Prod.mk.injEq]
    constructor
    · rintro ⟨rfl, rfl⟩
      exact ⟨cs, ⟨rfl, rfl⟩, rfl⟩
    · rintro ⟨_, ⟨rfl, rfl⟩, rfl⟩
      exact ⟨rfl, rfl⟩

theorem perform_error {cause : GraphError} (h : (GraphM.perform m).run t = .error cause t') :
    t' = t := by
  simp only [EStateM.run, GraphM.perform] at h
  split at h <;> simp_all

/-- A transaction whose log tells how its graph came from the one it began with. -/
structure Tracks (t : Transaction) (g : Graph) : Prop where
  graph : t.graph = g.applyAll t.log.reverse
  applies : g.AppliesAll t.log.reverse

theorem Tracks.start (g : Graph) : (start g).Tracks g := ⟨rfl, trivial⟩

theorem Tracks.record (h : t.Tracks g) {cs : List Change} (hcs : t.graph.AppliesAll cs) :
    (t.record cs).Tracks g where
  graph := by
    simp only [Transaction.record, List.reverse_append, List.reverse_reverse, Graph.applyAll_append]
    rw [← h.graph]
  applies := by
    simp only [Transaction.record, List.reverse_append, List.reverse_reverse]
    rw [Graph.appliesAll_append, ← h.graph]
    exact ⟨h.applies, hcs⟩

theorem Tracks.wellFormed (h : t.Tracks g) (hg : g.WellFormed) : t.graph.WellFormed := by
  rw [h.graph]
  exact h.applies.wellFormed hg

theorem Tracks.attempt (h : t.Tracks g) (hg : g.WellFormed) : (t.attempt m).Tracks g := by
  unfold Transaction.attempt
  split
  · rename_i a t' heq
    obtain ⟨cs, hperforms, rfl⟩ := perform_ok.1 heq
    exact h.record (hperforms.appliesAll (h.wellFormed hg))
  · rename_i cause t' heq
    rw [perform_error heq]
    exact h

theorem Tracks.attemptAll (h : t.Tracks g) (hg : g.WellFormed) {ms : List Mutation} :
    (t.attemptAll ms).Tracks g := by
  induction ms generalizing t with
  | nil => exact h
  | cons m ms ih => exact ih (h.attempt hg)

theorem Tracks.content_rollback (h : t.Tracks g) (hg : g.WellFormed) :
    t.rollback.content = g.content := by
  have hback := Graph.content_applyAll_inverse h.applies hg
  rwa [List.reverse_reverse, ← h.graph] at hback

end Transaction

namespace Graph

variable {g g' : Graph}

theorem WellFormed.of_content (hg : g.WellFormed) (h : g'.content = g.content)
    (vertex : g.lastVertex ≤ g'.lastVertex) (edge : g.lastEdge ≤ g'.lastEdge) : g'.WellFormed := by
  obtain ⟨vertices, edges, keyIndex, valueIndex, lastVertex, lastEdge⟩ := g
  obtain ⟨vertices', edges', keyIndex', valueIndex', lastVertex', lastEdge'⟩ := g'
  simp only [content, Graph.mk.injEq] at h
  obtain ⟨rfl, rfl, rfl, rfl, -, -⟩ := h
  exact ⟨hg.lookup, hg.lookupValue, hg.nonempty, hg.ends,
    fun v hv => (hg.vertexNumber v hv).trans vertex, fun e he => (hg.edgeNumber e he).trans edge⟩

theorem lastVertex_le_apply (g : Graph) (c : Change) : g.lastVertex ≤ (c.apply g).lastVertex := by
  cases c with
  | vertexAdded v properties => exact Nat.le_max_left ..
  | keyMoved entry before after => cases before <;> cases after <;> exact le_refl _
  | _ => exact le_refl _

theorem lastEdge_le_apply (g : Graph) (c : Change) : g.lastEdge ≤ (c.apply g).lastEdge := by
  cases c with
  | edgeAdded e x => exact Nat.le_max_left ..
  | keyMoved entry before after => cases before <;> cases after <;> exact le_refl _
  | _ => exact le_refl _

/-! ## Identifiers -/

/-- A counter of a graph together with the identifiers that are taken from it. -/
structure Counts (last : Graph → Nat) (number? : Answered → Option Nat) : Prop where
  grows : ∀ g (c : Change), last g ≤ last (c.apply g)
  created : ∀ (g : Graph) (m : Mutation) (a : m.Answer) (cs : List Change),
    g.Performs m a cs → ∀ n ∈ number? ⟨m, a⟩, last g < n ∧ n ≤ last (g.applyAll cs)

namespace Counts

variable {last : Graph → Nat} {number? : Answered → Option Nat} {t t' : Transaction}

theorem le_applyAll (h : Counts last number?) (g : Graph) (cs : List Change) :
    last g ≤ last (g.applyAll cs) := by
  induction cs generalizing g with
  | nil => exact le_refl _
  | cons c cs ih => exact (h.grows g c).trans (ih (c.apply g))

theorem le_attempt (h : Counts last number?) (t : Transaction) (m : Mutation) :
    last t.graph ≤ last (t.attempt m).graph := by
  unfold Transaction.attempt
  split
  · rename_i a t' heq
    obtain ⟨cs, -, rfl⟩ := Transaction.perform_ok.1 heq
    exact h.le_applyAll t.graph cs
  · rename_i cause t' heq
    rw [Transaction.perform_error heq]

theorem le_attemptAll (h : Counts last number?) (t : Transaction) (ms : List Mutation) :
    last t.graph ≤ last (t.attemptAll ms).graph := by
  induction ms generalizing t with
  | nil => exact le_refl _
  | cons m ms ih => exact (h.le_attempt t m).trans (ih (t.attempt m))

theorem le_finish (h : Counts last number?) (t : Transaction) (ending : Ending) :
    last t.graph ≤ last (t.finish ending) := by
  cases ending with
  | commit => exact le_refl _
  | rollback => exact h.le_applyAll t.graph _

/-- The identifiers of a transaction grow, from the counter before it to the one after it. -/
theorem answers (h : Counts last number?) (t : Transaction) (ms : List Mutation) :
    ((t.answers ms).filterMap number?).Pairwise (· < ·) ∧
      ∀ n ∈ (t.answers ms).filterMap number?,
        last t.graph < n ∧ n ≤ last (t.attemptAll ms).graph := by
  induction ms generalizing t with
  | nil => exact ⟨List.Pairwise.nil, by simp [Transaction.answers]⟩
  | cons m ms ih =>
    simp only [Transaction.answers, Transaction.attemptAll, List.foldl_cons, Transaction.attempt]
    split
    · rename_i a t' heq
      obtain ⟨cs, hperforms, rfl⟩ := Transaction.perform_ok.1 heq
      obtain ⟨hpairwise, hbounds⟩ := ih (t.record cs)
      have hle : last t.graph ≤ last (t.record cs).graph := h.le_applyAll t.graph cs
      have hrest := h.le_attemptAll (t.record cs) ms
      have hfirst := h.created t.graph m a cs hperforms
      rw [List.filterMap_cons]
      cases hnumber : number? ⟨m, a⟩ with
      | none =>
        refine ⟨hpairwise, fun n hn => ?_⟩
        have := hbounds n hn
        exact ⟨by omega, this.2⟩
      | some k =>
        have hk : last t.graph < k ∧ k ≤ last (t.record cs).graph := hfirst k hnumber
        refine ⟨List.pairwise_cons.2 ⟨fun n hn => ?_, hpairwise⟩, fun n hn => ?_⟩
        · have := hbounds n hn
          omega
        · obtain rfl | hn := List.mem_cons.1 hn
          · exact ⟨hk.1, hk.2.trans hrest⟩
          · have := hbounds n hn
            exact ⟨by omega, this.2⟩
    · rename_i cause t' heq
      obtain rfl := Transaction.perform_error heq
      exact ih t'

theorem answersOf (h : Counts last number?) (g : Graph) (ss : List Session) :
    ((g.answersOf ss).filterMap number?).Pairwise (· < ·) ∧
      ∀ n ∈ (g.answersOf ss).filterMap number?, last g < n := by
  induction ss generalizing g with
  | nil => exact ⟨List.Pairwise.nil, by simp [Graph.answersOf]⟩
  | cons s ss ih =>
    obtain ⟨hpairwise, hbounds⟩ := h.answers (Transaction.start g) s.mutations
    obtain ⟨hrestPairwise, hrestBounds⟩ := ih (s.run g)
    have hopened : last g ≤ last (s.opened g).graph := h.le_attemptAll (Transaction.start g) _
    have hfinish : last (s.opened g).graph ≤ last (s.run g) := h.le_finish _ _
    rw [Graph.answersOf, List.filterMap_append, List.pairwise_append]
    refine ⟨⟨hpairwise, hrestPairwise, fun a ha b hb => ?_⟩, fun n hn => ?_⟩
    · have hlow : a ≤ last (s.opened g).graph := (hbounds a ha).2
      have := hrestBounds b hb
      omega
    · obtain hn | hn := List.mem_append.1 hn
      · exact (hbounds n hn).1
      · have := hrestBounds n hn
        omega

end Counts

/-- The number of the vertex a mutation created, if it did. -/
def vertexNumber? : Answered → Option Nat
  | ⟨.createVertex, v⟩ => some v.number
  | _ => none

def edgeNumber? : Answered → Option Nat
  | ⟨.createEdge .., e⟩ => some e.number
  | _ => none

theorem counts_lastVertex : Counts lastVertex vertexNumber? where
  grows := lastVertex_le_apply
  created g m a cs h n hn := by
    cases h with
    | createVertex =>
      cases hn
      simp [Change.apply, insertVertex]
    | _ => simp [vertexNumber?] at hn

theorem counts_lastEdge : Counts lastEdge edgeNumber? where
  grows := lastEdge_le_apply
  created g m a cs h n hn := by
    cases h with
    | createEdge =>
      cases hn
      simp [Change.apply, insertEdge]
    | _ => simp [edgeNumber?] at hn

end Graph

namespace Graph

variable {g g' : Graph}

theorem run_wellFormed (hg : g.WellFormed) (s : Session) : (s.run g).WellFormed := by
  have htracks : (s.opened g).Tracks g := (Transaction.Tracks.start g).attemptAll hg
  have hopened := htracks.wellFormed hg
  unfold Session.run
  cases s.ending with
  | commit => exact hopened
  | rollback =>
    refine hg.of_content (htracks.content_rollback hg) ?_ ?_
    · exact (counts_lastVertex.le_attemptAll (Transaction.start g) s.mutations).trans
        (counts_lastVertex.le_finish _ .rollback)
    · exact (counts_lastEdge.le_attemptAll (Transaction.start g) s.mutations).trans
        (counts_lastEdge.le_finish _ .rollback)

theorem afterSessions_wellFormed (ss : List Session) : (afterSessions ss).WellFormed := by
  suffices h : ∀ g : Graph, g.WellFormed → (ss.foldl Session.run g).WellFormed from
    h {} WellFormed.empty
  induction ss with
  | nil => exact fun g hg => hg
  | cons s ss ih => exact fun g hg => ih (s.run g) (run_wellFormed hg s)

/-! ## Rollback -/

/-- No read tells the one graph from the other. -/
structure SameReads (g g' : Graph) : Prop where
  lookup? : ∀ entry, g.lookup? entry = g'.lookup? entry
  hasVertex : ∀ v, g.hasVertex v = g'.hasVertex v
  property : ∀ v key, g.property v key = g'.property v key
  propertyKeys : ∀ v, g.propertyKeys v = g'.propertyKeys v
  findEdges : ∀ v label direction, g.findEdges v label direction = g'.findEdges v label direction
  edge : ∀ e, g.edge e = g'.edge e
  edgeProperty : ∀ e key, g.edgeProperty e key = g'.edgeProperty e key
  edgePropertyKeys : ∀ e, g.edgePropertyKeys e = g'.edgePropertyKeys e
  lookupValue : ∀ entry, g.lookupValue entry = g'.lookupValue entry
  stats : g.stats = g'.stats
  keysOf : ∀ v, g.keysOf v = g'.keysOf v
  indexedOf : ∀ v, g.indexedOf v = g'.indexedOf v

theorem eq_of_content (h : g'.content = g.content) :
    g' = { g with lastVertex := g'.lastVertex, lastEdge := g'.lastEdge } := by
  simp only [content, Graph.mk.injEq] at h
  obtain ⟨hvertices, hedges, hkeys, hvalues, -, -⟩ := h
  rw [← hvertices, ← hedges, ← hkeys, ← hvalues]

theorem SameReads.of_counters (g : Graph) (lastVertex lastEdge : Nat) :
    SameReads { g with lastVertex, lastEdge } g := by
  constructor <;> intros <;> rfl

/-- The mutation answers that there was nothing to do. -/
def Declined : (m : Mutation) → m.Answer → Prop
  | .registerKey .., _ | .indexVertex .., _ | .createVertex, _ | .createEdge .., _ => False
  | .unregisterKey .., a | .deleteVertex .., a | .addProperty .., a | .removeProperty .., a
  | .removeKey .., a | .deleteEdge .., a | .addEdgeProperty .., a | .removeEdgeProperty .., a
  | .unindexVertex .., a => a = false

theorem Performs.eq_nil {m : Mutation} {a : m.Answer} {cs : List Change}
    (h : g.Performs m a cs) (hdeclined : Declined m a) : cs = [] := by
  cases h with
  | @removeKey v key =>
    have hnone : (g.propertiesOf v).values key = [] := by simpa [Declined] using hdeclined
    rw [hnone, List.map_nil]
  | registerKey_again | unregisterKey_gone | deleteVertex_gone | addProperty_again
  | removeProperty_gone | deleteEdge_gone | addEdgeProperty_again | removeEdgeProperty_gone
  | indexVertex_again | unindexVertex_gone => rfl
  | _ => cases hdeclined

/-- A rollback takes back whatever was tried, up to the counters, and a mutation that fails or has
nothing to do changes nothing in the first place. -/
theorem rollback_exact (ss : List Session) (ms : List Mutation) :
    let g := afterSessions ss
    let t := (Transaction.start g).attemptAll ms
    (∃ lastVertex lastEdge, g.lastVertex ≤ lastVertex ∧ g.lastEdge ≤ lastEdge ∧
        t.rollback = { g with lastVertex, lastEdge }) ∧
      SameReads t.rollback g ∧
      ∀ m : Mutation,
        (∀ cause t', (GraphM.perform m).run t = .error cause t' → t' = t) ∧
        ∀ a t', (GraphM.perform m).run t = .ok a t' → Declined m a → t' = t := by
  intro g t
  have hg := afterSessions_wellFormed ss
  have htracks : t.Tracks g := (Transaction.Tracks.start g).attemptAll hg
  have heq := eq_of_content (htracks.content_rollback hg)
  refine ⟨⟨t.rollback.lastVertex, t.rollback.lastEdge, ?_, ?_, heq⟩, ?_, fun m => ⟨?_, ?_⟩⟩
  · exact (counts_lastVertex.le_attemptAll (Transaction.start g) ms).trans
      (counts_lastVertex.le_finish _ .rollback)
  · exact (counts_lastEdge.le_attemptAll (Transaction.start g) ms).trans
      (counts_lastEdge.le_finish _ .rollback)
  · rw [heq]
    exact SameReads.of_counters g _ _
  · intro cause t' h
    exact Transaction.perform_error h
  · intro a t' h hdeclined
    obtain ⟨cs, hperforms, rfl⟩ := Transaction.perform_ok.1 h
    rw [hperforms.eq_nil hdeclined]
    rfl

/-! ## Consistency -/

/-- An edge leaves a vertex, enters it, or does one of the two. -/
def Incident (x : Edge) (v : VertexId) : Direction → Prop
  | .outgoing => x.source = v
  | .incoming => x.target = v
  | .both => x.source = v ∨ x.target = v

structure Consistent (g : Graph) : Prop where
  keyed : ∀ entry v, g.lookup? entry = some v ↔
    ∃ x, g.vertices[v]? = some x ∧ entry ∈ x.keys
  indexed : ∀ entry v, v ∈ g.lookupValue entry ↔
    ∃ x, g.vertices[v]? = some x ∧ entry ∈ x.indexed
  indexNonempty : ∀ (entry : Entry) (vs : VertexSet), g.valueIndex[entry]? = some vs → vs ≠ ∅
  valuesNonempty : ∀ v keys, g.propertyKeys v = .ok keys → ∀ key ∈ keys,
    ∃ values, g.property v key = .ok values ∧ values ≠ []
  edgeValuesNonempty : ∀ e keys, g.edgePropertyKeys e = .ok keys → ∀ key ∈ keys,
    ∃ values, g.edgeProperty e key = .ok values ∧ values ≠ []
  ends : ∀ (e : EdgeId) (x : Edge), g.edges[e]? = some x →
    g.hasVertex x.source ∧ g.hasVertex x.target
  /-- The edges found at a vertex are the edges that meet it, each once and oldest first. -/
  found : ∀ v, g.hasVertex v → ∀ label direction,
    ∃ es, g.findEdges v label direction = .ok es ∧
      es.Pairwise (fun a b => a.1.number < b.1.number) ∧
      ∀ e x, (e, x) ∈ es ↔
        g.edge? e = some x ∧ Incident x v direction ∧ (label = none ∨ label = some x.label)

theorem values_ne_nil {s : EntrySet} {key : String} (h : key ∈ s.keys) : s.values key ≠ [] := by
  obtain ⟨value, hvalue⟩ := EntrySet.mem_keys.1 h
  exact List.ne_nil_of_mem (EntrySet.mem_values.2 hvalue)

theorem meets_iff_incident {x : Edge} {v : VertexId} {direction : Direction} :
    x.meets v direction ↔ Incident x v direction := by
  cases direction <;> simp [Edge.meets, Incident]

theorem WellFormed.consistent (hg : g.WellFormed) : g.Consistent where
  keyed entry v := by
    rw [hg.lookup, Graph.keysOf]
    cases g.vertices[v]? <;> simp
  indexed entry v := by
    rw [hg.lookupValue, Graph.indexedOf]
    cases g.vertices[v]? <;> simp
  indexNonempty := hg.nonempty
  valuesNonempty v keys h key hkey := by
    obtain ⟨data, hv, h⟩ := vertex_bind_eq_ok.1 h
    cases h
    rw [← propertiesOf_eq hv] at hkey
    exact ⟨_, property_ok (mem_of_getElem?_eq hv), values_ne_nil hkey⟩
  edgeValuesNonempty e keys h key hkey := by
    obtain ⟨x, he, h⟩ := edge_bind_eq_ok.1 h
    cases h
    rw [← edgePropertiesOf_eq he] at hkey
    exact ⟨_, edgeProperty_ok (mem_of_getElem?_eq he), values_ne_nil hkey⟩
  ends e x h := by simpa [Graph.hasVertex] using hg.ends e x h
  found v hv label direction := by
    have hmem : v ∈ g.vertices := by simpa [Graph.hasVertex] using hv
    refine ⟨g.edgesAt v label direction, findEdges_ok hmem, pairwise_edgesAt, fun e x => ?_⟩
    rw [mem_edgesAt, meets_iff_incident, edge?]
    cases label <;> simp

/-- The graph is consistent at every point of every session, and no identifier is given out that is
not greater than those before it, those of deletions and of rollbacks included. -/
theorem sessions_consistent (ss : List Session) :
    (∀ ms, ((Transaction.start (afterSessions ss)).attemptAll ms).graph.Consistent) ∧
      ((answersOf {} ss).filterMap vertexNumber?).Pairwise (· < ·) ∧
      ((answersOf {} ss).filterMap edgeNumber?).Pairwise (· < ·) := by
  refine ⟨fun ms => ?_, (counts_lastVertex.answersOf {} ss).1, (counts_lastEdge.answersOf {} ss).1⟩
  have hg := afterSessions_wellFormed ss
  have htracks : ((Transaction.start (afterSessions ss)).attemptAll ms).Tracks (afterSessions ss) :=
    (Transaction.Tracks.start _).attemptAll hg
  exact (htracks.wellFormed hg).consistent

end Graph

end QuadStore
