import Mathlib
import QuadStore.Proofs.Term.Json
import QuadStore.Statement.Json
/-!
# The JSON form of statements

Statements, queries and raw statements are read back from the texts that they are written as, with
the names of their wildcards, and writing down what was read changes nothing more.
-/

namespace QuadStore

namespace Wildcard

theorem inverts : Json.Inverts toJson ofJson where
  plain w := .object _ fun m hm => by
    cases List.mem_singleton.1 hm
    cases w.name with
    | none => exact .null
    | some name => exact .string name
  read_write w := by
    obtain ⟨name⟩ := w
    cases name <;>
      simp [toJson, ofJson, read, Json.record, Json.ofOption, Json.asNullable, Json.asString,
        anonymous, bind, Except.bind, pure, Except.pure]

end Wildcard

namespace Slot

variable {α : Type} {write : α → Json} {read : Decoder α}

theorem inverts (h : Json.Inverts write read) : Json.Inverts (toJson write) (ofJson read) where
  plain slot := by
    cases slot with
    | bound a => exact h.plain_variant "bound" a
    | any w => exact Wildcard.inverts.plain_variant "any" w
  read_write slot := by
    cases slot with
    | bound a =>
      change bound <$> read (write a) = _
      rw [h.read_write]
      rfl
    | any w =>
      change any <$> Wildcard.ofJson w.toJson = _
      rw [Wildcard.inverts.read_write]
      rfl

def WellFormed (good : α → Prop) : Slot α → Prop
  | bound a => good a
  | any _ => True

theorem wellFormed {good : α → Prop} (h : ∀ a, good a) (slot : Slot α) : slot.WellFormed good := by
  cases slot with
  | bound a => exact h a
  | any w => trivial

end Slot

theorem contexts_inverts : Json.Inverts contextsToJson contextsOfJson := Context.inverts.list

/-! ## Statements -/

namespace Statement

/-- The terms are well formed, and the contexts are named, each once and in order. -/
structure WellFormed (s : Statement) : Prop where
  subject : s.subject.WellFormed
  predicate : s.predicate.WellFormed
  object : s.object.WellFormed
  contexts : ∀ c ∈ s.contextList, c.WellFormed
  increasing : s.contextList.Pairwise fun c d => compare c d = .lt
  named : .default ∉ s.contextList

theorem wellFormed (s : Statement) : s.WellFormed where
  subject := s.subject.wellFormed
  predicate := s.predicate.wellFormed
  object := s.object.wellFormed
  contexts c _ := c.wellFormed
  increasing := List.pairwise_map.2 (Std.ExtTreeSet.ordered_toList (t := s.contexts))
  named := by simp [contextList]

/-- A statement is made again from its contexts. -/
theorem ofContexts_contextList (s : Statement) : ofContexts s.triple s.contextList = s := by
  have hgraphs : namedGraphs s.contextList = s.contexts := by
    ext c
    simp [namedGraphs, contextList, Context.uri?]
  rw [ofContexts, hgraphs]

theorem inverts : Json.Inverts toJson ofJson where
  plain s := .object _ fun m hm => by
    simp only [List.mem_cons, List.not_mem_nil, or_false] at hm
    obtain rfl | rfl | rfl | rfl := hm
    · exact Resource.inverts.plain s.subject
    · exact Uri.inverts.plain s.predicate
    · exact Value.inverts.plain s.object
    · exact contexts_inverts.plain s.contextList
  read_write s := by
    have hrecord : s.toJson.record statementMembers = .ok
        [("subject", s.subject.toJson), ("predicate", s.predicate.toJson),
          ("object", s.object.toJson), ("contexts", contextsToJson s.contextList)] := by
      simp [toJson, Json.record, statementMembers]
    simp only [ofJson, hrecord, List.foldlM_cons, List.foldlM_nil, Parts.read,
      Resource.inverts.read_write, Uri.inverts.read_write, Value.inverts.read_write,
      contexts_inverts.read_write, Json.required, bind, Except.bind, pure, Except.pure]
    exact congrArg Except.ok s.ofContexts_contextList

end Statement

namespace RawStatement

structure WellFormed (r : RawStatement) : Prop where
  subject : r.subject.WellFormed Resource.WellFormed
  predicate : r.predicate.WellFormed Uri.WellFormed
  object : r.object.WellFormed Value.WellFormed
  contexts : r.contexts.WellFormed fun contexts => ∀ c ∈ contexts, c.WellFormed

theorem wellFormed (r : RawStatement) : r.WellFormed where
  subject := r.subject.wellFormed Resource.wellFormed
  predicate := r.predicate.wellFormed Uri.wellFormed
  object := r.object.wellFormed Value.wellFormed
  contexts := r.contexts.wellFormed fun _ c _ => c.wellFormed

theorem inverts : Json.Inverts toJson ofJson where
  plain r := .object _ fun m hm => by
    simp only [List.mem_cons, List.not_mem_nil, or_false] at hm
    obtain rfl | rfl | rfl | rfl := hm
    · exact (Slot.inverts Resource.inverts).plain r.subject
    · exact (Slot.inverts Uri.inverts).plain r.predicate
    · exact (Slot.inverts Value.inverts).plain r.object
    · exact (Slot.inverts contexts_inverts).plain r.contexts
  read_write r := by
    have hrecord : r.toJson.record statementMembers = .ok
        [("subject", r.subject.toJson Resource.toJson), ("predicate", r.predicate.toJson Uri.toJson),
          ("object", r.object.toJson Value.toJson),
          ("contexts", r.contexts.toJson contextsToJson)] := by
      simp [toJson, Json.record, statementMembers]
    simp only [ofJson, hrecord, List.foldlM_cons, List.foldlM_nil, Parts.read,
      (Slot.inverts Resource.inverts).read_write, (Slot.inverts Uri.inverts).read_write,
      (Slot.inverts Value.inverts).read_write, (Slot.inverts contexts_inverts).read_write,
      Json.required, bind, Except.bind, pure, Except.pure]

end RawStatement

namespace Query

structure WellFormed (q : Query) : Prop where
  subject : q.subject.WellFormed Resource.WellFormed
  predicate : q.predicate.WellFormed
  object : q.object.WellFormed Value.WellFormed
  contexts : q.contexts.WellFormed fun contexts => ∀ c ∈ contexts, c.WellFormed

theorem wellFormed (q : Query) : q.WellFormed where
  subject := q.subject.wellFormed Resource.wellFormed
  predicate := q.predicate.wellFormed
  object := q.object.wellFormed Value.wellFormed
  contexts := q.contexts.wellFormed fun _ c _ => c.wellFormed

theorem inverts : Json.Inverts toJson ofJson where
  plain q := .object _ fun m hm => by
    simp only [List.mem_cons, List.not_mem_nil, or_false] at hm
    obtain rfl | rfl | rfl | rfl := hm
    · exact (Slot.inverts Resource.inverts).plain q.subject
    · exact Uri.inverts.plain q.predicate
    · exact (Slot.inverts Value.inverts).plain q.object
    · exact (Slot.inverts contexts_inverts).plain q.contexts
  read_write q := by
    have hrecord : q.toJson.record statementMembers = .ok
        [("subject", q.subject.toJson Resource.toJson), ("predicate", q.predicate.toJson),
          ("object", q.object.toJson Value.toJson),
          ("contexts", q.contexts.toJson contextsToJson)] := by
      simp [toJson, Json.record, statementMembers]
    simp only [ofJson, hrecord, List.foldlM_cons, List.foldlM_nil, Parts.read,
      (Slot.inverts Resource.inverts).read_write, Uri.inverts.read_write,
      (Slot.inverts Value.inverts).read_write, (Slot.inverts contexts_inverts).read_write,
      Json.required, bind, Except.bind, pure, Except.pure]

end Query

/-! ## Texts -/

namespace Json

variable {α : Type} {write : α → Json} {read : Decoder α} {WellFormed : α → Prop}

/-- Read a text and write down what was read. -/
def rewrite? (write : α → Json) (read : Decoder α) (text : String) : Option String := do
  let a ← (read (← parse? text)).toOption
  return (write a).render

/-- What is written as text is read back, only what is well formed is ever read, and what was
written down after reading stays as it is. -/
structure Faithful (write : α → Json) (read : Decoder α) (WellFormed : α → Prop) : Prop where
  reads : ∀ a, (parse? (write a).render).map read = some (.ok a)
  admits : ∀ j a, read j = .ok a → WellFormed a
  settles : ∀ text text', rewrite? write read text = some text' →
    rewrite? write read text' = some text'

theorem Inverts.faithful (h : Inverts write read) (hgood : ∀ a, WellFormed a) :
    Faithful write read WellFormed where
  reads := h.parse_render
  admits _ a _ := hgood a
  settles text text' htext := by
    obtain ⟨j, -, a, -, rfl⟩ : ∃ j, parse? text = some j ∧ ∃ a, (read j).toOption = some a ∧
        (write a).render = text' := by
      simpa [rewrite?, Option.bind_eq_some_iff] using htext
    simp only [rewrite?, parse?_render (h.plain a), h.read_write, Except.toOption,
      Option.bind_eq_bind, Option.bind_some, Option.pure_def]

end Json

/-- The JSON form of the model loses nothing and admits only what is valid. -/
theorem json_faithful :
    Json.Faithful Uri.toJson Uri.ofJson Uri.WellFormed ∧
    Json.Faithful BlankNode.toJson BlankNode.ofJson BlankNode.WellFormed ∧
    Json.Faithful Literal.toJson Literal.ofJson Literal.WellFormed ∧
    Json.Faithful Resource.toJson Resource.ofJson Resource.WellFormed ∧
    Json.Faithful Value.toJson Value.ofJson Value.WellFormed ∧
    Json.Faithful Context.toJson Context.ofJson Context.WellFormed ∧
    Json.Faithful Wildcard.toJson Wildcard.ofJson (fun _ => True) ∧
    Json.Faithful RawStatement.toJson RawStatement.ofJson RawStatement.WellFormed ∧
    Json.Faithful Statement.toJson Statement.ofJson Statement.WellFormed ∧
    Json.Faithful Query.toJson Query.ofJson Query.WellFormed :=
  ⟨Uri.inverts.faithful Uri.wellFormed, BlankNode.inverts.faithful BlankNode.wellFormed,
    Literal.inverts.faithful Literal.wellFormed, Resource.inverts.faithful Resource.wellFormed,
    Value.inverts.faithful Value.wellFormed, Context.inverts.faithful Context.wellFormed,
    Wildcard.inverts.faithful fun _ => trivial, RawStatement.inverts.faithful RawStatement.wellFormed,
    Statement.inverts.faithful Statement.wellFormed, Query.inverts.faithful Query.wellFormed⟩

end QuadStore
