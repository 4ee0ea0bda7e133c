import Mathlib
import QuadStore.Proofs.Term.Grammar
import QuadStore.Proofs.Term.Literal
/-!
# The JSON form of terms

A term is read back from the value it is written as, and whatever is read is a term by the grammar
of its kind.
-/

namespace QuadStore

/-- A type is written as plain values, and read back from them. -/
structure Json.Inverts {α : Type} (write : α → Json) (read : Decoder α) : Prop where
  plain : ∀ a, (write a).Plain
  read_write : ∀ a, read (write a) = .ok a

namespace Json.Inverts

variable {α : Type} {write : α → Json} {read : Decoder α}

theorem parse_render (h : Inverts write read) (a : α) :
    (Json.parse? (write a).render).map read = some (.ok a) := by
  rw [Json.parse?_render (h.plain a), Option.map_some, h.read_write]

theorem list (h : Inverts write read) :
    Inverts (fun as : List α => .array (as.map write)) (Json.asList read) where
  plain as := .array _ fun j hj => by
    obtain ⟨a, -, rfl⟩ := List.mem_map.1 hj
    exact h.plain a
  read_write as := by
    simp only [Json.asList]
    induction as with
    | nil => rfl
    | cons a as ih =>
      rw [List.map_cons, List.mapM_cons, h.read_write, ih]
      rfl

/-- A variant that holds a value is an object with one member. -/
theorem plain_variant (h : Inverts write read) (name : String) (a : α) :
    (Json.object [(name, write a)]).Plain :=
  .object _ fun m hm => by
    cases List.mem_singleton.1 hm
    exact h.plain a

end Json.Inverts

/-! ## Well-formed terms -/

def Uri.WellFormed (u : Uri) : Prop := ∃ first scheme tail, IsUri u.text.toList first scheme tail

def BlankNode.WellFormed (b : BlankNode) : Prop :=
  b.label ≠ "" ∧ ∀ c ∈ b.label.toList, Text.isBlank c = false

/-- A tag by the grammar, in lower case. -/
def LanguageTag.WellFormed (tag : LanguageTag) : Prop :=
  (∃ primary rest, IsTag tag.text.toList primary rest) ∧
    ∀ c ∈ tag.text.toList, c.isUpper = false

/-- No literal has both a datatype and a language. -/
structure Literal.WellFormed (l : Literal) : Prop where
  exclusive : l.datatype = none ∨ l.language = none
  datatype : ∀ u ∈ l.datatype, u.WellFormed
  language : ∀ tag ∈ l.language, tag.WellFormed

def Resource.WellFormed : Resource → Prop
  | uri u => u.WellFormed
  | blank b => b.WellFormed

def Value.WellFormed : Value → Prop
  | resource r => r.WellFormed
  | literal l => l.WellFormed

def Context.WellFormed : Context → Prop
  | default => True
  | named u => u.WellFormed

/-! ## Terms -/

namespace Uri

theorem inverts : Json.Inverts toJson ofJson where
  plain u := .string u.text
  read_write u := by
    simp only [toJson, ofJson, Json.asString, bind, Except.bind, ofString_text]
    rfl

theorem wellFormed (u : Uri) : u.WellFormed := u.grammar

end Uri

namespace BlankNode

theorem inverts : Json.Inverts toJson ofJson where
  plain b := .string b.label
  read_write b := by
    simp only [toJson, ofJson, Json.asString, bind, Except.bind, ofString_label]
    rfl

theorem isBlankNodeLabel_iff {text : String} : isBlankNodeLabel text.toList = true ↔
    text ≠ "" ∧ ∀ c ∈ text.toList, Text.isBlank c = false := by
  simp [isBlankNodeLabel]

theorem wellFormed (b : BlankNode) : b.WellFormed := isBlankNodeLabel_iff.1 b.valid

end BlankNode

theorem LanguageTag.wellFormed (tag : LanguageTag) : tag.WellFormed := by
  refine ⟨tag.grammar, fun c hc => ?_⟩
  simpa using List.all_eq_true.1 tag.lower c hc

namespace Literal

theorem inverts : Json.Inverts toJson ofJson where
  plain := plain_toJson
  read_write l := by
    simp only [ofJson, partsOfJson_toJson, Json.required, Json.checked, ofParts_self, bind,
      Except.bind]

theorem wellFormed (l : Literal) : l.WellFormed := by
  refine ⟨?_, fun u _ => u.wellFormed, fun tag _ => tag.wellFormed⟩
  obtain ⟨value, kind⟩ := l
  cases kind with
  | plain => exact .inl rfl
  | typed datatype => exact .inr rfl
  | tagged language => exact .inl rfl

end Literal

namespace Resource

theorem inverts : Json.Inverts toJson ofJson where
  plain r := by
    cases r with
    | uri u => exact Uri.inverts.plain_variant "uri" u
    | blank b => exact BlankNode.inverts.plain_variant "blank" b
  read_write r := by
    cases r with
    | uri u =>
      change uri <$> Uri.ofJson u.toJson = _
      rw [Uri.inverts.read_write]
      rfl
    | blank b =>
      change blank <$> BlankNode.ofJson b.toJson = _
      rw [BlankNode.inverts.read_write]
      rfl

theorem wellFormed (r : Resource) : r.WellFormed := by
  cases r with
  | uri u => exact u.wellFormed
  | blank b => exact b.wellFormed

end Resource

namespace Value

theorem inverts : Json.Inverts toJson ofJson where
  plain v := by
    cases v with
    | resource r => exact Resource.inverts.plain_variant "resource" r
    | literal l => exact Literal.inverts.plain_variant "literal" l
  read_write v := by
    cases v with
    | resource r =>
      change resource <$> Resource.ofJson r.toJson = _
      rw [Resource.inverts.read_write]
      rfl
    | literal l =>
      change literal <$> Literal.ofJson l.toJson = _
      rw [Literal.inverts.read_write]
      rfl

theorem wellFormed (v : Value) : v.WellFormed := by
  cases v with
  | resource r => exact r.wellFormed
  | literal l => exact l.wellFormed

end Value

namespace Context

theorem inverts : Json.Inverts toJson ofJson where
  plain c := by
    cases c with
    | default => exact .string _
    | named u => exact Uri.inverts.plain_variant "named" u
  read_write c := by
    cases c with
    | default => rfl
    | named u =>
      change named <$> Uri.ofJson u.toJson = _
      rw [Uri.inverts.read_write]
      rfl

theorem wellFormed (c : Context) : c.WellFormed := by
  cases c with
  | default => trivial
  | named u => exact u.wellFormed

end Context

end QuadStore
