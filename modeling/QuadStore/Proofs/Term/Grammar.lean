import Mathlib
import QuadStore.Term.BlankNode
import QuadStore.Term.Literal
/-!
# The grammar of terms

What the texts of terms are made of: a URI has a scheme and a tail, a language tag has parts between
hyphens, and neither they nor the label of a blank node hold blanks.
-/

namespace QuadStore

/-! ## URIs -/

/-- The grammar of URIs, by the parts that a text is made of. -/
structure IsUri (s : List Char) (first : Char) (scheme tail : List Char) : Prop where
  text : s = first :: (scheme ++ ':' :: tail)
  alpha : first.isAlpha = true
  scheme : ∀ c ∈ scheme, isSchemeChar c = true
  tail : ∀ c ∈ tail, Text.isBlank c = false ∧ isUriDelimiter c = false

theorem isUriText_iff {s : List Char} :
    isUriText s = true ↔ ∃ first scheme tail, IsUri s first scheme tail := by
  constructor
  · intro h
    unfold isUriText at h
    split at h
    · cases h
    · rename_i first rest
      rw [Bool.and_eq_true] at h
      obtain ⟨hfirst, hrest⟩ := h
      split at hrest
      · rename_i tail heq
        refine ⟨first, rest.takeWhile isSchemeChar, tail, ?_, hfirst,
          fun c hc => List.mem_takeWhile_imp hc, fun c hc => ?_⟩
        · rw [← heq, List.takeWhile_append_dropWhile]
        · have htail := List.all_eq_true.1 hrest c hc
          rw [Bool.and_eq_true, Bool.not_eq_true', Bool.not_eq_true'] at htail
          exact htail
      · cases hrest
  · rintro ⟨first, scheme, tail, rfl, hfirst, hscheme, htail⟩
    have hdrop : (scheme ++ ':' :: tail).dropWhile isSchemeChar = ':' :: tail := by
      rw [List.dropWhile_append_of_pos hscheme]
      rfl
    simp only [isUriText, hdrop, hfirst, Bool.true_and, List.all_eq_true]
    intro c hc
    rw [(htail c hc).1, (htail c hc).2]
    rfl

theorem toNat_lt_of_isAlphanum {c : Char} (h : c.isAlphanum = true) : c.toNat < 128 := by
  have hranges : (65 ≤ c.toNat ∧ c.toNat ≤ 90 ∨ 97 ≤ c.toNat ∧ c.toNat ≤ 122) ∨
      48 ≤ c.toNat ∧ c.toNat ≤ 57 := by
    simpa [Char.isAlphanum, Char.isAlpha, Char.isUpper, Char.isLower, Char.isDigit,
      UInt32.le_iff_toNat_le] using h
  omega

/-- What may stand in a scheme is neither a blank nor a delimiter. -/
theorem not_isBlank_of_isSchemeChar {c : Char} (h : isSchemeChar c = true) :
    Text.isBlank c = false ∧ isUriDelimiter c = false := by
  have hascii : ∀ n < 128, isSchemeChar (Char.ofNat n) = true →
      Text.isBlank (Char.ofNat n) = false ∧ isUriDelimiter (Char.ofNat n) = false := by decide
  have hsmall : c.toNat < 128 := by
    simp only [isSchemeChar, Bool.or_eq_true, beq_iff_eq] at h
    obtain ((h | rfl) | rfl) | rfl := h
    · exact toNat_lt_of_isAlphanum h
    all_goals decide
  rw [← Char.ofNat_toNat c] at h ⊢
  exact hascii c.toNat hsmall h

namespace Uri

theorem grammar (u : Uri) : ∃ first scheme tail, IsUri u.text.toList first scheme tail :=
  isUriText_iff.1 u.valid

theorem not_isBlank_of_mem {u : Uri} {c : Char} (hc : c ∈ u.text.toList) :
    Text.isBlank c = false ∧ isUriDelimiter c = false := by
  obtain ⟨first, scheme, tail, htext, hfirst, hscheme, htail⟩ := u.grammar
  rw [htext, List.mem_cons, List.mem_append, List.mem_cons] at hc
  obtain rfl | hc | rfl | hc := hc
  · exact not_isBlank_of_isSchemeChar (by simp [isSchemeChar, Char.isAlphanum, hfirst])
  · exact not_isBlank_of_isSchemeChar (hscheme c hc)
  · decide
  · exact htail c hc

theorem brace_not_mem (u : Uri) : '\x7b' ∉ u.text.toList := fun h =>
  absurd (not_isBlank_of_mem h).2 (by decide)

end Uri

/-! ## Blank nodes -/

theorem BlankNode.not_isBlank_of_mem {b : BlankNode} {c : Char} (hc : c ∈ b.label.toList) :
    Text.isBlank c = false := by
  have hvalid := b.valid
  rw [isBlankNodeLabel, Bool.and_eq_true, List.all_eq_true] at hvalid
  simpa using hvalid.2 c hc

/-! ## Language tags -/

/-- The grammar of language tags: what stands between the hyphens. -/
structure IsTag (s : List Char) (primary : List Char) (rest : List (List Char)) : Prop where
  text : s = ['-'].intercalate (primary :: rest)
  primary : isTagPart Char.isAlpha primary = true
  rest : ∀ part ∈ rest, isTagPart Char.isAlphanum part = true

theorem isTagPart_iff {accepts : Char → Bool} {part : List Char} :
    isTagPart accepts part = true ↔
      part ≠ [] ∧ part.length ≤ 8 ∧ ∀ c ∈ part, accepts c = true := by
  simp [isTagPart, and_assoc]

theorem IsTag.isAlphanum_of_mem {s primary : List Char} {rest : List (List Char)}
    (h : IsTag s primary rest) {part : List Char} (hpart : part ∈ primary :: rest) {c : Char}
    (hc : c ∈ part) : c.isAlphanum = true := by
  rw [List.mem_cons] at hpart
  obtain rfl | hpart := hpart
  · have halpha := (isTagPart_iff.1 h.primary).2.2 c hc
    simp [Char.isAlphanum, halpha]
  · exact (isTagPart_iff.1 (h.rest part hpart)).2.2 c hc

theorem isLanguageTag_iff {s : List Char} :
    isLanguageTag s = true ↔ ∃ primary rest, IsTag s primary rest := by
  constructor
  · intro h
    unfold isLanguageTag at h
    split at h
    · cases h
    · rename_i primary rest heq
      rw [Bool.and_eq_true, List.all_eq_true] at h
      exact ⟨primary, rest, by rw [← heq, List.intercalate_splitOn], h.1, h.2⟩
  · rintro ⟨primary, rest, h⟩
    have hsplit : s.splitOn '-' = primary :: rest := by
      rw [h.text]
      refine List.splitOn_intercalate '-' (fun part hpart hc => ?_) (List.cons_ne_nil _ _)
      exact absurd (h.isAlphanum_of_mem hpart hc) (by decide)
    simp only [isLanguageTag, hsplit, h.primary, Bool.true_and, List.all_eq_true]
    exact h.rest

theorem mem_intercalate {α : Type} {x c : α} {parts : List (List α)}
    (h : c ∈ [x].intercalate parts) : c = x ∨ ∃ part ∈ parts, c ∈ part := by
  induction parts with
  | nil => simp at h
  | cons part parts ih =>
    cases parts with
    | nil => exact .inr ⟨part, by simp, by simpa using h⟩
    | cons next parts =>
      rw [List.intercalate_cons_cons, List.mem_append, List.mem_append, List.mem_singleton] at h
      obtain (h | h) | h := h
      · exact .inr ⟨part, by simp, h⟩
      · exact .inl h
      · obtain h | ⟨q, hq, hc⟩ := ih h
        · exact .inl h
        · exact .inr ⟨q, List.mem_cons_of_mem _ hq, hc⟩

namespace LanguageTag

theorem grammar (tag : LanguageTag) : ∃ primary rest, IsTag tag.text.toList primary rest :=
  isLanguageTag_iff.1 tag.valid

theorem of_mem {tag : LanguageTag} {c : Char} (hc : c ∈ tag.text.toList) :
    c = '-' ∨ c.isAlphanum = true := by
  obtain ⟨primary, rest, h⟩ := tag.grammar
  rw [h.text] at hc
  obtain rfl | ⟨part, hpart, hc⟩ := mem_intercalate hc
  · exact .inl rfl
  · exact .inr (h.isAlphanum_of_mem hpart hc)

end LanguageTag

end QuadStore
