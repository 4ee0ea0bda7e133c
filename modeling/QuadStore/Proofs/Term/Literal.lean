import Mathlib
import QuadStore.Proofs.Json.RoundTrip
import QuadStore.Term.Json
/-!
# The text of a literal

A literal is read back from the text it is stored as, so that literals with the same text are the
same.
-/

namespace QuadStore

theorem toLower_of_not_isUpper {c : Char} (h : c.isUpper = false) : c.toLower = c := by
  unfold Char.toLower
  split
  · rename_i hupper
    rw [Char.isUpper, decide_eq_false_iff_not] at h
    exact absurd hupper h
  · rfl

namespace LanguageTag

/-- A language tag is made again from its text. -/
theorem ofString_text (tag : LanguageTag) : ofString tag.text = .ok tag := by
  have hlower : tag.text.toList.map Char.toLower = tag.text.toList := by
    refine (List.map_congr_left fun c hc => ?_).trans (List.map_id _)
    have hc := List.all_eq_true.1 tag.lower c hc
    exact toLower_of_not_isUpper (by simpa using hc)
  have htext : String.ofList (tag.text.toList.map Char.toLower) = tag.text := by
    rw [hlower, String.ofList_toList]
  simp only [ofString, htext]
  rw [dif_pos ⟨tag.valid, tag.lower⟩]

end LanguageTag

namespace Literal

/-- The parts of a literal make the literal. -/
theorem ofParts_self (l : Literal) :
    ofParts l.value l.datatype (l.language.map (·.text)) = .ok l := by
  obtain ⟨value, kind⟩ := l
  cases kind with
  | plain => rfl
  | typed datatype => rfl
  | tagged language =>
    simp [ofParts, datatype, Literal.language, LanguageTag.ofString_text, bind, Except.bind, pure,
      Except.pure]

theorem plain_toJson (l : Literal) : l.toJson.Plain := by
  refine .object _ fun m hm => ?_
  simp only [List.mem_cons, List.not_mem_nil, or_false] at hm
  obtain rfl | rfl | rfl := hm
  · exact .string _
  · cases l.datatype with
    | none => exact .null
    | some datatype => exact .string _
  · cases l.language with
    | none => exact .null
    | some language => exact .string _

theorem partsOfJson_toJson (l : Literal) :
    partsOfJson l.toJson = .ok ⟨some l.value, l.datatype, l.language.map (·.text)⟩ := by
  have hrecord : l.toJson.record ["value", "datatype", "language"] = .ok
      [("value", .string l.value), ("datatype", Json.ofOption Uri.toJson l.datatype),
        ("language", Json.ofOption (fun tag => .string tag.text) l.language)] := by
    simp [toJson, Json.record]
  simp only [partsOfJson, hrecord, bind, Except.bind]
  cases hd : l.datatype <;> cases hl : l.language <;>
    simp [Parts.read, Json.ofOption, Json.asString, Json.asNullable, Uri.ofJson, Uri.toJson,
      Uri.ofString_text, Json.checked, bind, Except.bind, pure, Except.pure]

/-- A literal is read back from its text. -/
theorem decode_encode (l : Literal) : decode l.encode = .ok l := by
  have hread : Json.read? l.encode.toList = some (l.toJson, []) := by
    have hwrite := Json.read?_write (plain_toJson l) []
    rw [List.append_nil] at hwrite
    rw [encode, Json.render, String.toList_ofList, hwrite]
  simp only [decode, hread, partsOfJson_toJson, Json.required, Json.checked, ofParts_self, bind,
    Except.bind, Json.isEnd]
  rfl

theorem encode_injective {a b : Literal} (h : a.encode = b.encode) : a = b := by
  have hdecode := decode_encode a
  rw [h, decode_encode b] at hdecode
  cases hdecode
  rfl

/-- Nothing of a literal is lost, neither in its text nor in its parts. -/
theorem encoding_lossless (l : Literal) :
    decode l.encode = .ok l ∧ (∀ m : Literal, m.encode = l.encode ↔ m = l) ∧
      ofParts l.value l.datatype (l.language.map (·.text)) = .ok l :=
  ⟨decode_encode l, fun _ => ⟨encode_injective, congrArg encode⟩, ofParts_self l⟩

end Literal

end QuadStore
