import Mathlib
import QuadStore.Proofs.Encoder.Names
import QuadStore.Quads.Basic
/-!
# The spelling of quads

A line tells its quad, and some lines on end tell each of theirs. Only a string datatype, which is
left out, cannot be told.
-/

namespace QuadStore

/-! ## What a reader takes a term for -/

/-- A literal with a string datatype is read as a plain one. -/
def LiteralKind.asRead : LiteralKind → LiteralKind
  | plain => plain
  | typed datatype => if datatype.text = xsdString then plain else typed datatype
  | tagged language => tagged language

def Literal.asRead (l : Literal) : Literal := { l with kind := l.kind.asRead }

def Value.asRead : Value → Value
  | resource r => resource r
  | literal l => literal l.asRead

def Quad.asRead (q : Quad) : Quad :=
  { q with triple := { q.triple with object := q.triple.object.asRead } }

namespace Quads

/-! ## Escapes -/

theorem hexNumber?_upperHexDigits {n : Nat} (h : n < 65536) :
    Text.hexNumber? (Text.upperHexDigits n) = some n := by
  have hdigits : ∀ m < 16, Text.hexValue? (Nat.digitChar m).toUpper = some m := by decide
  have hdigit (m : Nat) : Text.hexValue? (Text.upperHexDigit m) = some (m % 16) :=
    hdigits (m % 16) (Nat.mod_lt _ (by decide))
  simp only [Text.hexNumber?, Text.upperHexDigits, List.map_cons, List.map_nil, List.foldlM_cons,
    List.foldlM_nil, hdigit, Option.map_some, Option.bind_eq_bind, Option.bind_some, Option.pure_def,
    Option.some.injEq]
  omega

/-- What a letter after a backslash stands for. -/
def escape? : Char → Option Char
  | 'b' => some '\x08'
  | 't' => some '\t'
  | 'n' => some '\n'
  | 'f' => some '\x0c'
  | 'r' => some '\r'
  | '"' => some '"'
  | '\\' => some '\\'
  | _ => none

/-- What follows a backslash, read off the front of a text. -/
def readEscape? : List Char → Option (Char × List Char)
  | 'u' :: a :: b :: c :: d :: s => (Text.hexNumber? [a, b, c, d]).map fun n => (Char.ofNat n, s)
  | e :: s => (escape? e).map fun c => (c, s)
  | [] => none

/-- The first character of a text inside quotes, and what follows it. -/
def readChar? : List Char → Option (Char × List Char)
  | [] => none
  | c :: s => if c = '\\' then readEscape? s else some (c, s)

/-- A character is read back as it was written. -/
theorem readChar?_escapedChar (c : Char) (s : List Char) :
    readChar? (escapedChar c ++ s) = some (c, s) := by
  unfold escapedChar
  split_ifs with hb ht hn hf hr hquote hslash hnumber
  · subst hb; rfl
  · subst ht; rfl
  · subst hn; rfl
  · subst hf; rfl
  · subst hr; rfl
  · subst hquote; rfl
  · subst hslash; rfl
  · have hsmall : c.toNat < 65536 := by
      simp only [needsNumber, Bool.or_eq_true, decide_eq_true_eq, beq_iff_eq] at hnumber
      omega
    change (Text.hexNumber? (Text.upperHexDigits c.toNat)).map _ = _
    rw [hexNumber?_upperHexDigits hsmall, Option.map_some, Char.ofNat_toNat]
    rfl
  · simp only [List.singleton_append, readChar?, hslash, if_false]

/-- No character is written as a quote that could be taken for the end. -/
theorem escapedChar_head (c : Char) : ∃ h s, escapedChar c = h :: s ∧ h ≠ '"' := by
  unfold escapedChar
  split_ifs with hb ht hn hf hr hquote hslash hnumber
  all_goals first
    | exact ⟨_, _, rfl, by decide⟩
    | exact ⟨_, _, rfl, hquote⟩

/-- Characters that are read back one by one tell the text they spell, up to the closing quote. -/
theorem spelled_append_inj {spell : Char → List Char}
    (read : ∀ c s, readChar? (spell c ++ s) = some (c, s))
    (head : ∀ c, ∃ h s, spell c = h :: s ∧ h ≠ '"') {v w s t : List Char}
    (h : v.flatMap spell ++ '"' :: s = w.flatMap spell ++ '"' :: t) : v = w ∧ s = t := by
  induction v generalizing w with
  | nil =>
    cases w with
    | nil => exact ⟨rfl, (List.cons.inj h).2⟩
    | cons d w =>
      obtain ⟨x, r, hd, hx⟩ := head d
      rw [List.flatMap_cons, hd] at h
      exact absurd (List.cons.inj h).1.symm hx
  | cons c v ih =>
    cases w with
    | nil =>
      obtain ⟨x, r, hc, hx⟩ := head c
      rw [List.flatMap_cons, hc] at h
      exact absurd (List.cons.inj h).1 hx
    | cons d w =>
      rw [List.flatMap_cons, List.flatMap_cons, List.append_assoc, List.append_assoc] at h
      have hread := congrArg readChar? h
      rw [read, read] at hread
      obtain ⟨rfl, hrest⟩ := Prod.mk.inj (Option.some.inj hread)
      obtain ⟨rfl, rfl⟩ := ih hrest
      exact ⟨rfl, rfl⟩

theorem quotedText_toList (v : String) :
    (quotedText v).toList = '"' :: (v.toList.flatMap escapedChar ++ ['"']) := by
  simp [quotedText]

theorem quotedText_append_inj {v w : String} {s t : List Char}
    (h : (quotedText v).toList ++ s = (quotedText w).toList ++ t) : v = w ∧ s = t := by
  simp only [quotedText_toList, List.cons_append, List.append_assoc, List.nil_append,
    List.cons.injEq, true_and] at h
  obtain ⟨hvalue, hrest⟩ := spelled_append_inj readChar?_escapedChar escapedChar_head h
  exact ⟨String.toList_inj.1 hvalue, hrest⟩

/-! ## Terms -/

theorem render_uri_toList (u : Uri) : u.render.toList = '<' :: (u.text.toList ++ ['>']) := by
  simp [Uri.render]

theorem uri_append_inj {u v : Uri} {s t : List Char}
    (h : u.render.toList ++ s = v.render.toList ++ t) : u = v ∧ s = t := by
  have hend (w : Uri) : '>' ∉ w.text.toList := fun hmem =>
    absurd (Uri.not_isBlank_of_mem hmem).2 (by decide)
  simp only [render_uri_toList, List.cons_append, List.append_assoc, List.nil_append,
    List.cons.injEq, true_and] at h
  obtain ⟨htext, hrest⟩ := Vocabulary.append_cons_inj (hend u) (hend v) h
  exact ⟨Uri.ext (String.toList_inj.1 htext), hrest⟩

theorem blank_append_inj {a b : BlankNode} {s t : List Char}
    (h : a.render.toList ++ ' ' :: s = b.render.toList ++ ' ' :: t) : a = b ∧ s = t := by
  have hend (n : BlankNode) : ' ' ∉ n.label.toList := fun hmem =>
    absurd (BlankNode.not_isBlank_of_mem hmem) (by decide)
  simp only [BlankNode.render, String.toList_append, List.append_assoc,
    List.append_cancel_left_eq] at h
  obtain ⟨htext, hrest⟩ := Vocabulary.append_cons_inj (hend a) (hend b) h
  exact ⟨BlankNode.ext (String.toList_inj.1 htext), hrest⟩

theorem resource_append_inj {r q : Resource} {s t : List Char}
    (h : r.render.toList ++ ' ' :: s = q.render.toList ++ ' ' :: t) : r = q ∧ s = t := by
  have hapart (u : Uri) (b : BlankNode) (s t : List Char) :
      u.render.toList ++ s ≠ b.render.toList ++ t := by
    simp [render_uri_toList, BlankNode.render]
  cases r with
  | uri u =>
    cases q with
    | uri v =>
      obtain ⟨rfl, hrest⟩ := uri_append_inj h
      exact ⟨rfl, (List.cons.inj hrest).2⟩
    | blank b => exact absurd h (hapart _ _ _ _)
  | blank a =>
    cases q with
    | uri v => exact absurd h.symm (hapart _ _ _ _)
    | blank b =>
      obtain ⟨rfl, rfl⟩ := blank_append_inj h
      exact ⟨rfl, rfl⟩

theorem tag_append_inj {a b : LanguageTag} {s t : List Char}
    (h : a.text.toList ++ ' ' :: s = b.text.toList ++ ' ' :: t) : a = b ∧ s = t := by
  have hend (tag : LanguageTag) : ' ' ∉ tag.text.toList := fun hmem =>
    absurd (LanguageTag.of_mem hmem) (by decide)
  obtain ⟨htext, hrest⟩ := Vocabulary.append_cons_inj (hend a) (hend b) h
  exact ⟨LanguageTag.ext (String.toList_inj.1 htext), hrest⟩

/-! ## Literals -/

/-- What is written after the value of a literal of this kind. -/
def ending (kind : LiteralKind) : List Char :=
  match kind.asRead with
  | .plain => []
  | .typed datatype => '^' :: '^' :: datatype.render.toList
  | .tagged language => '@' :: language.text.toList

theorem renderLiteral_toList (l : Literal) :
    (renderLiteral l).toList = (quotedText l.value).toList ++ ending l.kind := by
  obtain ⟨value, kind⟩ := l
  cases kind with
  | plain => simp [renderLiteral, ending, LiteralKind.asRead]
  | typed datatype =>
    by_cases hstring : datatype.text = xsdString <;>
      simp [renderLiteral, ending, LiteralKind.asRead, hstring]
  | tagged language => simp [renderLiteral, ending, LiteralKind.asRead]

theorem asRead_asRead (kind : LiteralKind) : kind.asRead.asRead = kind.asRead := by
  cases kind with
  | plain => rfl
  | typed datatype =>
    by_cases hstring : datatype.text = xsdString <;> simp [LiteralKind.asRead, hstring]
  | tagged language => rfl

/-- What stands after the quotes of a literal of this kind. -/
def suffix : LiteralKind → List Char
  | .plain => []
  | .typed datatype => '^' :: '^' :: datatype.render.toList
  | .tagged language => '@' :: language.text.toList

theorem suffix_append_inj {k m : LiteralKind} {s t : List Char}
    (h : suffix k ++ ' ' :: s = suffix m ++ ' ' :: t) : k = m ∧ s = t := by
  unfold suffix at h
  cases k with
  | plain =>
    cases m with
    | plain => simpa using h
    | typed datatype => simp at h
    | tagged language => simp at h
  | typed datatype =>
    cases m with
    | plain => simp at h
    | typed datatype' =>
      simp only [List.cons_append, List.cons.injEq, true_and] at h
      obtain ⟨rfl, hrest⟩ := uri_append_inj h
      exact ⟨rfl, (List.cons.inj hrest).2⟩
    | tagged language => simp at h
  | tagged language =>
    cases m with
    | plain => simp at h
    | typed datatype => simp at h
    | tagged language' =>
      simp only [List.cons_append, List.cons.injEq, true_and] at h
      obtain ⟨rfl, rfl⟩ := tag_append_inj h
      exact ⟨rfl, rfl⟩

theorem ending_eq (kind : LiteralKind) : ending kind = suffix kind.asRead := by
  unfold ending suffix
  cases kind.asRead <;> rfl

theorem literal_append_inj {l m : Literal} {s t : List Char}
    (h : (renderLiteral l).toList ++ ' ' :: s = (renderLiteral m).toList ++ ' ' :: t) :
    l.asRead = m.asRead ∧ s = t := by
  simp only [renderLiteral_toList, List.append_assoc] at h
  obtain ⟨hvalue, hrest⟩ := quotedText_append_inj h
  rw [ending_eq, ending_eq] at hrest
  obtain ⟨hkind, rfl⟩ := suffix_append_inj hrest
  exact ⟨by simp only [Literal.asRead, hvalue, hkind], rfl⟩

/-- What is written of a literal is what a reader takes it for. -/
theorem renderLiteral_asRead (l : Literal) : renderLiteral l.asRead = renderLiteral l := by
  apply String.toList_inj.1
  simp only [renderLiteral_toList, Literal.asRead, ending, asRead_asRead]

theorem value_append_inj {v w : Value} {s t : List Char}
    (h : (renderValue v).toList ++ ' ' :: s = (renderValue w).toList ++ ' ' :: t) :
    v.asRead = w.asRead ∧ s = t := by
  have hapart (r : Resource) (l : Literal) (s t : List Char) :
      r.render.toList ++ s ≠ (renderLiteral l).toList ++ t := by
    cases r <;>
      simp [Resource.render, render_uri_toList, BlankNode.render, renderLiteral_toList,
        quotedText_toList]
  cases v with
  | resource r =>
    cases w with
    | resource q =>
      obtain ⟨rfl, rfl⟩ := resource_append_inj h
      exact ⟨rfl, rfl⟩
    | literal m => exact absurd h (hapart _ _ _ _)
  | literal l =>
    cases w with
    | resource q => exact absurd h.symm (hapart _ _ _ _)
    | literal m =>
      obtain ⟨hread, rfl⟩ := literal_append_inj h
      exact ⟨congrArg Value.literal hread, rfl⟩

theorem renderValue_asRead (v : Value) : renderValue v.asRead = renderValue v := by
  cases v with
  | resource r => rfl
  | literal l => exact renderLiteral_asRead l

/-! ## Lines -/

/-- What is written of a graph, and the blank before the end of the line. -/
def graphPart : Context → List Char
  | .default => []
  | .named u => u.render.toList ++ [' ']

theorem line_toList (q : Quad) :
    (line q).toList = q.triple.subject.render.toList ++ ' ' ::
      (q.triple.predicate.render.toList ++ ' ' ::
        ((renderValue q.triple.object).toList ++ ' ' :: (graphPart q.graph ++ ['.', '\n']))) := by
  obtain ⟨t, graph⟩ := q
  cases graph <;> simp [line, graphPart, String.toList_append]

theorem graphPart_append_inj {c d : Context} {s t : List Char}
    (h : graphPart c ++ '.' :: '\n' :: s = graphPart d ++ '.' :: '\n' :: t) : c = d ∧ s = t := by
  cases c with
  | default =>
    cases d with
    | default => simpa [graphPart] using h
    | named v => simp [graphPart, render_uri_toList] at h
  | named u =>
    cases d with
    | default => simp [graphPart, render_uri_toList] at h
    | named v =>
      simp only [graphPart, List.append_assoc] at h
      obtain ⟨rfl, hrest⟩ := uri_append_inj h
      exact ⟨rfl, by simpa using hrest⟩

/-- A line tells its quad and where it ends. -/
theorem line_append_inj {q r : Quad} {s t : List Char}
    (h : (line q).toList ++ s = (line r).toList ++ t) : q.asRead = r.asRead ∧ s = t := by
  simp only [line_toList, List.append_assoc, List.cons_append, List.nil_append] at h
  obtain ⟨hsubject, h⟩ := resource_append_inj h
  obtain ⟨hpredicate, h⟩ := uri_append_inj h
  obtain ⟨hobject, h⟩ := value_append_inj (List.cons.inj h).2
  obtain ⟨hgraph, h⟩ := graphPart_append_inj h
  exact ⟨by simp [Quad.asRead, hsubject, hpredicate, hobject, hgraph], h⟩

theorem line_asRead (q : Quad) : line q.asRead = line q := by
  simp only [line, Quad.asRead, renderValue_asRead]

theorem line_ne_empty (q : Quad) : line q ≠ "" := by
  rw [ne_eq, ← String.toList_inj, line_toList]
  simp

/-- Some lines on end tell each of their quads. -/
theorem join_lines_inj {qs rs : List Quad} :
    String.join (qs.map line) = String.join (rs.map line) ↔
      qs.map Quad.asRead = rs.map Quad.asRead := by
  constructor
  · intro h
    replace h := congrArg String.toList h
    rw [String.toList_join, String.toList_join] at h
    induction qs generalizing rs with
    | nil =>
      cases rs with
      | nil => rfl
      | cons r rs => simp [line_ne_empty] at h
    | cons q qs ih =>
      cases rs with
      | nil => simp [line_ne_empty] at h
      | cons r rs =>
        simp only [List.map_cons, List.flatMap_cons] at h
        obtain ⟨hhead, hrest⟩ := line_append_inj h
        rw [List.map_cons, List.map_cons, hhead, ih hrest]
  · intro h
    have hread (qs : List Quad) : qs.map line = (qs.map Quad.asRead).map line := by
      rw [List.map_map]
      exact List.map_congr_left fun q _ => (line_asRead q).symm
    rw [hread qs, hread rs, h]

/-! ## Line breaks -/

/-- No line ends in this text. -/
def Unbroken (s : List Char) : Prop := ∀ c ∈ s, c ≠ '\n' ∧ c ≠ '\r'

theorem unbroken_append {s t : List Char} : Unbroken (s ++ t) ↔ Unbroken s ∧ Unbroken t :=
  List.forall_mem_append

theorem unbroken_cons {c : Char} {s : List Char} :
    Unbroken (c :: s) ↔ (c ≠ '\n' ∧ c ≠ '\r') ∧ Unbroken s := by
  simp only [Unbroken, List.mem_cons, forall_eq_or_imp]

theorem unbroken_nil : Unbroken [] := by simp [Unbroken]

theorem ne_break_of_not_isBlank {c : Char} (h : Text.isBlank c = false) : c ≠ '\n' ∧ c ≠ '\r' := by
  constructor
  · rintro rfl
    exact absurd h (by decide)
  · rintro rfl
    exact absurd h (by decide)

theorem unbroken_uri (u : Uri) : Unbroken u.render.toList := by
  simp only [render_uri_toList, unbroken_cons, unbroken_append]
  exact ⟨by decide, fun c hc => ne_break_of_not_isBlank (Uri.not_isBlank_of_mem hc).1, by decide,
    unbroken_nil⟩

theorem unbroken_resource (r : Resource) : Unbroken r.render.toList := by
  cases r with
  | uri u => exact unbroken_uri u
  | blank b =>
    simp only [Resource.render, BlankNode.render, String.toList_append, unbroken_append]
    exact ⟨by simp [Unbroken], fun c hc => ne_break_of_not_isBlank (BlankNode.not_isBlank_of_mem hc)⟩

theorem unbroken_escapedChar (c : Char) : Unbroken (escapedChar c) := by
  have hdigits : ∀ m < 16, (Nat.digitChar m).toUpper ≠ '\n' ∧ (Nat.digitChar m).toUpper ≠ '\r' := by
    decide
  unfold escapedChar
  split_ifs with hb ht hn hf hr hquote hslash hnumber
  iterate 7
    · simp [Unbroken]
  · simp only [List.cons_append, List.nil_append, unbroken_cons]
    refine ⟨by decide, by decide, fun d hd => ?_⟩
    obtain ⟨m, -, rfl⟩ := List.mem_map.1 hd
    exact hdigits (m % 16) (Nat.mod_lt _ (by decide))
  · simp [Unbroken, hn, hr]

theorem unbroken_quotedText (v : String) : Unbroken (quotedText v).toList := by
  simp only [quotedText_toList, unbroken_cons, unbroken_append]
  refine ⟨by decide, fun c hc => ?_, by decide, unbroken_nil⟩
  obtain ⟨d, -, hc⟩ := List.mem_flatMap.1 hc
  exact unbroken_escapedChar d c hc

theorem unbroken_suffix (kind : LiteralKind) : Unbroken (suffix kind) := by
  cases kind with
  | plain => exact unbroken_nil
  | typed datatype =>
    simp only [suffix, unbroken_cons]
    exact ⟨by decide, by decide, unbroken_uri _⟩
  | tagged language =>
    rw [suffix, unbroken_cons]
    refine ⟨by decide, fun c hc => ?_⟩
    obtain rfl | halnum := LanguageTag.of_mem hc
    · decide
    · exact ⟨by rintro rfl; exact absurd halnum (by decide),
        by rintro rfl; exact absurd halnum (by decide)⟩

theorem unbroken_value (v : Value) : Unbroken (renderValue v).toList := by
  cases v with
  | resource r => exact unbroken_resource r
  | literal l =>
    rw [renderValue, renderLiteral_toList, unbroken_append]
    exact ⟨unbroken_quotedText _, ending_eq l.kind ▸ unbroken_suffix _⟩

theorem unbroken_graphPart (c : Context) : Unbroken (graphPart c) := by
  cases c with
  | default => exact unbroken_nil
  | named u =>
    rw [graphPart, unbroken_append]
    exact ⟨unbroken_uri u, by simp [Unbroken]⟩

/-- A line is one line. -/
theorem line_unbroken (q : Quad) : ∃ text, (line q).toList = text ++ ['\n'] ∧ Unbroken text := by
  refine ⟨q.triple.subject.render.toList ++ ' ' :: (q.triple.predicate.render.toList ++ ' ' ::
    ((renderValue q.triple.object).toList ++ ' ' :: (graphPart q.graph ++ ['.']))), ?_, ?_⟩
  · simp [line_toList]
  · simp only [unbroken_append, unbroken_cons]
    exact ⟨unbroken_resource _, by decide, unbroken_uri _, by decide, unbroken_value _, by decide,
      unbroken_graphPart _, by decide, unbroken_nil⟩

/-- The lines of a text, each with the character that ends it. -/
def linesOf : List Char → List (List Char)
  | [] => []
  | c :: s =>
    if c = '\n' then [c] :: linesOf s
    else
      match linesOf s with
      | [] => [[c]]
      | l :: rest => (c :: l) :: rest

theorem linesOf_append {l : List Char} (h : Unbroken l) (s : List Char) :
    linesOf (l ++ '\n' :: s) = (l ++ ['\n']) :: linesOf s := by
  induction l with
  | nil => rfl
  | cons c l ih =>
    rw [unbroken_cons] at h
    rw [List.cons_append, linesOf, if_neg h.1.1, ih h.2]
    rfl

theorem linesOf_join (quads : List Quad) :
    linesOf (String.join (quads.map line)).toList = quads.map fun q => (line q).toList := by
  induction quads with
  | nil => rfl
  | cons q quads ih =>
    obtain ⟨l, hl, hunbroken⟩ := line_unbroken q
    rw [List.map_cons, String.join_cons, String.toList_append, hl, List.append_assoc,
      List.singleton_append, linesOf_append hunbroken, ih, List.map_cons, hl]

end Quads

end QuadStore
