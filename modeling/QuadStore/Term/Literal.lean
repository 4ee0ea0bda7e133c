import QuadStore.Term.Uri
/-!
# Literals

A lexical value that is plain, typed by a URI, or tagged with a language. Language tags are kept in
lower case.
-/

namespace QuadStore

def isTagPart (accepts : Char → Bool) (part : List Char) : Bool :=
  !part.isEmpty && part.length ≤ 8 && part.all accepts

/-- Parts of one to eight characters between hyphens, the first of letters only. -/
def isLanguageTag (s : List Char) : Bool :=
  match s.splitOn '-' with
  | [] => false
  | primary :: rest => isTagPart Char.isAlpha primary && rest.all (isTagPart Char.isAlphanum)

structure LanguageTag where
  text : String
  valid : isLanguageTag text.toList = true
  lower : text.toList.all (fun c => !c.isUpper) = true
deriving DecidableEq

namespace LanguageTag

theorem ext {a b : LanguageTag} (h : a.text = b.text) : a = b := by
  cases a; cases b; simp_all

instance : Ord LanguageTag := ⟨compareOn LanguageTag.text⟩

instance : Std.TransOrd LanguageTag := inferInstanceAs (Std.TransCmp (compareOn LanguageTag.text))

instance : Std.LawfulEqOrd LanguageTag := lawfulEqCmp_compareOn LanguageTag.text ext

/-- Case does not matter to validity, so the tag is checked after it is put in lower case. -/
def ofString (tag : String) : Except TermError LanguageTag :=
  let text := String.ofList (tag.toList.map Char.toLower)
  if h : isLanguageTag text.toList ∧ text.toList.all (fun c => !c.isUpper) then
    .ok ⟨text, h.1, h.2⟩
  else .error (.invalidLanguageTag tag)

end LanguageTag

inductive LiteralKind where
  | plain
  | typed (datatype : Uri)
  | tagged (language : LanguageTag)
deriving DecidableEq

structure Literal where
  value : String
  kind : LiteralKind
deriving DecidableEq

namespace Literal

def plain (value : String) : Literal := ⟨value, .plain⟩

def datatype (l : Literal) : Option Uri :=
  match l.kind with
  | .typed datatype => some datatype
  | _ => none

def language (l : Literal) : Option LanguageTag :=
  match l.kind with
  | .tagged language => some language
  | _ => none

def isPlain (l : Literal) : Bool :=
  match l.kind with
  | .plain => true
  | _ => false

theorem ext {a b : Literal} (value : a.value = b.value) (datatype : a.datatype = b.datatype)
    (language : a.language = b.language) : a = b := by
  cases a with
  | mk _ k => cases b with
    | mk _ k' => cases k <;> cases k' <;> simp_all [Literal.datatype, Literal.language]

/-- Literals are ordered by value, then by datatype, then by language; what is missing comes
first. -/
instance : Ord Literal :=
  ⟨compareLex (compareOn value) (compareLex (compareOn datatype) (compareOn language))⟩

instance : Std.TransOrd Literal :=
  inferInstanceAs (Std.TransCmp
    (compareLex (compareOn value) (compareLex (compareOn datatype) (compareOn language))))

instance : Std.LawfulEqOrd Literal :=
  lawfulEqCmp_compareLex value _ fun h₁ h₂ =>
    have h := compareLex_eq_eq.1 h₂
    ext h₁ (eq_of_compare_eq h.1) (eq_of_compare_eq h.2)

/-- The literal with these parts, as they are stored. -/
def ofParts (value : String) (datatype : Option Uri) (language : Option String) :
    Except TermError Literal :=
  match datatype, language with
  | some _, some _ =>
    .error (.invalidStatement "a literal cannot carry both a datatype and a language tag")
  | some datatype, none => .ok ⟨value, .typed datatype⟩
  | none, some tag => do return ⟨value, .tagged (← LanguageTag.ofString tag)⟩
  | none, none => .ok (plain value)

def escapedChar (c : Char) : List Char :=
  if c = '"' then ['\\', '"']
  else if c = '\\' then ['\\', '\\']
  else if c = '\n' then ['\\', 'n']
  else if c = '\r' then ['\\', 'r']
  else [c]

def escaped (value : String) : String := String.ofList (value.toList.flatMap escapedChar)

def render (l : Literal) : String :=
  "\"" ++ escaped l.value ++ "\"" ++
    match l.kind with
    | .plain => ""
    | .typed datatype => "^^" ++ datatype.render
    | .tagged language => "@" ++ language.text

end Literal

end QuadStore
