/-!
# Language tags

The standard's grammar of a language tag, in lower case: a language, then extended languages, a
script, a region and variants, then extensions and a part for private use. Some tags of an older
standard are kept as they are.
-/

namespace QuadStore.Quads

def oldTags : List String :=
  ["art-lojban", "cel-gaulish", "en-gb-oed", "i-ami", "i-bnn", "i-default", "i-enochian", "i-hak",
    "i-klingon", "i-lux", "i-mingo", "i-navajo", "i-pwn", "i-tao", "i-tay", "i-tsu", "no-bok",
    "no-nyn", "sgn-be-fr", "sgn-be-nl", "sgn-ch-de", "zh-guoyu", "zh-hakka", "zh-min",
    "zh-min-nan", "zh-xiang"]

/-- What part of a tag the last subtag belongs to. -/
inductive TagPart where
  | language
  | extendedLanguage
  | script
  | region
  /-- An extension, or an extension that still has to say something. -/
  | extension (empty : Bool)
  /-- The part for private use, or one that still has to say something. -/
  | privateUse (empty : Bool)
deriving DecidableEq, Repr

structure TagState where
  part : TagPart
  extendedLanguages : Nat := 0

def isSubtag (s : List Char) : Bool := !s.isEmpty && s.length ≤ 8

def isAlphabetic (s : List Char) : Bool := s.all Char.isAlpha

def isAlphanumeric (s : List Char) : Bool := s.all Char.isAlphanum

def isExtendedLanguage (s : List Char) : Bool := s.length == 3 && isAlphabetic s

def isScript (s : List Char) : Bool := s.length == 4 && isAlphabetic s

def isRegion (s : List Char) : Bool :=
  (s.length == 2 && isAlphabetic s) || (s.length == 3 && s.all Char.isDigit)

/-- Five characters or more after a letter, four or more after a digit. -/
def isVariant (s : List Char) : Bool :=
  isAlphanumeric s &&
    ((5 ≤ s.length && s.head?.any Char.isAlpha) || (4 ≤ s.length && s.head?.any Char.isDigit))

/-- Extended languages follow only a language of two or three letters. -/
def firstState? (s : List Char) : Option TagState :=
  if isSubtag s && 2 ≤ s.length && isAlphabetic s then
    some { part := if s.length < 4 then .language else .extendedLanguage }
  else none

/-- Whether the state still waits for the contents of an extension. -/
def waits (t : TagState) : Bool := t.part == .extension true

def beforeScript (t : TagState) : Bool := t.part == .language || t.part == .extendedLanguage

def beforeRegion (t : TagState) : Bool := beforeScript t || t.part == .script

def beforeVariant (t : TagState) : Bool := beforeRegion t || t.part == .region

/-- The parts in order of place, once neither an extension nor private use has begun. -/
def nextPart? (t : TagState) (s : List Char) : Option TagState :=
  if t.part == .language && isExtendedLanguage s then
    if t.extendedLanguages < 3 then some { t with extendedLanguages := t.extendedLanguages + 1 }
    else none
  else if beforeScript t && isScript s then some { t with part := .script }
  else if beforeRegion t && isRegion s then some { t with part := .region }
  else if beforeVariant t && isVariant s then some { t with part := .region }
  else none

def nextState? (t : TagState) (s : List Char) : Option TagState :=
  if !isSubtag s then none
  else
    match t.part with
    | .privateUse _ => if isAlphanumeric s then some { t with part := .privateUse false } else none
    | _ =>
      if s == ['x'] then if waits t then none else some { t with part := .privateUse true }
      else if s.length == 1 && isAlphanumeric s then
        if waits t then none else some { t with part := .extension true }
      else
        match t.part with
        | .extension _ =>
          if isAlphanumeric s then some { t with part := .extension false } else none
        | _ => nextPart? t s

def isComplete (t : TagState) : Bool := t.part != .extension true && t.part != .privateUse true

def isStandardTag (s : List Char) : Bool :=
  match s.splitOn '-' with
  | [] => false
  | first :: rest => ((firstState? first).bind (rest.foldlM nextState? ·)).any isComplete

def isPrivateTag : List Char → Bool
  | 'x' :: '-' :: rest => !rest.isEmpty && rest.all fun c => c.isAlphanum || c == '-'
  | _ => false

def isTag (s : List Char) : Bool :=
  oldTags.any (·.toList == s) || isPrivateTag s || isStandardTag s

end QuadStore.Quads
