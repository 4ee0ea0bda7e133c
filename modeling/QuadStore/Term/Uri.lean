import QuadStore.Error
import QuadStore.Order
import QuadStore.Text.Blank
/-!
# Absolute URIs

A scheme, a colon, and then any characters except blanks and a few delimiters.
-/

namespace QuadStore

def isSchemeChar (c : Char) : Bool :=
  c.isAlphanum || c == '+' || c == '.' || c == '-'

def isUriDelimiter (c : Char) : Bool :=
  ['<', '>', '"', '\x7b', '\x7d', '|', '\\', '^', '`'].contains c

def isUriText (s : List Char) : Bool :=
  match s with
  | [] => false
  | c :: rest =>
    c.isAlpha &&
      match rest.dropWhile isSchemeChar with
      | ':' :: tail => tail.all fun d => !Text.isBlank d && !isUriDelimiter d
      | _ => false

structure Uri where
  text : String
  valid : isUriText text.toList = true
deriving DecidableEq

namespace Uri

theorem ext {u v : Uri} (h : u.text = v.text) : u = v := by
  cases u; cases v; simp_all

instance : Ord Uri := ⟨compareOn Uri.text⟩

instance : Std.TransOrd Uri := inferInstanceAs (Std.TransCmp (compareOn Uri.text))

instance : Std.LawfulEqOrd Uri := lawfulEqCmp_compareOn Uri.text ext

def isValid (text : String) : Bool := isUriText text.toList

def ofString (text : String) : Except TermError Uri :=
  if h : isUriText text.toList then .ok ⟨text, h⟩ else .error (.invalidUri text)

theorem ofString_text (u : Uri) : ofString u.text = .ok u := by
  simp [ofString, u.valid]

def render (u : Uri) : String := "<" ++ u.text ++ ">"

end Uri

abbrev UriSet := Std.ExtTreeSet Uri

end QuadStore
