import QuadStore.Graph.Basic
import QuadStore.Text.Alphanumeric
import QuadStore.Text.LowerCase
/-!
# Text index

Finds texts by the words in them. A word is a run of letters and numbers, and case does not matter.
-/

namespace QuadStore

/-- A text held by a vertex under a predicate. -/
structure TextEntry where
  vertex : VertexId
  predicate : String
  text : String
deriving DecidableEq, Repr

theorem TextEntry.ext {a b : TextEntry} (vertex : a.vertex = b.vertex)
    (predicate : a.predicate = b.predicate) (text : a.text = b.text) : a = b := by
  cases a; cases b; simp_all

namespace TextEntry

def place (e : TextEntry) : Entry := ⟨e.predicate, e.text⟩

instance : Ord TextEntry := ⟨compareLex (compareOn vertex) (compareOn place)⟩

instance : Std.TransOrd TextEntry :=
  inferInstanceAs (Std.TransCmp (compareLex (compareOn vertex) (compareOn place)))

instance : Std.LawfulEqOrd TextEntry :=
  lawfulEqCmp_compareLex vertex (compareOn place) fun h₁ h₂ =>
    have h := Entry.mk.inj (eq_of_compare_eq h₂)
    ext h₁ h.1 h.2

end TextEntry

abbrev TextEntrySet := Std.ExtTreeSet TextEntry

/-- The maximal runs of letters and numbers. -/
def runs (s : List Char) : List (List Char) :=
  (s.splitOnP fun c => !Text.isAlphanumeric c).filter (!·.isEmpty)

/-- The words of a text, in lower case and each once. -/
def words (text : String) : List String :=
  ((runs text.toList).map fun run => Text.lowerCase (String.ofList run)).eraseDups

structure TextIndex where
  entries : TextEntrySet := ∅
  /-- The entries in which a word occurs. -/
  occurrences : Std.ExtTreeMap String TextEntrySet := ∅
deriving DecidableEq

/-- A change to a text index. -/
inductive TextChange where
  | insert (entry : TextEntry)
  | erase (entry : TextEntry)
deriving DecidableEq, Repr

namespace TextIndex

def size (x : TextIndex) : Nat := x.entries.size

def isEmpty (x : TextIndex) : Bool := x.entries.isEmpty

def lookup (x : TextIndex) (word : String) : TextEntrySet := x.occurrences[word]?.getD ∅

def insertWord (entry : TextEntry) (occurrences : Std.ExtTreeMap String TextEntrySet)
    (word : String) : Std.ExtTreeMap String TextEntrySet :=
  occurrences.alter word fun found => some ((found.getD ∅).insert entry)

/-- A word that occurs nowhere any more is dropped. -/
def eraseWord (entry : TextEntry) (occurrences : Std.ExtTreeMap String TextEntrySet)
    (word : String) : Std.ExtTreeMap String TextEntrySet :=
  occurrences.alter word fun found =>
    found.bind fun es => if (es.erase entry).isEmpty then none else some (es.erase entry)

def insert (x : TextIndex) (entry : TextEntry) : TextIndex :=
  if x.entries.contains entry then x
  else ⟨x.entries.insert entry, (words entry.text).foldl (insertWord entry) x.occurrences⟩

def erase (x : TextIndex) (entry : TextEntry) : TextIndex :=
  if x.entries.contains entry then
    ⟨x.entries.erase entry, (words entry.text).foldl (eraseWord entry) x.occurrences⟩
  else x

/-- The entries in which every word of a query occurs; a query without words finds nothing. -/
def search (x : TextIndex) (query : String) : List TextEntry :=
  match words query with
  | [] => []
  | word :: rest => (rest.foldl (fun found w => found ∩ x.lookup w) (x.lookup word)).toList

def apply (x : TextIndex) : TextChange → TextIndex
  | .insert entry => x.insert entry
  | .erase entry => x.erase entry

def applyAll (x : TextIndex) (changes : List TextChange) : TextIndex := changes.foldl apply x

end TextIndex

end QuadStore
