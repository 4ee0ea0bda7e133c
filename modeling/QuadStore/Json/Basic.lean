/-!
# JSON values

An object keeps its members in the order in which they were written, and a number is kept as it was
written. A string may be well formed and yet stand for no text, when an escape names one half of a
surrogate pair without the other: such a value is `unpaired`.
-/

namespace QuadStore

inductive Json where
  | null
  | bool (value : Bool)
  | number (digits : String)
  | string (value : String)
  | unpaired
  | array (items : List Json)
  | object (members : List (String × Json))
deriving Repr

namespace Json

def ofNat (n : Nat) : Json := .number (toString n)

def ofOption {α : Type} (encode : α → Json) : Option α → Json
  | some a => encode a
  | none => .null

def ofStrings (values : List String) : Json := .array (values.map .string)

/-- The value of the first member of this name. -/
def member? (name : String) : Json → Option Json
  | .object members => members.lookup name
  | _ => none

/-! ## Members in order of name -/

def insertMember (name : String) (value : Json) : List (String × Json) → List (String × Json)
  | [] => [(name, value)]
  | (other, old) :: rest =>
    if name < other then (name, value) :: (other, old) :: rest
    else if name = other then (name, value) :: rest
    else (other, old) :: insertMember name value rest

mutual

/-- The same value with the members of every object in order of name; of several members of one name
the last one counts. -/
def sorted : Json → Json
  | .array items => .array (sortedItems items)
  | .object members => .object (sortedMembers members [])
  | j => j

def sortedItems : List Json → List Json
  | [] => []
  | item :: items => sorted item :: sortedItems items

def sortedMembers : List (String × Json) → List (String × Json) → List (String × Json)
  | [], done => done
  | (name, value) :: members, done => sortedMembers members (insertMember name (sorted value) done)

end

end Json

end QuadStore
