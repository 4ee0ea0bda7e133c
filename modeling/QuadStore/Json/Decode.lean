import QuadStore.Error
import QuadStore.Json.Basic
/-!
# Decoding JSON

Domain values are read off JSON values of a given shape. A record is an object with the record's
members, whose other members do not matter, or the array of its members in order. A variant is a
one-member object whose name is the variant's, or just the name if the variant holds nothing.

The first failure in the order of the members is the one reported.
-/

namespace QuadStore

inductive DecodeError where
  | shape
  | invalid (cause : TermError)
deriving DecidableEq, Repr

abbrev Decoder (α : Type) := Json → Except DecodeError α

namespace Json

def asString : Decoder String
  | .string s => .ok s
  | _ => .error .shape

def asBool : Decoder Bool
  | .bool b => .ok b
  | _ => .error .shape

def asList {α : Type} (decode : Decoder α) : Decoder (List α)
  | .array items => items.mapM decode
  | _ => .error .shape

def asNullable {α : Type} (decode : Decoder α) : Decoder (Option α)
  | .null => .ok none
  | j => some <$> decode j

/-- The members of a record in the order in which they are read. An array with items to spare ends
in a member without a name. -/
def record (names : List String) : Decoder (List (String × Json))
  | .object members =>
    let known := members.filter fun m => names.contains m.1
    if (known.map (·.1)).Nodup then .ok known else .error .shape
  | .array items =>
    .ok (names.zip items ++ if names.length < items.length then [("", .null)] else [])
  | _ => .error .shape

/-- The name of a variant and what it holds. -/
def variant : Decoder (String × Option Json)
  | .string name => .ok (name, none)
  | .object [(name, value)] => .ok (name, some value)
  | _ => .error .shape

def required {α : Type} : Option α → Except DecodeError α
  | some a => .ok a
  | none => .error .shape

/-- Report the cause of a value that has the right shape but is not valid. -/
def checked {α : Type} : Except TermError α → Except DecodeError α
  | .ok a => .ok a
  | .error cause => .error (.invalid cause)

end Json

end QuadStore
