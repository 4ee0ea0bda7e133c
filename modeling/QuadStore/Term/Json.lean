import QuadStore.Json.Decode
import QuadStore.Json.Reader
import QuadStore.Json.Writer
import QuadStore.Term.Context
import QuadStore.Term.Resource
/-!
# The JSON form of terms

A literal is also stored as text, in the compact JSON form with all three members.
-/

namespace QuadStore

namespace Uri

def toJson (u : Uri) : Json := .string u.text

def ofJson : Decoder Uri := fun j => do Json.checked (ofString (← j.asString))

end Uri

namespace BlankNode

def toJson (b : BlankNode) : Json := .string b.label

def ofJson : Decoder BlankNode := fun j => do Json.checked (ofString (← j.asString))

end BlankNode

namespace Literal

def toJson (l : Literal) : Json :=
  .object [("value", .string l.value),
    ("datatype", Json.ofOption Uri.toJson l.datatype),
    ("language", Json.ofOption (fun tag => .string tag.text) l.language)]

/-- The parts of a literal read so far. -/
structure Parts where
  value : Option String := none
  datatype : Option Uri := none
  language : Option String := none

def Parts.read (parts : Parts) : String × Json → Except DecodeError Parts
  | ("value", j) => do return { parts with value := some (← j.asString) }
  | ("datatype", j) => do return { parts with datatype := ← j.asNullable Uri.ofJson }
  | ("language", j) => do return { parts with language := ← j.asNullable Json.asString }
  | _ => .error .shape

def partsOfJson : Decoder Parts := fun j => do
  (← j.record ["value", "datatype", "language"]).foldlM Parts.read {}

def ofJson : Decoder Literal := fun j => do
  let parts ← partsOfJson j
  Json.checked (ofParts (← Json.required parts.value) parts.datatype parts.language)

/-- The literal as text: a property value or the key of an index. -/
def encode (l : Literal) : String := l.toJson.render

/-- Inverse of `encode`. The parts of a literal have to make sense before the rest of the text is
looked at; what is wrong inside one of them is a fault of the text. -/
def decode (text : String) : Except DecodeError Literal :=
  match Json.read? text.toList with
  | none => .error .shape
  | some (j, rest) =>
    match partsOfJson j with
    | .error _ => .error .shape
    | .ok parts => do
      let literal ←
        Json.checked (ofParts (← Json.required parts.value) parts.datatype parts.language)
      if Json.isEnd rest then return literal else .error .shape

end Literal

namespace Resource

def toJson : Resource → Json
  | uri u => .object [("uri", u.toJson)]
  | blank b => .object [("blank", b.toJson)]

def ofJson : Decoder Resource := fun j => do
  match ← j.variant with
  | ("uri", some j) => uri <$> Uri.ofJson j
  | ("blank", some j) => blank <$> BlankNode.ofJson j
  | _ => .error .shape

end Resource

namespace Value

def toJson : Value → Json
  | resource r => .object [("resource", r.toJson)]
  | literal l => .object [("literal", l.toJson)]

def ofJson : Decoder Value := fun j => do
  match ← j.variant with
  | ("resource", some j) => resource <$> Resource.ofJson j
  | ("literal", some j) => literal <$> Literal.ofJson j
  | _ => .error .shape

end Value

namespace Context

def toJson : Context → Json
  | default => .string "default"
  | named u => .object [("named", u.toJson)]

def ofJson : Decoder Context := fun j => do
  match ← j.variant with
  | ("default", none) => return default
  | ("default", some .null) => return default
  | ("named", some j) => named <$> Uri.ofJson j
  | _ => .error .shape

end Context

end QuadStore
