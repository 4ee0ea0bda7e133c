import QuadStore.Statement.Basic
import QuadStore.Term.Json
/-!
# The JSON form of statements
-/

namespace QuadStore

namespace Wildcard

def toJson (w : Wildcard) : Json := .object [("name", Json.ofOption .string w.name)]

def read (_ : Wildcard) : String × Json → Except DecodeError Wildcard
  | ("name", j) => do return ⟨← j.asNullable Json.asString⟩
  | _ => .error .shape

/-- The name may be missing from an object, but not from an array. -/
def ofJson : Decoder Wildcard
  | .array [] => .error .shape
  | j => do (← j.record ["name"]).foldlM read anonymous

end Wildcard

namespace Slot

variable {α : Type}

def toJson (encode : α → Json) : Slot α → Json
  | bound a => .object [("bound", encode a)]
  | any w => .object [("any", w.toJson)]

def ofJson (decode : Decoder α) : Decoder (Slot α) := fun j => do
  match ← j.variant with
  | ("bound", some j) => bound <$> decode j
  | ("any", some j) => any <$> Wildcard.ofJson j
  | _ => .error .shape

end Slot

def contextsToJson (contexts : List Context) : Json := .array (contexts.map Context.toJson)

def contextsOfJson : Decoder (List Context) := Json.asList Context.ofJson

def statementMembers : List String := ["subject", "predicate", "object", "contexts"]

namespace Statement

def toJson (s : Statement) : Json :=
  .object [("subject", s.subject.toJson),
    ("predicate", s.predicate.toJson),
    ("object", s.object.toJson),
    ("contexts", contextsToJson s.contextList)]

/-- The positions of a statement read so far. -/
structure Parts where
  subject : Option Resource := none
  predicate : Option Uri := none
  object : Option Value := none
  contexts : List Context := []

def Parts.read (parts : Parts) : String × Json → Except DecodeError Parts
  | ("subject", j) => do return { parts with subject := some (← Resource.ofJson j) }
  | ("predicate", j) => do return { parts with predicate := some (← Uri.ofJson j) }
  | ("object", j) => do return { parts with object := some (← Value.ofJson j) }
  | ("contexts", j) => do return { parts with contexts := ← contextsOfJson j }
  | _ => .error .shape

def ofJson : Decoder Statement := fun j => do
  let parts ← (← j.record statementMembers).foldlM Parts.read {}
  return .ofContexts
    ⟨← Json.required parts.subject, ← Json.required parts.predicate, ← Json.required parts.object⟩
    parts.contexts

/-- The statements of a text that holds an array of them. -/
def listOfText (text : String) : Except DecodeError (List Statement) := do
  Json.asList ofJson (← Json.required (Json.parse? text))

end Statement

namespace RawStatement

def toJson (r : RawStatement) : Json :=
  .object [("subject", r.subject.toJson Resource.toJson),
    ("predicate", r.predicate.toJson Uri.toJson),
    ("object", r.object.toJson Value.toJson),
    ("contexts", r.contexts.toJson contextsToJson)]

/-- The slots of a statement read so far. -/
structure Parts where
  subject : Option (Slot Resource) := none
  predicate : Option (Slot Uri) := none
  object : Option (Slot Value) := none
  contexts : Option (Slot (List Context)) := none

def Parts.read (parts : Parts) : String × Json → Except DecodeError Parts
  | ("subject", j) => do return { parts with subject := some (← Slot.ofJson Resource.ofJson j) }
  | ("predicate", j) => do return { parts with predicate := some (← Slot.ofJson Uri.ofJson j) }
  | ("object", j) => do return { parts with object := some (← Slot.ofJson Value.ofJson j) }
  | ("contexts", j) => do return { parts with contexts := some (← Slot.ofJson contextsOfJson j) }
  | _ => .error .shape

def ofJson : Decoder RawStatement := fun j => do
  let parts ← (← j.record statementMembers).foldlM Parts.read {}
  return ⟨← Json.required parts.subject, ← Json.required parts.predicate,
    ← Json.required parts.object, ← Json.required parts.contexts⟩

end RawStatement

namespace Query

def toJson (q : Query) : Json :=
  .object [("subject", q.subject.toJson Resource.toJson),
    ("predicate", q.predicate.toJson),
    ("object", q.object.toJson Value.toJson),
    ("contexts", q.contexts.toJson contextsToJson)]

/-- The positions of a query read so far. -/
structure Parts where
  subject : Option (Slot Resource) := none
  predicate : Option Uri := none
  object : Option (Slot Value) := none
  contexts : Option (Slot (List Context)) := none

def Parts.read (parts : Parts) : String × Json → Except DecodeError Parts
  | ("subject", j) => do return { parts with subject := some (← Slot.ofJson Resource.ofJson j) }
  | ("predicate", j) => do return { parts with predicate := some (← Uri.ofJson j) }
  | ("object", j) => do return { parts with object := some (← Slot.ofJson Value.ofJson j) }
  | ("contexts", j) => do return { parts with contexts := some (← Slot.ofJson contextsOfJson j) }
  | _ => .error .shape

def ofJson : Decoder Query := fun j => do
  let parts ← (← j.record statementMembers).foldlM Parts.read {}
  return ⟨← Json.required parts.subject, ← Json.required parts.predicate,
    ← Json.required parts.object, ← Json.required parts.contexts⟩

end Query

end QuadStore
