import QuadStore.Config.Json
import QuadStore.Toml.Quoted
import QuadStore.Toml.Reader
/-!
# The TOML form of a configuration

A configuration file is read through its JSON form and then validated. Every setting is written,
also where it has its default.
-/

namespace QuadStore.Config

/-! ## Reading -/

/-- A section may be written as an array, which may have items to spare. -/
def clipped (size : Nat) : Json → Json
  | .array items => .array (items.take size)
  | j => j

/-- An encoding may be written as a table that holds an empty table or array under its name. -/
def encodingName : Json → Json
  | .object [(name, .object [])] => .string name
  | .object [(name, .array [])] => .string name
  | .object _ => .null
  | j => j

def ofSection : String × Json → String × Json
  | ("encoding", j) => ("encoding", encodingName j)
  | ("vocabulary", j) => ("vocabulary", clipped Vocabulary.members.length j)
  | ("schema", j) => ("schema", clipped 2 j)
  | ("fulltext", j) => ("fulltext", clipped 2 j)
  | other => other

def ofSections : Json → Json
  | .object sections => .object (sections.map ofSection)
  | j => j

/-- The valid configuration that a text holds. -/
def ofToml (text : String) : Except ConfigError Config := do
  let some document := Toml.parse? text | throw (.malformed "not a TOML document")
  match ofJson (ofSections document.toJson) with
  | .ok c => do
    c.validate
    return c
  | .error .shape => throw (.malformed "a setting has the wrong type")
  | .error (.invalid cause) => throw (.malformed cause.message)

/-- The configuration in a file, given what could be read of the file. -/
def load (path : String) (content : Option String) : Except ConfigError Config :=
  match content with
  | some text => ofToml text
  | none => .error (.unreadable path "no such file")

/-! ## Writing -/

def setting (name value : String) : String := name ++ " = " ++ value ++ "\n"

/-- An array of two items or more has each of them on a line of its own. -/
def writeUris (uris : List Uri) : String :=
  match uris.map fun u => Toml.writeString u.text with
  | [] => "[]"
  | [item] => "[" ++ item ++ "]"
  | items => "[\n" ++ String.join (items.map fun item => "    " ++ item ++ ",\n") ++ "]"

def toToml (c : Config) : String :=
  setting "encoding" (Toml.writeString c.encoding.name) ++
    "\n[vocabulary]\n" ++
    String.join (c.vocabulary.names.map fun (field, name) =>
      setting field (Toml.writeString name)) ++
    setting "type_predicate" (Toml.writeString c.vocabulary.typePredicate.text) ++
    "\n[schema]\n" ++
    setting "object_predicates" (writeUris c.schema.objectPredicates) ++
    setting "literal_predicates" (writeUris c.schema.literalPredicates) ++
    "\n[fulltext]\n" ++
    setting "all" (if c.fulltext.all then "true" else "false") ++
    setting "predicates" (writeUris c.fulltext.predicates.toList)

end QuadStore.Config
