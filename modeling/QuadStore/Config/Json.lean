import QuadStore.Config.Basic
import QuadStore.Json.Decode
/-!
# The JSON form of a configuration

Every member may be missing and has its default then.
-/

namespace QuadStore

namespace Policy

def toJson (p : Policy) : Json := .string p.name

def ofJson : Decoder Policy := fun j => do
  let (name, content) ← j.variant
  match content with
  | none => pure ()
  | some .null => pure ()
  | some _ => throw .shape
  match ofName name with
  | .ok policy => return policy
  | .error _ => throw .shape

end Policy

def urisToJson (uris : List Uri) : Json := .array (uris.map Uri.toJson)

namespace Vocabulary

def toJson (v : Vocabulary) : Json :=
  .object (v.names.map (fun (field, name) => (field, .string name)) ++
    [("type_predicate", v.typePredicate.toJson)])

def read (v : Vocabulary) : String × Json → Except DecodeError Vocabulary
  | ("uri_key", j) => do return { v with uriKey := ← j.asString }
  | ("blank_key", j) => do return { v with blankKey := ← j.asString }
  | ("kind_key", j) => do return { v with kindKey := ← j.asString }
  | ("context_edge_label", j) => do return { v with contextEdgeLabel := ← j.asString }
  | ("contexts_key", j) => do return { v with contextsKey := ← j.asString }
  | ("literal_value_key", j) => do return { v with literalValueKey := ← j.asString }
  | ("literal_datatype_key", j) => do return { v with literalDatatypeKey := ← j.asString }
  | ("literal_language_key", j) => do return { v with literalLanguageKey := ← j.asString }
  | ("literal_context_prefix", j) => do return { v with literalContextPrefix := ← j.asString }
  | ("literal_index_key", j) => do return { v with literalIndexKey := ← j.asString }
  | ("context_index_key", j) => do return { v with contextIndexKey := ← j.asString }
  | ("type_predicate", j) => do return { v with typePredicate := ← Uri.ofJson j }
  | _ => .error .shape

def members : List String :=
  ({} : Vocabulary).names.map (·.1) ++ ["type_predicate"]

def ofJson : Decoder Vocabulary := fun j => do (← j.record members).foldlM read {}

end Vocabulary

namespace SchemaConfig

def toJson (c : SchemaConfig) : Json :=
  .object [("object_predicates", urisToJson c.objectPredicates),
    ("literal_predicates", urisToJson c.literalPredicates)]

def read (c : SchemaConfig) : String × Json → Except DecodeError SchemaConfig
  | ("object_predicates", j) => do return { c with objectPredicates := ← j.asList Uri.ofJson }
  | ("literal_predicates", j) => do return { c with literalPredicates := ← j.asList Uri.ofJson }
  | _ => .error .shape

def ofJson : Decoder SchemaConfig := fun j => do
  (← j.record ["object_predicates", "literal_predicates"]).foldlM read {}

end SchemaConfig

namespace FulltextConfig

def toJson (c : FulltextConfig) : Json :=
  .object [("all", .bool c.all), ("predicates", urisToJson c.predicates.toList)]

def read (c : FulltextConfig) : String × Json → Except DecodeError FulltextConfig
  | ("all", j) => do return { c with all := ← j.asBool }
  | ("predicates", j) => do
    return { c with predicates := Std.ExtTreeSet.ofList (← j.asList Uri.ofJson) }
  | _ => .error .shape

def ofJson : Decoder FulltextConfig := fun j => do
  (← j.record ["all", "predicates"]).foldlM read {}

end FulltextConfig

namespace Config

def toJson (c : Config) : Json :=
  .object [("encoding", c.encoding.toJson),
    ("vocabulary", c.vocabulary.toJson),
    ("schema", c.schema.toJson),
    ("fulltext", c.fulltext.toJson)]

def read (c : Config) : String × Json → Except DecodeError Config
  | ("encoding", j) => do return { c with encoding := ← Policy.ofJson j }
  | ("vocabulary", j) => do return { c with vocabulary := ← Vocabulary.ofJson j }
  | ("schema", j) => do return { c with schema := ← SchemaConfig.ofJson j }
  | ("fulltext", j) => do return { c with fulltext := ← FulltextConfig.ofJson j }
  | _ => .error .shape

def ofJson : Decoder Config := fun j => do
  (← j.record ["encoding", "vocabulary", "schema", "fulltext"]).foldlM read {}

end Config

end QuadStore
