import QuadStore.Term.Json
/-!
# Vocabulary

The property keys and edge labels that an encoded graph uses for itself. They all start with an
underscore, and a URI starts with a letter, so they are never taken for a predicate.
-/

namespace QuadStore

def rdfType : Uri := ⟨"http://www.w3.org/1999/02/22-rdf-syntax-ns#type", by decide +kernel⟩

/-- The kind of a vertex that stands for a triple. -/
def middleKind : String := "middle"

/-- The kind of a vertex that stands for a literal. -/
def literalKind : String := "literal"

structure Vocabulary where
  uriKey : String := "_uri"
  blankKey : String := "_blank"
  kindKey : String := "_kind"
  contextEdgeLabel : String := "_context"
  contextsKey : String := "_contexts"
  literalValueKey : String := "_value"
  literalDatatypeKey : String := "_datatype"
  literalLanguageKey : String := "_language"
  literalContextPrefix : String := "_contexts:"
  literalIndexKey : String := "_literal"
  contextIndexKey : String := "_in_context"
  typePredicate : Uri := rdfType
deriving DecidableEq

/-- Whether a key or label belongs to the vocabulary rather than to a predicate. -/
def isInternal (name : String) : Bool := name.toList.head? == some '_'

def startsWith (name start : String) : Bool := start.toList.isPrefixOf name.toList

namespace Vocabulary

/-- The internal names with the fields that hold them. -/
def names (v : Vocabulary) : List (String × String) :=
  [("uri_key", v.uriKey),
    ("blank_key", v.blankKey),
    ("kind_key", v.kindKey),
    ("context_edge_label", v.contextEdgeLabel),
    ("contexts_key", v.contextsKey),
    ("literal_value_key", v.literalValueKey),
    ("literal_datatype_key", v.literalDatatypeKey),
    ("literal_language_key", v.literalLanguageKey),
    ("literal_context_prefix", v.literalContextPrefix),
    ("literal_index_key", v.literalIndexKey),
    ("context_index_key", v.contextIndexKey)]

/-- An underscore with something after it. -/
def isInternalName (name : String) : Bool := isInternal name && 2 ≤ name.toList.length

def checkName : String × String → Except ConfigError Unit
  | (field, name) =>
    if isInternalName name then .ok ()
    else
      .error (.invalidVocabulary
        (field ++ " = " ++ Text.quoted name ++ " must start with `_` and be non-trivial"))

def checkDistinct : List (String × String) → Except ConfigError Unit
  | [] => .ok ()
  | (field, name) :: rest => do
    match rest.find? fun other => other.2 == name with
    | some (other, _) =>
      throw (.invalidVocabulary (field ++ " and " ++ other ++ " are both " ++ Text.quoted name))
    | none => checkDistinct rest

/-- No other name starts like the keys of literal contexts. -/
def checkApart (start : String) : String × String → Except ConfigError Unit
  | (field, name) =>
    if field != "literal_context_prefix" && startsWith name start then
      .error (.invalidVocabulary
        (field ++ " = " ++ Text.quoted name ++ " starts with literal_context_prefix " ++
          Text.quoted start))
    else .ok ()

def validate (v : Vocabulary) : Except ConfigError Unit := do
  v.names.forM checkName
  checkDistinct v.names
  v.names.forM (checkApart v.literalContextPrefix)

/-- The key under which a subject lists the contexts of one literal of one predicate. -/
def contextsKeyOf (v : Vocabulary) (predicate : Uri) (encoded : String) : String :=
  v.literalContextPrefix ++ predicate.text ++ "#" ++ encoded

end Vocabulary

end QuadStore
