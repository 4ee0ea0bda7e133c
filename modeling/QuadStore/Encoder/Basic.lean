import QuadStore.Config.Basic
import QuadStore.Fragment.Basic
import QuadStore.Statement.Basic
/-!
# Encoder

An encoder knows how statements are laid out: the policy, the vocabulary, the schema and which
literals are indexed by word.
-/

namespace QuadStore

structure Encoder where
  policy : Policy
  vocabulary : Vocabulary
  schema : Option Schema
  fulltext : FulltextConfig
deriving DecidableEq

namespace Encoder

/-- The encoder of a valid configuration. -/
def ofConfig (c : Config) : Except ConfigError Encoder := do
  c.validate
  return ⟨c.encoding, c.vocabulary, c.schema.declared?, c.fulltext⟩

def rangesOverResources (e : Encoder) (predicate : Uri) : Bool :=
  (e.schema.bind (·.rangesOverResources? predicate)).getD false

/-- The object as it is stored. A plain literal that reads as a URI is a resource when the predicate
ranges over resources. -/
def classify (e : Encoder) (predicate : Uri) : Value → Value
  | .resource r => .resource r
  | .literal l =>
    if e.rangesOverResources predicate && l.isPlain then
      match Uri.ofString l.value with
      | .ok u => .resource (.uri u)
      | .error _ => .literal l
    else .literal l

def classifyTriple (e : Encoder) (t : Triple) : Triple :=
  { t with object := e.classify t.predicate t.object }

end Encoder

namespace Vocabulary

/-- The entry that leads to the vertex of a resource. -/
def resourceEntry (v : Vocabulary) : Resource → Entry
  | .uri u => ⟨v.uriKey, u.text⟩
  | .blank b => ⟨v.blankKey, b.label⟩

def nodeOfResource (v : Vocabulary) (r : Resource) (tag : Tag) : Node :=
  .keyed (v.resourceEntry r) tag

/-- The kind of a vertex, and the parts of the literal it holds if it holds one. -/
def identityProperties (v : Vocabulary) (kind : String) (l : Option Literal) :
    List (String × Option String) :=
  [(v.kindKey, some kind),
    (v.literalValueKey, l.map (·.value)),
    (v.literalDatatypeKey, (l.bind (·.datatype)).map (·.text)),
    (v.literalLanguageKey, (l.bind (·.language)).map (·.text))]

def nodeOfMiddle (v : Vocabulary) (l : Option Literal) : Node :=
  .unkeyed (v.identityProperties middleKind l) .middle

def nodeOfLiteral (v : Vocabulary) (l : Literal) : Node :=
  .unkeyed (v.identityProperties literalKind (some l)) .literal

end Vocabulary

end QuadStore
