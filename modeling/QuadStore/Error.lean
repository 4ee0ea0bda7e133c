import QuadStore.Text.Quoted
/-!
# Errors

Every failure names its cause. A message says what happened, a code identifies the kind of error
across versions, and a help text says what to do about it.
-/

namespace QuadStore

open QuadStore.Text (quoted)

inductive TermError where
  | invalidStatement (reason : String)
  | invalidUri (text : String)
  | invalidLanguageTag (tag : String)
deriving DecidableEq, Repr

inductive FragmentError where
  | danglingEdge (label : String) (node size : Nat)
deriving DecidableEq, Repr

inductive QueryError where
  | unsupportedPattern (shape encoding : String)
  | corruptEncoding (message : String)
deriving DecidableEq, Repr

inductive GraphError where
  | vertexNotFound (id : Nat)
  | edgeNotFound (id : Nat)
  | lockPoisoned
  | readOnly (operation : String)
deriving DecidableEq, Repr

inductive ConfigError where
  | unreadable (path cause : String)
  | malformed (message : String)
  | unknownEncoding (name : String)
  | invalidVocabulary (message : String)
  | conflictingSchema (predicate : String)
deriving DecidableEq, Repr

inductive ExportError where
  | rejected (term message : String)
  | unwritable (cause : String)
deriving DecidableEq, Repr

inductive TextIndexError where
  | unavailable (message : String)
deriving DecidableEq, Repr

inductive Error where
  | term (cause : TermError)
  | fragment (cause : FragmentError)
  | query (cause : QueryError)
  | graph (cause : GraphError)
  | config (cause : ConfigError)
  | quads (cause : ExportError)
deriving DecidableEq, Repr

namespace TermError

def message : TermError → String
  | invalidStatement reason => "invalid statement: " ++ reason
  | invalidUri text => "invalid URI: " ++ quoted text
  | invalidLanguageTag tag => "invalid language tag: " ++ quoted tag

def code : TermError → String
  | invalidStatement _ => "quadgraph::statement::invalid"
  | invalidUri _ => "quadgraph::statement::invalid_uri"
  | invalidLanguageTag _ => "quadgraph::statement::invalid_language"

def help : TermError → String
  | invalidStatement _ =>
    "Complete statements need a bound subject, predicate, object and context list. " ++
    "Wildcard statements may leave subject, object or contexts open, " ++
    "but the predicate must always be a concrete URI."
  | invalidUri _ =>
    "URIs must be absolute (start with a scheme such as `http:` or `urn:`) " ++
    "and must not contain whitespace or any of <>\"\x7b\x7d|\\^`."
  | invalidLanguageTag _ => "Language tags follow BCP 47, e.g. `en`, `sv`, `en-GB`."

end TermError

namespace FragmentError

def message : FragmentError → String
  | danglingEdge label node size =>
    "edge " ++ quoted label ++ " references node " ++ toString node ++
      " outside a fragment of " ++ toString size ++ " nodes"

def code : FragmentError → String
  | danglingEdge .. => "quadgraph::fragment::dangling_edge"

def help : FragmentError → String
  | danglingEdge .. =>
    "Every fragment edge must connect nodes created by the same fragment. " ++
    "Use the NodeRef returned by `Fragment::add_node` on this fragment."

end FragmentError

namespace QueryError

def message : QueryError → String
  | unsupportedPattern shape encoding =>
    "unsupported pattern " ++ shape ++ " for the " ++ encoding ++ " encoding"
  | corruptEncoding message => "corrupt encoded value in graph: " ++ message

def code : QueryError → String
  | unsupportedPattern .. => "quadgraph::query::unsupported_pattern"
  | corruptEncoding _ => "quadgraph::query::corrupt_encoding"

def help : QueryError → String
  | unsupportedPattern .. =>
    "Bind the subject or the object, or (for the verbose-quad and always-middle " ++
    "encodings) one or more named contexts. Full scans and predicate-only " ++
    "lookups have no access path."
  | corruptEncoding _ =>
    "A vertex holds a property that does not decode as a statement value. " ++
    "The graph was probably written with a different vocabulary or encoding."

end QueryError

namespace GraphError

def message : GraphError → String
  | vertexNotFound id => "vertex not found: " ++ toString id
  | edgeNotFound id => "edge not found: " ++ toString id
  | lockPoisoned => "graph lock poisoned"
  | readOnly operation => "cannot " ++ operation ++ " through a read-only snapshot"

def code : GraphError → String
  | vertexNotFound _ => "quadgraph::store::vertex_not_found"
  | edgeNotFound _ => "quadgraph::store::edge_not_found"
  | lockPoisoned => "quadgraph::store::poisoned"
  | readOnly _ => "quadgraph::store::read_only"

def help : GraphError → String
  | vertexNotFound _ => "The vertex was deleted, possibly by a concurrent transaction."
  | edgeNotFound _ => "The edge was deleted, possibly by a concurrent transaction."
  | lockPoisoned =>
    "A thread panicked while holding the graph lock. " ++
    "The in-memory graph can no longer be trusted; rebuild the store."
  | readOnly _ => "Snapshots serve queries only. Open a transaction with `begin()` to write."

end GraphError

namespace ConfigError

def message : ConfigError → String
  | unreadable path cause => "failed to read config " ++ path ++ ": " ++ cause
  | malformed message => "failed to parse config: " ++ message
  | unknownEncoding name => "unknown encoding: " ++ quoted name
  | invalidVocabulary message => "invalid vocabulary: " ++ message
  | conflictingSchema predicate =>
    "predicate " ++ predicate ++ " is declared both object-typed and literal-typed"

def code : ConfigError → String
  | unreadable .. => "quadgraph::config::io"
  | malformed _ => "quadgraph::config::parse"
  | unknownEncoding _ => "quadgraph::config::unknown_encoding"
  | invalidVocabulary _ => "quadgraph::config::invalid_vocabulary"
  | conflictingSchema _ => "quadgraph::config::conflicting_schema"

def help : ConfigError → String
  | unreadable .. => "Check that the configuration file exists and is readable."
  | malformed _ =>
    "The configuration must be valid TOML. See `StoreConfig` for the accepted fields."
  | unknownEncoding _ => "Valid encodings are: dense, verbose-quad, always-middle."
  | invalidVocabulary _ =>
    "Internal keys and labels must start with `_` and be pairwise distinct, " ++
    "so they can never collide with predicate URIs."
  | conflictingSchema _ =>
    "List the predicate under either `schema.object_predicates` or `schema.literal_predicates`."

end ConfigError

namespace ExportError

def message : ExportError → String
  | rejected term message => "cannot convert " ++ term ++ " to an RDF term: " ++ message
  | unwritable cause => "failed to write N-Quads: " ++ cause

def code : ExportError → String
  | rejected .. => "quadgraph::interop::term"
  | unwritable _ => "quadgraph::interop::io"

def help : ExportError → String
  | rejected .. => "oxigraph rejected the term. Check the IRI, blank node id or language tag."
  | unwritable _ => "Check that the output is writable."

end ExportError

namespace TextIndexError

def message : TextIndexError → String
  | unavailable message => "fulltext index unavailable: " ++ message

def code : TextIndexError → String
  | unavailable _ => "quadgraph::fulltext::unavailable"

def help : TextIndexError → String
  | unavailable _ =>
    "The graph mutation was kept; reindex the affected literals once the index is back."

end TextIndexError

namespace Error

def message : Error → String
  | term cause => cause.message
  | fragment cause => cause.message
  | query cause => cause.message
  | graph cause => cause.message
  | config cause => cause.message
  | quads cause => cause.message

def code : Error → String
  | term cause => cause.code
  | fragment cause => cause.code
  | query cause => cause.code
  | graph cause => cause.code
  | config cause => cause.code
  | quads cause => cause.code

def help : Error → String
  | term cause => cause.help
  | fragment cause => cause.help
  | query cause => cause.help
  | graph cause => cause.help
  | config cause => cause.help
  | quads cause => cause.help

end Error

end QuadStore
