import QuadStore.Graph.Basic
import QuadStore.Encoder.Basic
/-!
# Reading statements off a graph

A view is a graph together with the vocabulary it was written with. What a vertex holds tells how a
statement was laid out: a middle vertex and a literal vertex have their kind, a property under a
predicate is a dense literal, and any other edge under a predicate is a direct edge.
-/

namespace QuadStore

structure View where
  graph : Graph
  vocabulary : Vocabulary

namespace View

def corrupt {α : Type} : Except TermError α → Except Error α
  | .ok a => .ok a
  | .error cause => .error (.query (.corruptEncoding cause.message))

def stored {α : Type} : Except GraphError α → Except Error α
  | .ok a => .ok a
  | .error cause => .error (.graph cause)

def decoded {α : Type} : Except DecodeError α → Except Error α
  | .ok a => .ok a
  | .error (.invalid cause) => .error (.query (.corruptEncoding cause.message))
  | .error .shape => .error (.query (.corruptEncoding "not the text of a literal"))

def readUri (text : String) : Except Error Uri := corrupt (Uri.ofString text)

/-- The first value under a key. -/
def firstValue (w : View) (v : VertexId) (key : String) : Except Error (Option String) := do
  return (← stored (w.graph.property v key)).head?

def isOfKind (w : View) (v : VertexId) (kind : String) : Except Error Bool := do
  return (← stored (w.graph.property v w.vocabulary.kindKey)).contains kind

def isMiddle (w : View) (v : VertexId) : Except Error Bool := w.isOfKind v middleKind

def isLiteral (w : View) (v : VertexId) : Except Error Bool := w.isOfKind v literalKind

/-- The vertex of a resource. -/
def vertexFor (w : View) (r : Resource) : Option VertexId :=
  w.graph.lookup? (w.vocabulary.resourceEntry r)

/-- The resource a vertex stands for. -/
def resource (w : View) (v : VertexId) : Except Error (Option Resource) := do
  match ← w.firstValue v w.vocabulary.uriKey with
  | some text => return some (.uri (← readUri text))
  | none =>
    match ← w.firstValue v w.vocabulary.blankKey with
    | some label => return some (.blank (← corrupt (BlankNode.ofString label)))
    | none => return none

/-- The literal whose parts a vertex holds. -/
def literalOf (w : View) (v : VertexId) : Except Error (Option Literal) := do
  match ← w.firstValue v w.vocabulary.literalValueKey with
  | none => return none
  | some value =>
    let datatype ← (← w.firstValue v w.vocabulary.literalDatatypeKey).mapM readUri
    let language ← w.firstValue v w.vocabulary.literalLanguageKey
    return some (← corrupt (Literal.ofParts value datatype language))

def readGraphs (texts : List String) : Except Error UriSet := do
  return Std.ExtTreeSet.ofList (← texts.mapM readUri)

/-- Whether an edge belongs to a predicate. -/
def underPredicate (e : EdgeId × Edge) : Bool := !isInternal e.2.label

/-- The object of the triple that a middle vertex stands for. -/
def middleObject (w : View) (middle : VertexId) (label : String) : Except Error (Option Value) := do
  match ← w.literalOf middle with
  | some l => return some (.literal l)
  | none =>
    match ← stored (w.graph.findEdges middle (some label) .outgoing) with
    | [(_, edge)] =>
      if ← w.isLiteral edge.target then return (← w.literalOf edge.target).map .literal
      else return (← w.resource edge.target).map .resource
    | _ => return none

/-- The named graphs that the context edges of a middle vertex lead to. -/
def contextTargets (w : View) (middle : VertexId) : Except Error (List Uri) := do
  let edges ← stored (w.graph.findEdges middle (some w.vocabulary.contextEdgeLabel) .outgoing)
  edges.filterMapM fun e => do return (← w.resource e.2.target).bind (·.uri?)

/-- The triple that a middle vertex stands for, with its named graphs. -/
def middleStatement (w : View) (middle : VertexId) : Except Error (Option Statement) := do
  match (← stored (w.graph.findEdges middle none .incoming)).filter underPredicate with
  | [(_, edge)] =>
    let predicate ← readUri edge.label
    match ← w.resource edge.source with
    | none => return none
    | some subject =>
      match ← w.middleObject middle edge.label with
      | none => return none
      | some object =>
        let targets ← w.contextTargets middle
        let listed ← readGraphs (← stored (w.graph.property middle w.vocabulary.contextsKey))
        return some ⟨⟨subject, predicate, object⟩, listed.insertMany targets⟩
  | _ => return none

/-- The triple of an edge between two resources, with its named graphs. -/
def edgeStatement (w : View) (e : EdgeId × Edge) : Except Error (Option Statement) := do
  let predicate ← readUri e.2.label
  let subject ← w.resource e.2.source
  let object ← w.resource e.2.target
  match subject, object with
  | some subject, some object =>
    let graphs ← readGraphs (← stored (w.graph.edgeProperty e.1 w.vocabulary.contextsKey))
    return some ⟨⟨subject, predicate, .resource object⟩, graphs⟩
  | _, _ => return none

/-- The statement of one value under a predicate. -/
def propertyStatement (w : View) (v : VertexId) (subject : Resource) (predicate : Uri)
    (encoded : String) : Except Error Statement := do
  let literal ← decoded (Literal.decode encoded)
  let guardKey := w.vocabulary.contextsKeyOf predicate encoded
  let graphs ← readGraphs (← stored (w.graph.property v guardKey))
  return ⟨⟨subject, predicate, .literal literal⟩, graphs⟩

/-- The literals that a subject holds under predicates, or under one of them. -/
def propertyStatements (w : View) (v : VertexId) (predicate : Option Uri) :
    Except Error (List Statement) := do
  let keys := (← stored (w.graph.propertyKeys v)).filter fun key =>
    !isInternal key && predicate.all fun p => p.text == key
  if keys.isEmpty then return []
  else
    match ← w.resource v with
    | none => return []
    | some subject =>
      let found ← keys.mapM fun key => do
        let predicate ← readUri key
        (← stored (w.graph.property v key)).mapM (w.propertyStatement v subject predicate)
      return found.flatten

/-- The statement an edge belongs to, where `v` is the end that may be a middle vertex. -/
def statementOfEdge (w : View) (e : EdgeId × Edge) (v : VertexId) :
    Except Error (Option Statement) := do
  if ← w.isMiddle v then w.middleStatement v else w.edgeStatement e

/-- The statements with this subject. -/
def statementsFrom (w : View) (v : VertexId) (predicate : Option Uri) :
    Except Error (List Statement) := do
  let edges ← stored (w.graph.findEdges v (predicate.map (·.text)) .outgoing)
  let found ← (edges.filter underPredicate).filterMapM fun e => w.statementOfEdge e e.2.target
  return found ++ (← w.propertyStatements v predicate)

/-- The statements with this resource as object. -/
def statementsTo (w : View) (v : VertexId) (predicate : Option Uri) :
    Except Error (List Statement) := do
  let edges ← stored (w.graph.findEdges v (predicate.map (·.text)) .incoming)
  (edges.filter underPredicate).filterMapM fun e => w.statementOfEdge e e.2.source

/-- The statements of a vertex that is found from a literal. -/
def aboutLiteral (w : View) (v : VertexId) : Except Error (List Statement) := do
  if ← w.isMiddle v then return (← w.middleStatement v).toList
  else if ← w.isLiteral v then
    let edges ← stored (w.graph.findEdges v none .incoming)
    (edges.filter underPredicate).filterMapM fun e => do
      if ← w.isMiddle e.2.source then w.middleStatement e.2.source else return none
  else w.propertyStatements v none

/-- The statements with this literal as object. -/
def statementsOfLiteral (w : View) (l : Literal) : Except Error (List Statement) := do
  let found ←
    (w.graph.lookupValue ⟨w.vocabulary.literalIndexKey, l.encode⟩).mapM w.aboutLiteral
  return found.flatten.filter fun s => s.object == .literal l

/-- The statements of a vertex that is found from a context. -/
def aboutContext (w : View) (v : VertexId) : Except Error (List Statement) := do
  if ← w.isMiddle v then return (← w.middleStatement v).toList
  else
    let edges ← stored (w.graph.findEdges v (some w.vocabulary.typePredicate.text) .outgoing)
    edges.filterMapM w.edgeStatement

/-- The statements whose middle vertex has an edge to the vertex of a context. -/
def aboutContextVertex (w : View) (v : VertexId) : Except Error (List Statement) := do
  let edges ← stored (w.graph.findEdges v (some w.vocabulary.contextEdgeLabel) .incoming)
  edges.filterMapM fun e => w.middleStatement e.2.source

/-- The statements asserted in this named graph. -/
def statementsOfContext (w : View) (context : Uri) : Except Error (List Statement) := do
  let linked ← match w.vertexFor (.uri context) with
    | some v => w.aboutContextVertex v
    | none => pure []
  let listed ←
    (w.graph.lookupValue ⟨w.vocabulary.contextIndexKey, context.text⟩).mapM w.aboutContext
  return (linked ++ listed.flatten).filter fun s => s.contexts.contains context

end View

end QuadStore
