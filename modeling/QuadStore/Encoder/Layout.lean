import QuadStore.Encoder.Basic
/-!
# Layouts

The fragment of a statement. A type statement is a direct edge under every policy. Any other
statement is laid out by the policy, in one way for a resource and in another for a literal.
-/

namespace QuadStore

/-- What the layouts of one statement share. -/
structure Layout where
  vocabulary : Vocabulary
  predicate : Uri
  graphs : List Uri

namespace Layout

def label (l : Layout) : String := l.predicate.text

/-- The named graphs as values of a key. -/
def graphEntries (l : Layout) (key : String) : List Entry :=
  l.graphs.map fun g => ⟨key, g.text⟩

/-- Entries by which a vertex is found from each named graph. -/
def contextIndex (l : Layout) (release : Release) : List IndexEntry :=
  l.graphs.map fun g => ⟨⟨l.vocabulary.contextIndexKey, g.text⟩, release⟩

/-- The entry by which a vertex is found from the literal it holds. -/
def literalIndex (l : Layout) (literal : Literal) (release : Release) : List IndexEntry :=
  [⟨⟨l.vocabulary.literalIndexKey, literal.encode⟩, release⟩]

def fulltext (l : Layout) (literal : Literal) (indexed : Bool) : List FulltextEntry :=
  if indexed then [⟨l.label, literal.value⟩] else []

/-- An edge from subject to object that lists the named graphs. -/
def direct (l : Layout) (f : Fragment) (subject object : Nat) : Except FragmentError Fragment := do
  let (edge, f) ← f.addEdge subject l.label object .relation
  return f.modifyEdge edge (·.addProperties (l.graphEntries l.vocabulary.contextsKey))

/-- A type edge is not found through a middle vertex, so the subject is indexed by context. -/
def type (l : Layout) (policy : Policy) (f : Fragment) (subject object : Nat) :
    Except FragmentError Fragment := do
  let f ← l.direct f subject object
  if policy.findsByContext then
    return f.modifyNode subject (·.addIndex
      (l.contextIndex (.whenNoEdgeProperty l.label l.vocabulary.contextsKey)))
  else return f

/-- The literal is a property of the subject, and a property beside it lists the named graphs. -/
def denseLiteral (l : Layout) (f : Fragment) (subject : Nat) (literal : Literal) (indexed : Bool) :
    Fragment :=
  let guardKey := l.vocabulary.contextsKeyOf l.predicate literal.encode
  f.modifyNode subject fun n =>
    let n := n.addProperties (l.graphEntries guardKey)
    let n := n.addGuarded [⟨⟨l.label, literal.encode⟩, guardKey⟩]
    let n := n.addIndex (l.literalIndex literal (.whenNoProperty none))
    n.addFulltext (l.fulltext literal indexed)

/-- An edge from the middle vertex to the vertex of each named graph. -/
def linkContexts (l : Layout) (f : Fragment) (middle : Nat) : Except FragmentError Fragment :=
  l.graphs.foldlM (fun f g => do
    let node : Node := { l.vocabulary.nodeOfResource (.uri g) .context with optional := true }
    let (context, f) := f.addNode node
    let (_, f) ← f.addEdge middle l.vocabulary.contextEdgeLabel context .context
    return f) f

/-- Edges from the subject to the middle vertex and on to what it is about. -/
def through (l : Layout) (f : Fragment) (subject middle object : Nat) :
    Except FragmentError Fragment := do
  let (_, f) ← f.addEdge subject l.label middle .structural
  let (_, f) ← f.addEdge middle l.label object .structural
  return f

def quadObject (l : Layout) (f : Fragment) (subject object : Nat) :
    Except FragmentError Fragment := do
  let (middle, f) := f.addNode (l.vocabulary.nodeOfMiddle none)
  let f ← l.through f subject middle object
  l.linkContexts f middle

def quadLiteral (l : Layout) (f : Fragment) (subject : Nat) (literal : Literal) (indexed : Bool) :
    Except FragmentError Fragment := do
  let (middle, f) := f.addNode (l.vocabulary.nodeOfMiddle none)
  let node := ((l.vocabulary.nodeOfLiteral literal).addIndex
    (l.literalIndex literal .withVertex)).addFulltext (l.fulltext literal indexed)
  let (object, f) := f.addNode node
  let f ← l.through f subject middle object
  l.linkContexts f middle

/-- A middle vertex that lists the named graphs itself. -/
def recordingNode (l : Layout) (literal : Option Literal) : Node :=
  ((l.vocabulary.nodeOfMiddle literal).addProperties
    (l.graphEntries l.vocabulary.contextsKey)).addIndex
      (l.contextIndex (.whenNoProperty (some l.vocabulary.contextsKey)))

def middleObject (l : Layout) (f : Fragment) (subject object : Nat) :
    Except FragmentError Fragment :=
  let (middle, f) := f.addNode (l.recordingNode none)
  l.through f subject middle object

def middleLiteral (l : Layout) (f : Fragment) (subject : Nat) (literal : Literal)
    (indexed : Bool) : Except FragmentError Fragment := do
  let node := ((l.recordingNode (some literal)).addIndex
    (l.literalIndex literal .withVertex)).addFulltext (l.fulltext literal indexed)
  let (middle, f) := f.addNode node
  let (_, f) ← f.addEdge subject l.label middle .structural
  return f

end Layout

namespace Encoder

def layout (e : Encoder) (s : Statement) : Layout :=
  ⟨e.vocabulary, s.predicate, s.contexts.toList⟩

/-- The fragment of a statement. -/
def fragment (e : Encoder) (s : Statement) : Except FragmentError Fragment :=
  let l := e.layout s
  let (subject, f) := Fragment.empty.addNode (e.vocabulary.nodeOfResource s.subject .subject)
  match e.classify s.predicate s.object with
  | .resource r =>
    if s.predicate = e.vocabulary.typePredicate then
      let (object, f) := f.addNode (e.vocabulary.nodeOfResource r .class_)
      l.type e.policy f subject object
    else
      let (object, f) := f.addNode (e.vocabulary.nodeOfResource r .object)
      match e.policy with
      | .dense => l.direct f subject object
      | .verboseQuad => l.quadObject f subject object
      | .alwaysMiddle => l.middleObject f subject object
  | .literal literal =>
    let indexed := e.fulltext.covers s.predicate
    match e.policy with
    | .dense => .ok (l.denseLiteral f subject literal indexed)
    | .verboseQuad => l.quadLiteral f subject literal indexed
    | .alwaysMiddle => l.middleLiteral f subject literal indexed

end Encoder

end QuadStore
