import QuadStore.Quads.Iri
import QuadStore.Quads.Label
import QuadStore.Quads.Language
import QuadStore.Statement.Basic
import QuadStore.Text.Hexadecimal
/-!
# Quads

A quad is a triple in one graph. A statement amounts to one quad for each of its named graphs, or
to one in the default graph. Quads are written one to a line, and only if each of their terms is
well formed by the standard of its kind.

The checks follow the documented grammars: that of IRIs, that of blank node labels in N-Quads, and
that of language tags, each in a module of its own. What a check refuses is named together with the
grammar that it does not follow, in words of this library. Lines are N-Quads with one blank between
the terms. A character is escaped where the format asks for it, by its short form if it has one.
-/

namespace QuadStore

structure Quad where
  triple : Triple
  graph : Context
deriving DecidableEq

def xsdString : String := "http://www.w3.org/2001/XMLSchema#string"

namespace Quads

/-! ## Checks -/

def checkUri (u : Uri) : Except ExportError Unit :=
  if isIri u.text.toList then .ok () else .error (.rejected u.render "not an IRI")

def checkBlank (b : BlankNode) : Except ExportError Unit :=
  if isLabel b.label.toList then .ok () else .error (.rejected b.render "not a blank node label")

def checkResource : Resource → Except ExportError Unit
  | .uri u => checkUri u
  | .blank b => checkBlank b

def checkLiteral (l : Literal) : Except ExportError Unit :=
  match l.kind with
  | .plain => .ok ()
  | .typed datatype => checkUri datatype
  | .tagged language =>
    if isTag language.text.toList then .ok ()
    else .error (.rejected l.render "not a language tag")

def checkValue : Value → Except ExportError Unit
  | .resource r => checkResource r
  | .literal l => checkLiteral l

def checkStatement (s : Statement) : Except ExportError Unit := do
  checkUri s.predicate
  checkValue s.object
  s.contexts.toList.forM checkUri
  checkResource s.subject

/-- The graphs of a statement. -/
def graphsOf (s : Statement) : List Context :=
  if s.contexts.isEmpty then [.default] else s.contextList

/-- The quads of a statement. -/
def ofStatement (s : Statement) : Except ExportError (List Quad) := do
  checkStatement s
  return (graphsOf s).map fun graph => ⟨s.triple, graph⟩

/-! ## Lines -/

/-- Controls, and the last two code points of the basic plane, which are no characters. -/
def needsNumber (c : Char) : Bool :=
  c.toNat < 32 || c.toNat == 127 || c.toNat == 0xFFFE || c.toNat == 0xFFFF

def escapedChar (c : Char) : List Char :=
  if c = '\x08' then ['\\', 'b']
  else if c = '\t' then ['\\', 't']
  else if c = '\n' then ['\\', 'n']
  else if c = '\x0c' then ['\\', 'f']
  else if c = '\r' then ['\\', 'r']
  else if c = '"' then ['\\', '"']
  else if c = '\\' then ['\\', '\\']
  else if needsNumber c then ['\\', 'u'] ++ Text.upperHexDigits c.toNat
  else [c]

def quotedText (s : String) : String :=
  String.ofList (['"'] ++ s.toList.flatMap escapedChar ++ ['"'])

/-- A string datatype is left out. -/
def renderLiteral (l : Literal) : String :=
  match l.kind with
  | .plain => quotedText l.value
  | .typed datatype =>
    if datatype.text = xsdString then quotedText l.value
    else quotedText l.value ++ "^^" ++ datatype.render
  | .tagged language => quotedText l.value ++ "@" ++ language.text

def renderValue : Value → String
  | .resource r => r.render
  | .literal l => renderLiteral l

def renderGraph : Context → String
  | .default => "DEFAULT"
  | .named u => u.render

def line (q : Quad) : String :=
  q.triple.subject.render ++ " " ++ q.triple.predicate.render ++ " " ++
    renderValue q.triple.object ++
    (match q.graph with
      | .default => ""
      | .named u => " " ++ u.render) ++ " .\n"

/-! ## Output -/

/-- Text that is being written, with the number of bytes there is room for. -/
structure Output where
  text : String := ""
  room : Option Nat := none
deriving DecidableEq

abbrev OutputM := EStateM ExportError Output

def put (s : String) : OutputM Unit := fun out =>
  if out.room.all (out.text.utf8ByteSize + s.utf8ByteSize ≤ ·) then
    .ok () { out with text := out.text ++ s }
  else .error (.unwritable "no room left") out

def writeStatement (s : Statement) : OutputM Nat := fun out =>
  match ofStatement s with
  | .error cause => .error cause out
  | .ok quads => (do quads.forM (fun q => put (line q)); return quads.length : OutputM Nat) out

/-- Write statements line by line and say how many lines there are. -/
def writeAll (statements : List Statement) : OutputM Nat :=
  statements.foldlM (fun count s => do return count + (← writeStatement s)) 0

end Quads

end QuadStore
