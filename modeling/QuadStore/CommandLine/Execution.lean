import QuadStore.CommandLine.Request
import QuadStore.Config.Toml
import QuadStore.Quads.Basic
import QuadStore.Statement.Json
import QuadStore.Store
/-!
# Carrying out requests

A request is carried out on a fresh store that holds the statements of a file. What is printed
before a failure stays printed.
-/

namespace QuadStore.CommandLine

/-- What a run leaves: an exit code, the text that it printed, and what it has to complain about. -/
structure Outcome where
  code : Nat
  output : String := ""
  complaint : Option String := none
deriving DecidableEq, Repr

inductive Failure where
  | library (cause : Error)
  | unreadable (path : String)
  /-- A file of statements that does not hold an array of them. -/
  | undecodable (path : String)
deriving DecidableEq, Repr

def Failure.message : Failure → String
  | library cause => cause.message ++ "\n" ++ cause.help
  | unreadable path => "failed to read " ++ path
  | undecodable path => "no array of statements in " ++ path

abbrev Result := Except Failure

/-- The contents of the files that can be read. -/
abbrev Files := String → Option String

/-! ## Input -/

def settle (files : Files) (r : Request) : Except ConfigError Config := do
  let c ← match r.config with
    | some path => Config.load path (files path)
    | none => pure {}
  return r.encoding.elim c fun encoding => { c with encoding }

def statementsIn (files : Files) (path : String) : Result (List Statement) :=
  match files path with
  | none => .error (.unreadable path)
  | some text => (Statement.listOfText text).mapError fun _ => .undecodable path

/-- A store that holds some statements. -/
def storeOf (c : Config) (statements : List Statement) : Except Error Store := do
  let store ← (Store.ofConfig c).mapError .config
  match Store.addAll statements store with
  | .ok _ store => return store
  | .error cause _ => throw cause

/-! ## Commands -/

def renderStats (s : Store) (count : Nat) : String :=
  let stats := s.stats
  String.join
    ["encoding:   ", s.encoder.policy.name, "\n",
      "statements: ", toString count, "\n",
      "vertices:   ", toString stats.vertices, "\n",
      "  keyed:    ", toString stats.keyed, "\n",
      "edges:      ", toString stats.edges, "\n"]

def resourceOf (term : String) : Except TermError Resource :=
  match term.toList with
  | '_' :: ':' :: label => Resource.blank <$> BlankNode.ofString (String.ofList label)
  | _ => Resource.uri <$> Uri.ofString term

def contextOf (term : String) : Except TermError Context :=
  if term = "default" then .ok .default else Context.named <$> Uri.ofString term

/-- Contexts count only if there are any. -/
def Terms.pattern (t : Terms) : Except TermError Pattern := do
  let subject ← t.subject.mapM resourceOf
  let predicate ← t.predicate.mapM Uri.ofString
  let object ← t.object.mapM resourceOf
  let contexts ← t.contexts.mapM contextOf
  return {
    subject
    predicate
    object := (t.literal.map fun text => Value.literal (.plain text)).or (object.map .resource)
    contexts := if contexts.isEmpty then .any else .among (Std.ExtTreeSet.ofList contexts) }

def renderFound (p : Pattern) (found : List Statement) : String :=
  if found.isEmpty then "No statements match " ++ p.render ++ ".\n"
  else
    "Matches for " ++ p.render ++ " (" ++ toString found.length ++ "):\n" ++
      String.join (found.map fun s => "  " ++ s.render ++ "\n")

/-- The subjects of some statements, each once and in order. -/
def subjectsOf (statements : List Statement) : List Resource :=
  (Std.ExtTreeSet.ofList (statements.map (·.subject))).toList

/-- Everything that is stored about some subjects. -/
def aboutSubjects (s : Store) (subjects : List Resource) : Except Error (List Statement) := do
  return (← subjects.mapM fun r => s.find { subject := some r }).flatten

/-! ## Runs -/

def failed (cause : Failure) (output : String := "") : Outcome :=
  { code := 1, output, complaint := some cause.message }

def finish (r : Result String) : Outcome :=
  match r with
  | .ok output => { code := 0, output }
  | .error cause => failed cause

def writeQuads (statements : List Statement) : Outcome :=
  match Quads.writeAll statements {} with
  | .ok _ out => { code := 0, output := out.text }
  | .error cause out => failed (.library (.quads cause)) out.text

/-- Carry out a command on a store that holds some statements. -/
def Command.run (store : Store) (statements : List Statement) : Command → Outcome
  | .stats => finish (.ok (renderStats store statements.length))
  | .query terms => finish do
    let p ← terms.pattern.mapError fun cause => .library (.term cause)
    return renderFound p (← (store.find p).mapError .library)
  | .quads =>
    match aboutSubjects store (subjectsOf statements) with
    | .ok stored => writeQuads stored
    | .error cause => failed (.library cause)

def Request.run (files : Files) (r : Request) : Outcome :=
  let opened : Result (List Statement × Store) := do
    let c ← (settle files r).mapError fun cause => .library (.config cause)
    let statements ← statementsIn files r.file
    return (statements, ← (storeOf c statements).mapError .library)
  match opened with
  | .ok (statements, store) => r.command.run store statements
  | .error cause => failed cause

def versionText : String := "quadgraph 0.3.1\n"

def usageText : String :=
  String.join
    ["Usage: quadgraph [--config FILE] [--encoding NAME] COMMAND --file FILE\n\n",
      "Commands:\n",
      "  stats   count the statements of a file and what they take up\n",
      "  query   print the statements that match a pattern\n",
      "  export  print the statements as N-Quads\n\n",
      "Terms of a query: --subject, --predicate, --object or --literal, --context\n"]

def run (files : Files) (arguments : List String) : Outcome :=
  match Request.ofArguments arguments with
  | .ok r => r.run files
  | .error .misuse => { code := 2, complaint := some usageText }
  | .error .version => { code := 0, output := versionText }
  | .error .help => { code := 0, output := usageText }

/-- The paths that a command line names. -/
def pathsOf (arguments : List String) : List String :=
  match Request.ofArguments arguments with
  | .ok r => r.file :: r.config.toList
  | .error _ => []

end QuadStore.CommandLine
