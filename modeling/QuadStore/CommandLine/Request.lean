import QuadStore.Policy
/-!
# Command line requests

A command line is a command with options. An option is written `--name value` or `--name=value`,
and is given once unless it may be repeated. The options that every command takes may also stand
before the command; given in both places, the later one counts.
-/

namespace QuadStore.CommandLine

inductive Flag where
  | config
  | encoding
  | file
  | subject
  | predicate
  | object
  | literal
  | context
deriving DecidableEq, Repr

namespace Flag

/-- The options that every command takes. -/
def shared : List Flag := [config, encoding]

def name : Flag → String
  | config => "config"
  | encoding => "encoding"
  | file => "file"
  | subject => "subject"
  | predicate => "predicate"
  | object => "object"
  | literal => "literal"
  | context => "context"

def isRepeatable : Flag → Bool
  | context => true
  | _ => false

/-- A path is not empty, and an encoding has a known name. -/
def admits : Flag → String → Bool
  | config, value => value != ""
  | file, value => value != ""
  | encoding, value => (Policy.ofName value).isOk
  | _, _ => true

end Flag

inductive Verb where
  | stats
  | query
  | quads
deriving DecidableEq, Repr

namespace Verb

def all : List Verb := [stats, query, quads]

def name : Verb → String
  | stats => "stats"
  | query => "query"
  | quads => "export"

def flags : Verb → List Flag
  | query => Flag.shared ++ [.file, .subject, .predicate, .object, .literal, .context]
  | _ => Flag.shared ++ [.file]

def ofName? (name : String) : Option Verb := all.find? (·.name == name)

/-- Whether help can be had on what the words name. -/
def isHelpTopic : List String → Bool
  | [] => true
  | [name] => name == "help" || (ofName? name).isSome
  | _ => false

end Verb

/-- Why a command line is not a request. -/
inductive Interruption where
  | misuse
  | version
  | help
deriving DecidableEq, Repr

/-! ## Arguments -/

inductive Argument where
  | word (text : String)
  | long (name : String) (value : Option String)
  | short (letters : List Char)
  /-- Two dashes, after which only words follow. -/
  | separator
deriving DecidableEq, Repr

def Argument.ofString (text : String) : Argument :=
  match text.toList with
  | ['-', '-'] => .separator
  | '-' :: '-' :: rest =>
    match rest.span (· != '=') with
    | (name, '=' :: value) => .long (String.ofList name) (some (String.ofList value))
    | (name, _) => .long (String.ofList name) none
  | '-' :: c :: rest => .short (c :: rest)
  | _ => .word text

def isWord (text : String) : Bool :=
  match Argument.ofString text with
  | .word _ => true
  | _ => false

/-! ## Options -/

abbrev Options := List (Flag × String)

namespace Options

def get? (options : Options) (flag : Flag) : Option String := options.lookup flag

def getAll (options : Options) (flag : Flag) : List String :=
  (options.filter (·.1 == flag)).map (·.2)

def add (options : Options) (flag : Flag) (value : String) : Except Interruption Options :=
  if flag.admits value && (flag.isRepeatable || (options.get? flag).isNone) then
    .ok (options ++ [(flag, value)])
  else .error .misuse

end Options

/-- Whether an argument stands before the command or after it. -/
inductive Place where
  | before
  | after (verb : Verb)
deriving DecidableEq, Repr

namespace Place

def flags : Place → List Flag
  | before => Flag.shared
  | after verb => verb.flags

def flag? (place : Place) (name : String) : Option Flag := place.flags.find? (·.name == name)

/-- The version is told only before a command. -/
def interruption : Place → Argument → Interruption
  | _, .long "help" none => .help
  | _, .short ('h' :: _) => .help
  | before, .long "version" none => .version
  | before, .short ('V' :: _) => .version
  | _, _ => .misuse

end Place

/-- Read options as far as they go: to the end, or before the command to its name. -/
def readOptions (place : Place) (options : Options) :
    List String → Except Interruption (Options × Option (Verb × List String))
  | [] => .ok (options, none)
  | text :: rest =>
    match Argument.ofString text with
    | .word word =>
      match place, Verb.ofName? word with
      | .before, some verb => .ok (options, some (verb, rest))
      | .before, none =>
        .error (if word == "help" && Verb.isHelpTopic rest then .help else .misuse)
      | .after _, _ => .error .misuse
    | .long name value =>
      match place.flag? name, value, rest with
      | some flag, some value, rest => do
        readOptions place (← options.add flag value) rest
      | some flag, none, value :: rest =>
        if isWord value then do readOptions place (← options.add flag value) rest
        else .error .misuse
      | some _, none, [] => .error .misuse
      | none, value, _ => .error (place.interruption (.long name value))
    | .short letters => .error (place.interruption (.short letters))
    | .separator => if rest.isEmpty then .ok (options, none) else .error .misuse

/-! ## Requests -/

/-- The terms of a query as they were given. -/
structure Terms where
  subject : Option String
  predicate : Option String
  object : Option String
  literal : Option String
  contexts : List String
deriving DecidableEq, Repr

inductive Command where
  | stats
  | query (terms : Terms)
  | quads
deriving DecidableEq, Repr

structure Request where
  command : Command
  /-- The path of the statements. -/
  file : String
  /-- The path of the configuration. -/
  config : Option String
  /-- The encoding to use in place of the one configured. -/
  encoding : Option Policy
deriving DecidableEq, Repr

/-- An object is a resource or a literal, not both. -/
def Command.ofOptions : Verb → Options → Except Interruption Command
  | .stats, _ => .ok .stats
  | .quads, _ => .ok .quads
  | .query, options =>
    let object := options.get? .object
    let literal := options.get? .literal
    if object.isSome && literal.isSome then .error .misuse
    else
      .ok (.query ⟨options.get? .subject, options.get? .predicate, object, literal,
        options.getAll .context⟩)

def Request.ofArguments (arguments : List String) : Except Interruption Request := do
  let (shared, next) ← readOptions .before [] arguments
  let some (verb, rest) := next | throw .misuse
  let (options, _) ← readOptions (.after verb) [] rest
  let some file := options.get? .file | throw .misuse
  let either (flag : Flag) := (options.get? flag).or (shared.get? flag)
  return {
    command := ← Command.ofOptions verb options
    file
    config := either .config
    encoding := (either .encoding).bind fun name => (Policy.ofName name).toOption }

end QuadStore.CommandLine
