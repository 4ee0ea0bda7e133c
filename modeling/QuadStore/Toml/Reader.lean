import QuadStore.Toml.Quoted
import QuadStore.Toml.Scalar
/-!
# Reading TOML

A reader takes something off the front of a text and returns what follows it. Arrays and tables in
braces may be nested and keys may be dotted, but only so far.
-/

namespace QuadStore.Toml

/-- More levels than a value may be nested in and more parts than a key may have. -/
def depthLimit : Nat := 80

/-! ## Blanks and comments -/

def skipComment : List Char → List Char
  | '#' :: rest => rest.dropWhile isPlain
  | s => s

/-- The rest after what may stand between a line's contents and its end. -/
def endLine? (s : List Char) : Option (List Char) :=
  match skipComment (skipBlanks s) with
  | [] => some []
  | s => newline? s

/-- The rest after blanks, and after any lines that hold only a comment. -/
def skipLines : Nat → List Char → List Char
  | 0, s => s
  | fuel + 1, s =>
    let s := skipBlanks s
    match newline? (skipComment s) with
    | some rest => skipLines fuel rest
    | none => s

def skipAll (s : List Char) : List Char := skipLines s.length s

/-! ## Keys -/

def isKeyChar (c : Char) : Bool := c.isAlphanum || c == '-' || c == '_'

/-- One part of a key, without the blanks around it. -/
def readKeyPart (s : List Char) : Option (String × List Char) :=
  match s with
  | '"' :: _ => (readLineString s).map fun (text, rest) => (String.ofList text, rest)
  | '\'' :: _ => (readLineString s).map fun (text, rest) => (String.ofList text, rest)
  | _ =>
    match s.span isKeyChar with
    | ([], _) => none
    | (name, rest) => some (String.ofList name, rest)

def readKeyParts : Nat → List Char → Option (List String × List Char)
  | 0, _ => none
  | fuel + 1, s => do
    let (part, rest) ← readKeyPart (skipBlanks s)
    match skipBlanks rest with
    | '.' :: rest =>
      let (parts, rest) ← readKeyParts fuel rest
      return (part :: parts, rest)
    | rest => return ([part], rest)

/-- A dotted key with the blanks around it. -/
def readKey (s : List Char) : Option (List String × List Char) := readKeyParts (depthLimit - 1) s

/-! ## Values -/

mutual

/-- The value at the front of a text. Every step into it takes a character off the text, so that
twice the length is fuel enough; `depth` is how far it may still be nested. -/
def readValue : Nat → Nat → List Char → Option (Toml × List Char)
  | 0, _, _ => none
  | fuel + 1, depth, s =>
    match s with
    | '"' :: _ => (readString s).map fun (text, rest) => (.string (String.ofList text), rest)
    | '\'' :: _ => (readString s).map fun (text, rest) => (.string (String.ofList text), rest)
    | '[' :: rest =>
      match depth with
      | 0 => none
      | depth + 1 => do
        let (items, rest) ← readItems fuel depth (skipAll rest)
        return (.array items, rest)
    | '\x7b' :: rest =>
      match depth, skipBlanks rest with
      | 0, _ => none
      | _ + 1, '\x7d' :: rest => some (.table .braces [], rest)
      | depth + 1, rest => do
        let (entries, rest) ← readEntries fuel depth rest
        return (← ofEntries entries, rest)
    | s => readScalar s

/-- The items up to the closing bracket. A comma may stand after the last one. -/
def readItems : Nat → Nat → List Char → Option (List Toml × List Char)
  | 0, _, _ => none
  | _ + 1, _, ']' :: rest => some ([], rest)
  | fuel + 1, depth, s => do
    let (item, rest) ← readValue fuel depth s
    match skipAll rest with
    | ',' :: rest =>
      let (items, rest) ← readItems fuel depth (skipAll rest)
      return (item :: items, rest)
    | ']' :: rest => return ([item], rest)
    | _ => none

/-- One entry or more, up to the closing brace. -/
def readEntries : Nat → Nat → List Char → Option (List (List String × Toml) × List Char)
  | 0, _, _ => none
  | fuel + 1, depth, s => do
    match ← readKey s with
    | (key, '=' :: rest) =>
      let (value, rest) ← readValue fuel depth (skipBlanks rest)
      match skipBlanks rest with
      | ',' :: rest =>
        let (entries, rest) ← readEntries fuel depth rest
        return ((key, value) :: entries, rest)
      | '\x7d' :: rest => return ([(key, value)], rest)
      | _ => none
    | _ => none

end

/-! ## Lines -/

/-- A line that is neither blank nor only a comment, without its end. -/
def readLine (s : List Char) : Option (Line × List Char) :=
  match s with
  | '[' :: '[' :: rest => do
    match ← readKey rest with
    | (path, ']' :: ']' :: rest) => return (.item path, rest)
    | _ => none
  | '[' :: rest => do
    match ← readKey rest with
    | (path, ']' :: rest) => return (.table path, rest)
    | _ => none
  | s => do
    match ← readKey s with
    | (key, '=' :: rest) =>
      let (value, rest) ← readValue (2 * rest.length + 1) (depthLimit - 1) (skipBlanks rest)
      return (.entry key value, rest)
    | _ => none

def readLines : Nat → List Char → Option (List Line)
  | 0, _ => none
  | fuel + 1, s => do
    match skipAll s with
    | [] => return []
    | '#' :: rest =>
      if (skipComment ('#' :: rest)).isEmpty then return [] else none
    | s =>
      let (line, rest) ← readLine s
      return line :: (← readLines fuel (← endLine? rest))

/-- The document of a text, which may start with a byte order mark. -/
def parse? (text : String) : Option Toml := do
  let s := match text.toList with
    | '\uFEFF' :: s => s
    | s => s
  let lines ← readLines (s.length + 1) s
  let document ← Document.ofLines lines
  return .table .header document.members

end QuadStore.Toml
