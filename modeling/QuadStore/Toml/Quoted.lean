import QuadStore.Text.Hexadecimal
/-!
# Quoted strings

A string stands between single or double quotes, on one line, or between three of them, where it
may run over many lines. Only double quotes know escapes.

A string is written in the plainest of these forms that needs no escape; if all do, it is written
between double quotes.
-/

namespace QuadStore.Toml

/-! ## Characters -/

def isBlank (c : Char) : Bool := c == ' ' || c == '\t'

def skipBlanks (s : List Char) : List Char := s.dropWhile isBlank

/-- The rest after a line break. -/
def newline? : List Char → Option (List Char)
  | '\n' :: rest => some rest
  | '\r' :: '\n' :: rest => some rest
  | _ => none

/-- Control characters other than the tab need an escape. -/
def isPlain (c : Char) : Bool := c == '\t' || 32 ≤ c.toNat && c.toNat != 127

/-! ## Reading -/

/-- What a character stands for after a backslash. -/
def escape? : Char → Option Char
  | 'b' => some '\x08'
  | 't' => some '\t'
  | 'n' => some '\n'
  | 'f' => some '\x0c'
  | 'r' => some '\r'
  | '"' => some '"'
  | '\\' => some '\\'
  | _ => none

def codePoint? (digits : List Char) : Option Char := (Text.hexNumber? digits).bind Text.scalar?

abbrev Piece := Option (List Char × List Char)

def cons (c : Char) : Piece → Piece := Option.map fun (s, rest) => (c :: s, rest)

/-- The text up to a closing double quote. -/
def readBasic : List Char → Piece
  | [] => none
  | '"' :: rest => some ([], rest)
  | '\\' :: 'u' :: a :: b :: c :: d :: rest => do
    cons (← codePoint? [a, b, c, d]) (readBasic rest)
  | '\\' :: 'U' :: a :: b :: c :: d :: e :: f :: g :: h :: rest => do
    cons (← codePoint? [a, b, c, d, e, f, g, h]) (readBasic rest)
  | '\\' :: e :: rest => do cons (← escape? e) (readBasic rest)
  | c :: rest => if isPlain c then cons c (readBasic rest) else none

/-- The text up to a closing single quote. -/
def readLiteral : List Char → Piece
  | [] => none
  | '\'' :: rest => some ([], rest)
  | c :: rest => if isPlain c then cons c (readLiteral rest) else none

/-- The text up to three closing double quotes, up to two more of which belong to the text. A
backslash at the end of a line drops the blanks and line breaks after it. -/
def readBasicLines (dropping : Bool) : List Char → Piece
  | [] => none
  | '"' :: '"' :: '"' :: rest =>
    match rest with
    | '"' :: '"' :: rest => some (['"', '"'], rest)
    | '"' :: rest => some (['"'], rest)
    | rest => some ([], rest)
  | '\\' :: 'u' :: a :: b :: c :: d :: rest => do
    cons (← codePoint? [a, b, c, d]) (readBasicLines false rest)
  | '\\' :: 'U' :: a :: b :: c :: d :: e :: f :: g :: h :: rest => do
    cons (← codePoint? [a, b, c, d, e, f, g, h]) (readBasicLines false rest)
  | '\\' :: e :: rest =>
    match escape? e with
    | some c => cons c (readBasicLines false rest)
    | none =>
      if (newline? (skipBlanks (e :: rest))).isSome then readBasicLines true (e :: rest) else none
  | '\n' :: rest =>
    if dropping then readBasicLines true rest else cons '\n' (readBasicLines false rest)
  | '\r' :: '\n' :: rest =>
    if dropping then readBasicLines true rest else cons '\n' (readBasicLines false rest)
  | c :: rest =>
    if dropping && isBlank c then readBasicLines true rest
    else if isPlain c then cons c (readBasicLines false rest)
    else none

/-- The text up to three closing single quotes, up to two more of which belong to the text. -/
def readLiteralLines : List Char → Piece
  | [] => none
  | '\'' :: '\'' :: '\'' :: rest =>
    match rest with
    | '\'' :: '\'' :: rest => some (['\'', '\''], rest)
    | '\'' :: rest => some (['\''], rest)
    | rest => some ([], rest)
  | '\n' :: rest => cons '\n' (readLiteralLines rest)
  | '\r' :: '\n' :: rest => cons '\n' (readLiteralLines rest)
  | c :: rest => if isPlain c then cons c (readLiteralLines rest) else none

/-- A line break just after three opening quotes does not count. -/
def afterOpening (s : List Char) : List Char := (newline? s).getD s

/-- The string at the front of a text, on one line. -/
def readLineString : List Char → Piece
  | '"' :: rest => readBasic rest
  | '\'' :: rest => readLiteral rest
  | _ => none

/-- The string at the front of a text. -/
def readString : List Char → Piece
  | '"' :: '"' :: '"' :: rest => readBasicLines false (afterOpening rest)
  | '\'' :: '\'' :: '\'' :: rest => readLiteralLines (afterOpening rest)
  | s => readLineString s

/-! ## Writing -/

/-- The length of the longest run of a character. -/
def longestRun (c : Char) (s : List Char) : Nat := go 0 0 s
where
  go (longest current : Nat) : List Char → Nat
    | [] => longest
    | d :: rest =>
      if d == c then go (max longest (current + 1)) (current + 1) rest else go longest 0 rest

/-- A character between double quotes, other than a double quote. -/
def escaped (lines : Bool) (c : Char) : List Char :=
  if c = '\x08' then ['\\', 'b']
  else if c = '\t' then ['\\', 't']
  else if c = '\n' then if lines then [c] else ['\\', 'n']
  else if c = '\x0c' then ['\\', 'f']
  else if c = '\r' then ['\\', 'r']
  else if c = '\\' then ['\\', '\\']
  else if c.toNat < 32 || c.toNat = 127 then ['\\', 'u'] ++ Text.upperHexDigits c.toNat
  else [c]

/-- A text between double quotes. Over many lines two quotes in a row may stand as they are. -/
def escapedText (lines : Bool) (quotes : Nat) : List Char → List Char
  | [] => []
  | '"' :: rest =>
    if lines && quotes < 2 then '"' :: escapedText lines (quotes + 1) rest
    else '\\' :: '"' :: escapedText lines 0 rest
  | c :: rest => escaped lines c ++ escapedText lines 0 rest

def writeString (s : String) : String :=
  let s := s.toList
  let breaks := s.contains '\n'
  let controls := s.any fun c => !isPlain c && c != '\n'
  let backslash := s.contains '\\'
  let double := longestRun '"' s
  let single := longestRun '\'' s
  let opening : List Char := if breaks then ['\n'] else []
  let basicLines := ['"', '"', '"'] ++ opening ++ escapedText true 0 s ++ ['"', '"', '"']
  let basic := ['"'] ++ escapedText false 0 s ++ ['"']
  String.ofList <|
    if !controls && !backslash && double = 0 && !breaks then basic
    else if !controls && single = 0 && !breaks then ['\''] ++ s ++ ['\'']
    else if !controls && !backslash && double ≤ 2 then basicLines
    else if !controls && single ≤ 2 then ['\'', '\'', '\''] ++ opening ++ s ++ ['\'', '\'', '\'']
    else if breaks then basicLines
    else basic

end QuadStore.Toml
