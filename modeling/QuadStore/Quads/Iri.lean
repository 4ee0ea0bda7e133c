import QuadStore.Text.CodePoints
import QuadStore.Text.Hexadecimal
/-!
# IRIs

The standard's grammar of an absolute IRI: a scheme, an authority if two slashes follow, a path, a
query and a fragment. In each part a character stands for itself or is written as a percent sign and
two hexadecimal digits.
-/

namespace QuadStore.Quads

/-- ASCII characters without a meaning of their own, and those that only separate. -/
def isPlainOrSeparator (c : Char) : Bool :=
  c.isAlphanum ||
    ['-', '.', '_', '~', '!', '$', '&', '\'', '(', ')', '*', '+', ',', ';', '='].contains c

/-- Code points outside ASCII that are for public use. -/
def publicBoundaries : List Nat :=
  [0xA0, 0xD800, 0xF900, 0xFDD0, 0xFDF0, 0xFFF0, 0x10000, 0x1FFFE, 0x20000, 0x2FFFE, 0x30000,
    0x3FFFE, 0x40000, 0x4FFFE, 0x50000, 0x5FFFE, 0x60000, 0x6FFFE, 0x70000, 0x7FFFE, 0x80000,
    0x8FFFE, 0x90000, 0x9FFFE, 0xA0000, 0xAFFFE, 0xB0000, 0xBFFFE, 0xC0000, 0xCFFFE, 0xD0000,
    0xDFFFE, 0xE1000, 0xEFFFE]

/-- Code points for private use. -/
def privateBoundaries : List Nat := [0xE000, 0xF900, 0xF0000, 0xFFFFE, 0x100000, 0x10FFFE]

def isHostChar (c : Char) : Bool :=
  isPlainOrSeparator c || Text.inBoundaries publicBoundaries c.toNat

def isUserChar (c : Char) : Bool := isHostChar c || c == ':'

def isPathChar (c : Char) : Bool := isUserChar c || c == '@' || c == '/'

def isFragmentChar (c : Char) : Bool := isPathChar c || c == '?'

def isQueryChar (c : Char) : Bool :=
  isFragmentChar c || Text.inBoundaries privateBoundaries c.toNat

/-- Characters of one class, and any character written with a percent sign. -/
def isPart (accepts : Char → Bool) : List Char → Bool
  | [] => true
  | '%' :: a :: b :: rest => Text.isHexDigit a && Text.isHexDigit b && isPart accepts rest
  | c :: rest => c != '%' && accepts c && isPart accepts rest

/-! ## Addresses -/

/-- A number up to 255 without leading zeros. -/
def isOctet (s : List Char) : Bool :=
  !s.isEmpty && s.length ≤ 3 && s.all Char.isDigit && (s.length == 1 || s.head? != some '0') &&
    ((String.ofList s).toNat?.any (· ≤ 255))

def isVersion4 (s : List Char) : Bool :=
  (s.splitOn '.').length == 4 && (s.splitOn '.').all isOctet

def isGroup (s : List Char) : Bool := !s.isEmpty && s.length ≤ 4 && s.all Text.isHexDigit

/-- How many groups of 16 bits these fields stand for. An address of the old form, which counts
twice, may come last. -/
def groupCount? (old : Bool) : List (List Char) → Option Nat
  | [] => some 0
  | [field] => if isGroup field then some 1 else if old && isVersion4 field then some 2 else none
  | field :: rest => if isGroup field then (groupCount? old rest).map (· + 1) else none

def fields (s : List Char) : List (List Char) := if s.isEmpty then [] else s.splitOn ':'

/-- The text before the first pair of colons and the text after it. -/
def splitDoubleColon : List Char → Option (List Char × List Char)
  | ':' :: ':' :: rest => some ([], rest)
  | c :: rest => (splitDoubleColon rest).map fun (before, after) => (c :: before, after)
  | [] => none

/-- Eight groups, or fewer with a pair of colons for a run of zeros. -/
def isVersion6 (s : List Char) : Bool :=
  match splitDoubleColon s with
  | none => groupCount? true (fields s) == some 8
  | some (before, after) =>
    match groupCount? false (fields before), groupCount? true (fields after) with
    | some m, some n => m + n ≤ 7
    | _, _ => false

/-- An address of a version to come: its number, a point, and what belongs to it. -/
def isFutureAddress (s : List Char) : Bool :=
  match s.span Text.isHexDigit with
  | (version, '.' :: address) =>
    !version.isEmpty && !address.isEmpty && address.all fun c => isPlainOrSeparator c || c == ':'
  | _ => false

def isAddress : List Char → Bool
  | 'v' :: rest => isFutureAddress rest
  | 'V' :: rest => isFutureAddress rest
  | s => isVersion6 s

/-! ## The parts of an IRI -/

def isPortNumber : List Char → Bool
  | [] => true
  | ':' :: digits => digits.all Char.isDigit
  | _ => false

def isHost : List Char → Bool
  | '[' :: rest =>
    match rest.span (· != ']') with
    | (address, ']' :: suffix) => isAddress address && isPortNumber suffix
    | _ => false
  | s =>
    let (host, suffix) := s.span (· != ':')
    isPart isHostChar host && isPortNumber suffix

def isAuthority (s : List Char) : Bool :=
  match s.span (· != '@') with
  | (user, '@' :: host) => isPart isUserChar user && isHost host
  | _ => isHost s

/-- What follows the path. -/
def isTail : List Char → Bool
  | '?' :: rest =>
    match rest.span (· != '#') with
    | (query, '#' :: fragment) => isPart isQueryChar query && isPart isFragmentChar fragment
    | (query, _) => isPart isQueryChar query
  | '#' :: fragment => isPart isFragmentChar fragment
  | _ => true

def isPathAndTail (s : List Char) : Bool :=
  let (path, tail) := s.span fun c => c != '?' && c != '#'
  isPart isPathChar path && isTail tail

def isAfterScheme : List Char → Bool
  | '/' :: '/' :: rest =>
    let (authority, path) := rest.span fun c => c != '/' && c != '?' && c != '#'
    isAuthority authority && isPathAndTail path
  | s => isPathAndTail s

/-- Whether a text is an absolute IRI. -/
def isIri (s : List Char) : Bool :=
  match s.span (· != ':') with
  | (scheme, ':' :: rest) =>
    scheme.head?.any Char.isAlpha &&
      scheme.all (fun c => c.isAlphanum || c == '+' || c == '-' || c == '.') && isAfterScheme rest
  | _ => false

end QuadStore.Quads
