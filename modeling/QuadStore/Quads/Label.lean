import QuadStore.Text.CodePoints
/-!
# Labels of blank nodes

The grammar of a blank node label in N-Quads. A label starts with a letter, a digit, an underscore
or a colon. Points, hyphens and combining characters may follow, but a point is never the last
character.
-/

namespace QuadStore.Quads

def letterBoundaries : List Nat :=
  [0x41, 0x5B, 0x61, 0x7B, 0xC0, 0xD7, 0xD8, 0xF7, 0xF8, 0x300, 0x370, 0x37E, 0x37F, 0x2000,
    0x200C, 0x200E, 0x2070, 0x2190, 0x2C00, 0x2FF0, 0x3001, 0xD800, 0xF900, 0xFDD0, 0xFDF0, 0xFFFE,
    0x10000, 0xF0000]

def isLabelStart (c : Char) : Bool :=
  c.isDigit || c == '_' || c == ':' || Text.inBoundaries letterBoundaries c.toNat

def combiningBoundaries : List Nat := [0xB7, 0xB8, 0x300, 0x370, 0x203F, 0x2041]

def isLabelChar (c : Char) : Bool :=
  isLabelStart c || c == '.' || c == '-' || Text.inBoundaries combiningBoundaries c.toNat

def isLabel : List Char → Bool
  | [] => false
  | c :: rest => isLabelStart c && rest.all isLabelChar && rest.getLast? != some '.'

end QuadStore.Quads
