import QuadStore.Text.CodePoints
/-!
# Blank characters

The characters with the Unicode property `White_Space`.
-/

namespace QuadStore.Text

def blankBoundaries : List Nat :=
  [9, 14, 32, 33, 133, 134, 160, 161, 5760, 5761, 8192, 8203, 8232, 8234, 8239, 8240, 8287, 8288,
    12288, 12289]

def isBlank (c : Char) : Bool := inBoundaries blankBoundaries c.toNat

end QuadStore.Text
