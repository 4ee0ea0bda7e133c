/-!
# Sets of code points

A set of code points is written as the ascending list of its boundaries: it holds the code points
from the first boundary up to, but not including, the second, from the third up to the fourth, and
so on.
-/

namespace QuadStore.Text

def inBoundaries : List Nat → Nat → Bool
  | start :: stop :: rest, n => start ≤ n && (n < stop || inBoundaries rest n)
  | [start], n => start ≤ n
  | [], _ => false

end QuadStore.Text
