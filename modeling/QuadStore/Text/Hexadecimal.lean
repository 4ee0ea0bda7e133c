/-!
# Hexadecimal digits

Reading takes digits of either case; writing takes the case that a format asks for.
-/

namespace QuadStore.Text

def hexValue? (c : Char) : Option Nat :=
  if c.isDigit then some (c.toNat - '0'.toNat)
  else if 'a' ≤ c ∧ c ≤ 'f' then some (c.toNat - 'a'.toNat + 10)
  else if 'A' ≤ c ∧ c ≤ 'F' then some (c.toNat - 'A'.toNat + 10)
  else none

def isHexDigit (c : Char) : Bool := (hexValue? c).isSome

/-- The number that some digits stand for. -/
def hexNumber? (digits : List Char) : Option Nat :=
  digits.foldlM (fun n c => (hexValue? c).map (n * 16 + ·)) 0

/-- The last digit of a number, in lower case. -/
def hexDigit (n : Nat) : Char := Nat.digitChar (n % 16)

/-- The last digit of a number, in upper case. -/
def upperHexDigit (n : Nat) : Char := (hexDigit n).toUpper

/-- The last four digits of a number, in upper case. -/
def upperHexDigits (n : Nat) : List Char := [n / 4096, n / 256, n / 16, n].map upperHexDigit

/-- The character with a code point, if there is one. -/
def scalar? (n : Nat) : Option Char :=
  if n.isValidChar then some (Char.ofNat n) else none

end QuadStore.Text
