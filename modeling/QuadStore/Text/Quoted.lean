import QuadStore.Text.GraphemeExtend
import QuadStore.Text.Printable
/-!
# Quoted text

The form in which messages show a text: between double quotes, with escapes for the quote, the
backslash and everything that would not show by itself.
-/

namespace QuadStore.Text

/-- Hexadecimal digits in lower case, without leading zeros. -/
def hexDigits (n : Nat) : List Char := Nat.toDigits 16 n

/-- The fillers of Hangul syllables, which are letters but leave nothing to see. -/
def isFiller (c : Char) : Bool := ['\u115F', '\u1160', '\u3164', '\uFFA0'].contains c

/-- The half-width sound marks of Katakana, which extend a grapheme but stand beside it. -/
def isHalfWidthMark (c : Char) : Bool := ['\uFF9E', '\uFF9F'].contains c

/-- Whether a character shows by itself. -/
def showsAlone (c : Char) : Bool :=
  isPrintable c && !isFiller c && (!extendsGrapheme c || isHalfWidthMark c)

def quotedChar (c : Char) : List Char :=
  if c = '"' then ['\\', '"']
  else if c = '\\' then ['\\', '\\']
  else if c = '\n' then ['\\', 'n']
  else if c = '\r' then ['\\', 'r']
  else if c = '\t' then ['\\', 't']
  else if c = '\x00' then ['\\', '0']
  else if showsAlone c then [c]
  else ['\\', 'u', '\x7b'] ++ hexDigits c.toNat ++ ['\x7d']

def quoted (s : String) : String :=
  String.ofList (['"'] ++ s.toList.flatMap quotedChar ++ ['"'])

end QuadStore.Text
