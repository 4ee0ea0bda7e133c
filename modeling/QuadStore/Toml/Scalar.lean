import QuadStore.Text.Hexadecimal
import QuadStore.Toml.Basic
/-!
# Numbers and moments

A scalar without quotes is one run of letters, digits and a few signs, which is classified as a
whole: an integer of 64 bits, a float, a date, a time or both, or one of the two truth values.
-/

namespace QuadStore.Toml

def isRunChar (c : Char) : Bool :=
  c.isAlphanum || c == '+' || c == '-' || c == '_' || c == '.' || c == ':'

/-! ## Integers -/

/-- Digits with underscores only between two of them. -/
def isGrouped (isDigit : Char → Bool) : List Char → Bool
  | [] => false
  | c :: rest => isDigit c && follows rest
where
  follows : List Char → Bool
    | [] => true
    | '_' :: d :: rest => isDigit d && follows rest
    | d :: rest => isDigit d && follows rest

def withoutSign : List Char → List Char
  | '+' :: s => s
  | '-' :: s => s
  | s => s

def isNegative : List Char → Bool
  | '-' :: _ => true
  | _ => false

/-- The number that grouped digits stand for. -/
def numeral (base : Nat) (s : List Char) : Nat :=
  (s.filterMap Text.hexValue?).foldl (fun n d => n * base + d) 0

/-- A first digit of zero stands alone. -/
def isDecimal (s : List Char) : Bool :=
  isGrouped Char.isDigit s && (s.head? != some '0' || s.length == 1)

def isInteger : List Char → Bool
  | '0' :: 'x' :: s => isGrouped Text.isHexDigit s && numeral 16 s < Nat.pow 2 63
  | '0' :: 'o' :: s => isGrouped (fun c => '0' ≤ c && c ≤ '7') s && numeral 8 s < Nat.pow 2 63
  | '0' :: 'b' :: s => isGrouped (fun c => c == '0' || c == '1') s && numeral 2 s < Nat.pow 2 63
  | s =>
    let digits := withoutSign s
    isDecimal digits &&
      if isNegative s then numeral 10 digits ≤ Nat.pow 2 63 else numeral 10 digits < Nat.pow 2 63

/-! ## Floats -/

/-- The halfway point between the largest finite number of double precision and the next power of
two: from here on a number is rounded to infinity. -/
def floatBound : Nat := Nat.pow 2 1024 - Nat.pow 2 970

/-- Whether `digits * 10 ^ (exponent - places)` is rounded to infinity. -/
def isTooLarge (digits : Nat) (places : Nat) (negative : Bool) (exponent : Nat) : Bool :=
  let length := (Nat.toDigits 10 digits).length
  if digits == 0 then false
  else if negative then
    length > 308 + places + exponent && floatBound * Nat.pow 10 (places + exponent) ≤ digits
  else if length + exponent > places + 309 then true
  else if length + exponent < places + 309 then false
  else floatBound * Nat.pow 10 places ≤ digits * Nat.pow 10 exponent

/-- A float has a fraction or an exponent, and only a negative one may be too large to be finite. -/
def isFloat (s : List Char) : Bool :=
  let body := withoutSign s
  let isMark (c : Char) := c == 'e' || c == 'E'
  let (mantissa, mark) := body.span (!isMark ·)
  let (integer, point) := mantissa.span (· != '.')
  let fraction := point.drop 1
  let exponent := mark.drop 1
  body == ['i', 'n', 'f'] || body == ['n', 'a', 'n'] ||
    isDecimal integer && !(point.isEmpty && mark.isEmpty) &&
      (point.isEmpty || isGrouped Char.isDigit fraction) &&
      (mark.isEmpty || isGrouped Char.isDigit (withoutSign exponent)) &&
      (isNegative s ||
        !isTooLarge (numeral 10 (integer ++ fraction))
          (fraction.filter Char.isDigit).length (isNegative exponent)
          (numeral 10 (withoutSign exponent)))

/-! ## Moments -/

/-- The number that exactly two digits stand for. -/
def twoDigits? (a b : Char) : Option Nat :=
  if a.isDigit && b.isDigit then some (numeral 10 [a, b]) else none

def isLeapYear (year : Nat) : Bool := year % 4 == 0 && (year % 100 != 0 || year % 400 == 0)

def daysOf (year month : Nat) : Nat :=
  if month == 2 then if isLeapYear year then 29 else 28
  else if [4, 6, 9, 11].contains month then 30
  else 31

def isDate : List Char → Bool
  | [y₁, y₂, y₃, y₄, '-', m₁, m₂, '-', d₁, d₂] =>
    match twoDigits? y₁ y₂, twoDigits? y₃ y₄, twoDigits? m₁ m₂, twoDigits? d₁ d₂ with
    | some century, some year, some month, some day =>
      1 ≤ month && month ≤ 12 && 1 ≤ day && day ≤ daysOf (century * 100 + year) month
    | _, _, _, _ => false
  | _ => false

def isHourMinute (h₁ h₂ m₁ m₂ : Char) : Bool :=
  (twoDigits? h₁ h₂).any (· < 24) && (twoDigits? m₁ m₂).any (· < 60)

def isOffset : List Char → Bool
  | ['Z'] => true
  | ['z'] => true
  | [sign, h₁, h₂, ':', m₁, m₂] => (sign == '+' || sign == '-') && isHourMinute h₁ h₂ m₁ m₂
  | _ => false

/-- A time, which may have a fraction of a second and, if allowed, an offset. A minute may have a
leap second. -/
def isTime (offset : Bool) : List Char → Bool
  | h₁ :: h₂ :: ':' :: m₁ :: m₂ :: ':' :: s₁ :: s₂ :: rest =>
    isHourMinute h₁ h₂ m₁ m₂ && (twoDigits? s₁ s₂).any (· ≤ 60) &&
      match rest with
      | '.' :: rest =>
        let (digits, rest) := rest.span Char.isDigit
        !digits.isEmpty && (rest.isEmpty || offset && isOffset rest)
      | rest => rest.isEmpty || offset && isOffset rest
  | _ => false

def isMoment (s : List Char) : Bool :=
  let (date, rest) := s.splitAt 10
  isTime false s || isDate date &&
    match rest with
    | [] => true
    | 'T' :: time => isTime true time
    | 't' :: time => isTime true time
    | _ => false

/-! ## Scalars -/

def ofRun? (run : List Char) : Option Toml :=
  let text := String.ofList run
  if text == "true" then some (.bool true)
  else if text == "false" then some (.bool false)
  else if isMoment run then some (.moment text)
  else if isFloat run || isInteger run then some (.number text)
  else none

/-- The scalar at the front of a text. A blank may stand between a date and a time. -/
def readScalar (s : List Char) : Option (Toml × List Char) :=
  let (run, rest) := s.span isRunChar
  match isDate run, rest with
  | true, ' ' :: next =>
    let (time, after) := next.span isRunChar
    if isTime true time then some (.moment (String.ofList (run ++ ' ' :: time)), after)
    else some (.moment (String.ofList run), rest)
  | _, _ => (ofRun? run).map (·, rest)

end QuadStore.Toml
