import CritterScript.Number.Shortest

/-!
# Numbers as text

Reading: a number text is an optional sign, then digits with an optional
point and further digits, or a point and digits, then optionally `e` or `E`,
an optional sign and digits. Nothing else is a number, so there is no text
for infinity or for `NaN` (`read?`); a numeral beyond the largest number
reads as infinity.

Writing: the shortest decimal that reads back, never with an exponent
(`text`). Both zeros are written `0`, so the sign of a zero is lost; the
numbers that no text reads as have names of their own.
-/

namespace CritterScript.Number

/-- A sign at the start of a text, and the rest. Without a sign the number
is positive. -/
def splitSign : List Char → Bool × List Char
  | '+' :: cs => (false, cs)
  | '-' :: cs => (true, cs)
  | cs => (false, cs)

/-- The digits at the start of a text, and the rest. -/
def splitDigits (cs : List Char) : List Char × List Char :=
  (cs.takeWhile Char.isDigit, cs.dropWhile Char.isDigit)

/-- The digits before and after the point at the start of a text, and the
rest. At least one digit is needed. -/
def splitSignificand? (cs : List Char) : Option (List Char × List Char × List Char) :=
  match splitDigits cs with
  | ([], '.' :: rest) =>
    match splitDigits rest with
    | ([], _) => none
    | (fraction, rest) => some ([], fraction, rest)
  | ([], _) => none
  | (whole, '.' :: rest) =>
    let (fraction, rest) := splitDigits rest
    some (whole, fraction, rest)
  | (whole, rest) => some (whole, [], rest)

/-- The exponent that a whole text writes; the empty text stands for zero. -/
def readExponent? : List Char → Option Int
  | [] => some 0
  | c :: cs =>
    if c = 'e' || c = 'E' then
      let (negative, cs) := splitSign cs
      match splitDigits cs with
      | ([], _) => none
      | (digits, []) => some (if negative then -(ofDigits digits : Int) else ofDigits digits)
      | (_, _ :: _) => none
    else none

/-- The number that a whole text writes. -/
def read? (cs : List Char) : Option Float := do
  let (negative, cs) := splitSign cs
  let (whole, fraction, rest) ← splitSignificand? cs
  let exponent ← readExponent? rest
  let size := nearest (ofDigits (whole ++ fraction)) (exponent - fraction.length)
  return if negative then -size else size

/-- The text of a number. -/
def text (x : Float) : List Char :=
  match x.toModel.unpack with
  | .notANumber => "NaN".toList
  | .infinity .positive => "Infinity".toList
  | .infinity .negative => "-Infinity".toList
  | .zero _ => "0".toList
  | .finite .positive mantissa exponent _ => (shortest x mantissa exponent).text
  | .finite .negative mantissa exponent _ => '-' :: (shortest (-x) mantissa exponent).text

end CritterScript.Number
