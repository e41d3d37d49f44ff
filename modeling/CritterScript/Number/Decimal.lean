/-!
# Plain decimals

A plain decimal is a natural number of `digits` with `places` of them behind
the point: the number `digits / 10 ^ places`. It has no exponent, so its text
is an ordinary numeral, and it reads as the nearest binary number
(`Plain.toFloat`).

`Plain.ofScaled` writes `digits * 10 ^ exponent` as a plain decimal without
a zero at the end of its fraction.
-/

namespace CritterScript.Number

/-- The number `digits / 10 ^ places`. -/
structure Plain where
  digits : Nat
  places : Nat
deriving DecidableEq, Repr

/-- The binary number nearest to `digits * 10 ^ exponent`, ties to even;
infinite beyond the largest. -/
def nearest (digits : Nat) (exponent : Int) : Float :=
  .ofModel (.ofScientific digits exponent)

/-- The value of a decimal digit. -/
def digitValue (c : Char) : Nat :=
  c.toNat - '0'.toNat

/-- The number that a list of decimal digits writes. -/
def ofDigits (cs : List Char) : Nat :=
  cs.foldl (fun n c => 10 * n + digitValue c) 0

/-- The decimal digits of a number. -/
def toDigits (n : Nat) : List Char :=
  Nat.toDigits 10 n

namespace Plain

/-- The binary number nearest to a plain decimal. -/
def toFloat (d : Plain) : Float :=
  nearest d.digits (-d.places)

/-- The same number with at most `places` places and no zero at the end of
its fraction. -/
def reduce (digits : Nat) : (places : Nat) → Plain
  | 0 => ⟨digits, 0⟩
  | places + 1 => if digits % 10 = 0 then reduce (digits / 10) places else ⟨digits, places + 1⟩

/-- The number `digits * 10 ^ exponent`. -/
def ofScaled (digits : Nat) : (exponent : Int) → Plain
  | .ofNat e => ⟨digits * Nat.pow 10 e, 0⟩
  | .negSucc e => reduce digits (e + 1)

/-- The numeral: the whole part, then the point and `places` digits if there
are any. -/
def text (d : Plain) : List Char :=
  if d.places = 0 then toDigits d.digits
  else
    let fraction := toDigits (d.digits % Nat.pow 10 d.places)
    toDigits (d.digits / Nat.pow 10 d.places) ++
      '.' :: (List.replicate (d.places - fraction.length) '0' ++ fraction)

end Plain

end CritterScript.Number
