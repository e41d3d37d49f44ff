import CritterScript.Number.Decimal

/-!
# Shortest decimals

The shortest decimal of a positive binary number `mantissa * 2 ^ exponent` is
the one with the fewest digits that still reads as that number and, of those,
the nearest to it.

The number has a finite decimal expansion (`expansion`). Keeping its first
`n` digits gives two candidates, the truncated expansion and its successor in
the last kept digit; `candidate?` picks the one to write, if any reads back.
`shortest` tries one digit, two digits and so on; seventeen always suffice,
and the whole expansion stands behind them.
-/

namespace CritterScript.Number

/-- The expansion of `mantissa * 2 ^ exponent`: a natural number and the
power of ten that scales it. -/
def expansion (mantissa : Nat) : (exponent : Int) → Nat × Int
  | .ofNat e => (mantissa * Nat.pow 2 e, 0)
  | .negSucc e => (mantissa * Nat.pow 5 (e + 1), .negSucc e)

/-- The decimal with the first digits of `digits * 10 ^ exponent`, all but
the last `cut`, that reads as `x`. If rounding down and rounding up both do,
it is the nearer of the two, and the upper one at equal distance. -/
def candidate? (x : Float) (digits : Nat) (exponent : Int) (cut : Nat) : Option Plain :=
  let unit := Nat.pow 10 cut
  let below := Plain.ofScaled (digits / unit) (exponent + cut)
  let above := Plain.ofScaled (digits / unit + 1) (exponent + cut)
  if below.toFloat = x then
    if above.toFloat = x && unit ≤ 2 * (digits % unit) then some above else some below
  else if above.toFloat = x then some above
  else none

/-- The first candidate with at most `cut` digits of `digits * 10 ^ exponent`
cut off, trying `tries` lengths. -/
def search? (x : Float) (digits : Nat) (exponent : Int) : (tries cut : Nat) → Option Plain
  | 0, _ => none
  | tries + 1, cut =>
    match candidate? x digits exponent cut with
    | some d => some d
    | none => if cut = 0 then none else search? x digits exponent tries (cut - 1)

/-- Seventeen significant digits tell all binary numbers apart. -/
def maxDigits : Nat := 17

/-- The whole expansion of `mantissa * 2 ^ exponent` as a plain decimal. -/
def exact (mantissa : Nat) : (exponent : Int) → Plain
  | .ofNat e => ⟨mantissa * Nat.pow 2 e, 0⟩
  | .negSucc e => ⟨mantissa * Nat.pow 5 (e + 1), e + 1⟩

/-- The shortest decimal that reads as `x`, the positive number
`mantissa * 2 ^ exponent`. -/
def shortest (x : Float) (mantissa : Nat) (exponent : Int) : Plain :=
  let (digits, scale) := expansion mantissa exponent
  let length := (toDigits digits).length
  (search? x digits scale maxDigits (length - 1)).getD (exact mantissa exponent)

end CritterScript.Number
