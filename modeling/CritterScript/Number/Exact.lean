/-!
# Exact operations on binary numbers

Two operations that round nothing. `remainder` is what is left of one number
after as many whole multiples of another as fit, with the sign of the first;
it is computed on the integers that both numbers are at their smaller power
of two. `natural?` is the natural number that a binary number is, if it is
one; both zeros are the natural number zero.
-/

namespace CritterScript.Number

open Float.Model (UnpackedFloat)

/-- The value that is no number. -/
def notANumber : Float :=
  .ofModel (.pack .notANumber)

/-- The number `±mantissa * 2 ^ exponent`, for a mantissa that fits. A zero
keeps its sign. -/
def ofMantissa (sign : UnpackedFloat.Sign) (mantissa : Nat) (exponent : Int) : Float :=
  if mantissa = 0 then .ofModel (.pack (.zero sign))
  else .ofModel (.pack (UnpackedFloat.round .binary64 sign mantissa exponent))

/-- The remainder of `x` by `y`, exact and with the sign of `x`. A remainder
of an infinity or by a zero is no number; by an infinity it is `x`. -/
def remainder (x y : Float) : Float :=
  match x.toModel.unpack, y.toModel.unpack with
  | .notANumber, _ | _, .notANumber | .infinity _, _ | _, .zero _ => notANumber
  | .zero _, _ | _, .infinity _ => x
  | .finite sign m e _, .finite _ n f _ =>
    let low := min e f
    ofMantissa sign ((m * Nat.pow 2 (e - low).toNat) % (n * Nat.pow 2 (f - low).toNat)) low

/-- The natural number that `x` is. -/
def natural? (x : Float) : Option Nat :=
  match x.toModel.unpack with
  | .zero _ => some 0
  | .finite .positive mantissa (.ofNat e) _ => some (mantissa * Nat.pow 2 e)
  | .finite .positive mantissa (.negSucc e) _ =>
    if mantissa % Nat.pow 2 (e + 1) = 0 then some (mantissa / Nat.pow 2 (e + 1)) else none
  | _ => none

end CritterScript.Number
