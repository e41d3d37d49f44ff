import CritterScript.Machine.Fault
import CritterScript.Number.Exact

/-!
# Operations on values

What the instructions compute, apart from registers and control flow.
Arithmetic works on two numbers or on two arrays item by item, and never
stretches a number over an array. Directions are bearings: zero points along
the second axis and a quarter turn along the first.
-/

namespace CritterScript

namespace Value

/-- Applies an operation to two numbers, or to two arrays item by item. -/
def combine (op : Opcode) (f : Float → Float → Float) : Value → Value → Except Cause Value
  | number x, number y => .ok (number (f x y))
  | left@(array xs), right@(array ys) =>
    if xs.length = ys.length then .ok (array (xs.zipWith f ys))
    else .error (.typeMismatch op left right)
  | left, right => .error (.typeMismatch op left right)

/-- The items that a value contributes when it is appended: those of an
array, or one number. -/
def items : Value → Except Cause (List Float)
  | array xs => .ok xs
  | number x => .ok [x]
  | v => .error (.pushOperand v)

/-- The item of an array at an index, which must be a whole number. -/
def item : Value → Value → Except Cause Value
  | array xs, number x =>
    match (Number.natural? x).bind (xs[·]?) with
    | some y => .ok (number y)
    | none => .error (.indexOutOfBounds x)
  | array _, v => .error (.expectedIndex v)
  | v, _ => .error (.expectedArray .get v)

/-- The Euclidean length of an array. The sum starts at negative zero, which
is what an empty array gives. -/
def norm : Value → Except Cause Value
  | array xs => .ok (number (xs.foldl (fun sum x => sum + x * x) (-0.0)).sqrt)
  | v => .error (.expectedArray .vlen v)

/-- The bearing of an array of two. -/
def direction : Value → Except Cause Value
  | array [x, y] => .ok (number (Float.atan2 x y))
  | v => .error (.expectedPair v)

/-- The array of two that has length one and a given bearing. -/
def unitVector : Value → Except Cause Value
  | number angle => .ok (array [angle.sin, angle.cos])
  | v => .error (.expectedNumber .unitv v)

/-- Whether a conditional jump on a value is taken. A jump on zero also
accepts arrays and nothing at all; the others only numbers. -/
def takesJump (op : Opcode) (v : Value) : Except Cause Bool :=
  let answer := match op, v with
    | .jez, _ => v.isZero?
    | .jlz, number x => some (decide (x < 0))
    | .jgz, number x => some (decide (0 < x))
    | _, _ => none
  match answer with
  | some taken => .ok taken
  | none => .error (.notComparable v)

end Value

end CritterScript
