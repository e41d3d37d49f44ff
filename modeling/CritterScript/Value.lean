import CritterScript.Number.Text

/-!
# Values

What a register holds and what a literal writes: nothing at all, a number, a
label to jump to, or an array of numbers.

Two equalities matter. `=` is identity. `==` is the equality that scripts
see: numbers compare as numbers do, so the two zeros are equal and a value
with a `NaN` in it differs from itself.
-/

namespace CritterScript

/-- A value of the script language. A label carries its `@`. -/
inductive Value where
  | null
  | number (x : Float)
  | label (name : String)
  | array (items : List Float)
deriving DecidableEq

namespace Value

instance : Inhabited Value := ⟨null⟩

/-- Equality of values as numbers compare. -/
protected def beq : Value → Value → Bool
  | null, null => true
  | number x, number y => x == y
  | label a, label b => a == b
  | array xs, array ys => xs == ys
  | _, _ => false

instance : BEq Value := ⟨Value.beq⟩

def isNull : Value → Bool
  | null => true
  | _ => false

def number? : Value → Option Float
  | number x => some x
  | _ => none

def array? : Value → Option (List Float)
  | array items => some items
  | _ => none

def label? : Value → Option String
  | label name => some name
  | _ => none

/-- Whether a value counts as zero: nothing, the number zero and an array of
zeros do. The question makes no sense for a label. -/
def isZero? : Value → Option Bool
  | null => some true
  | number x => some (x == 0)
  | array items => some (items.all (· == 0))
  | label _ => none

/-- The text of a value. The items of an array are joined by commas, so the
empty array has the empty text. -/
def text : Value → String
  | null => "null"
  | number x => String.ofList (Number.text x)
  | label name => name
  | array items => String.intercalate "," (items.map fun x => String.ofList (Number.text x))

end Value

end CritterScript
