import CritterScript.Opcode
import CritterScript.Value

/-!
# Faults

Why an instruction cannot be carried out. A fault ends the run; the
instruction that raised it has changed neither registers nor messages.
-/

namespace CritterScript

/-- What stops an instruction. -/
inductive Cause where
  /-- Arithmetic on anything but two numbers or two arrays of one length. -/
  | typeMismatch (op : Opcode) (left right : Value)
  /-- Something to append that is neither an array nor a number. -/
  | pushOperand (value : Value)
  | expectedArray (op : Opcode) (value : Value)
  | expectedIndex (value : Value)
  | indexOutOfBounds (index : Float)
  /-- A direction is asked of something that is not an array of two. -/
  | expectedPair (value : Value)
  | expectedNumber (op : Opcode) (value : Value)
  | unknownLabel (name : String)
  | badJumpTarget (op : Opcode) (value : Value)
  | notComparable (value : Value)
  | expectedPriority (value : Value)
  /-- An operand is missing, or a result has no register to go to. -/
  | malformed (op : Opcode)
deriving DecidableEq

def Cause.message : Cause → String
  | typeMismatch op left right => s!"Can't {op.name} {left.text} {right.text}"
  | pushOperand value => s!"Can't PUSH {value.text}, expected array or number"
  | expectedArray op value => s!"{op.name} expected array, got {value.text}"
  | expectedIndex value => s!"GET expected index to be a number, got {value.text}"
  | indexOutOfBounds index => s!"Index {(Value.number index).text} out of bounds"
  | expectedPair value => s!"VDIR expected array of length 2, got {value.text}"
  | expectedNumber op value => s!"{op.name} expected number, got {value.text}"
  | unknownLabel name => s!"Unknown label {name}"
  | badJumpTarget op value => s!"Can't {op.name} to {value.text}"
  | notComparable value => s!"Can't compare {value.text} to 0"
  | expectedPriority value => s!"SEND expected priority to be a number, got {value.text}"
  | malformed op => s!"Malformed {op.name} instruction"

/-- A cause, and the line, counted from zero, of the instruction that met
it. -/
structure Fault where
  cause : Cause
  line : Nat
deriving DecidableEq

namespace Fault

def message (f : Fault) : String :=
  f.cause.message

def text (f : Fault) : String :=
  s!"L{f.line + 1} {f.message}"

end Fault

end CritterScript
