import CritterScript.Opcode
import CritterScript.Script.Excerpt

/-!
# Mistakes in scripts

What can be wrong with a script, apart from where. A `SyntaxError` is a
mistake at a place; reading a script reports the first.
-/

namespace CritterScript

/-- What is wrong with a line. -/
inductive Mistake where
  /-- A label shares its line with something else. -/
  | codeAfterLabel
  /-- The line starts with a word that is no opcode. -/
  | badInstruction (word : String)
  /-- An operand is no literal. -/
  | badLiteral (text : String)
  /-- An item of an array is no number. -/
  | badItem (text : String)
  /-- An instruction has `count` operands, not as many as it takes. -/
  | wrongCount (op : Opcode) (count : Nat)
  /-- The operand at a position, counted from one, is not written as its slot
  wants it. -/
  | wrongKind (op : Opcode) (position : Nat) (slot : Slot) (kind : Kind)
deriving DecidableEq, Repr

def Mistake.message : Mistake → String
  | codeAfterLabel => "Unexpected code after @label"
  | badInstruction word => s!"Bad instruction '{word}'"
  | badLiteral text => s!"Unexpected literal '{text}'"
  | badItem text => s!"Unexpected array element '{text}'"
  | wrongCount op count => s!"{op.name} expects {op.arity} arguments, got {count}"
  | wrongKind op position slot kind =>
    s!"{op.name} argument {position} should be a {slot.text}, got {kind.text}"

/-- A mistake at a place. -/
structure SyntaxError where
  mistake : Mistake
  place : Place
deriving DecidableEq, Repr

/-- The mistake pinned to the lines it was found in. -/
def SyntaxError.excerpt (e : SyntaxError) (lines : List String) : Excerpt :=
  ⟨e.mistake.message, e.place, lines⟩

end CritterScript
