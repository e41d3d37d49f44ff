import CritterScript.Names
import CritterScript.Opcode
import CritterScript.Value

/-!
# Programs

A program is a sequence of instructions and a table of labels, each the
position of the instruction to go on with. The type admits instructions with
too few operands and labels beyond the end: a host may build programs by
hand. `Instruction.Conforms` says that an instruction has the operands its
opcode takes.
-/

namespace CritterScript

/-- An operand of an instruction. A register name carries its `$`. -/
inductive Operand where
  | register (name : String)
  | literal (value : Value)
deriving DecidableEq

namespace Operand

def kind : Operand → Kind
  | register _ => .register
  | literal _ => .literal

def text : Operand → String
  | register name => name
  | literal value => value.text

end Operand

/-- An instruction and the line, counted from zero, that it stands on. -/
structure Instruction where
  opcode : Opcode
  operands : List Operand
  line : Nat
deriving DecidableEq

namespace Instruction

/-- The instruction as a line of a script. -/
def text (i : Instruction) : String :=
  i.operands.foldl (fun s a => s ++ " " ++ a.text) i.opcode.name

/-- The instruction has one operand for each slot of its opcode, written as
the slot wants it. -/
def Conforms (i : Instruction) : Prop :=
  i.operands.length = i.opcode.arity ∧
    ∀ pair ∈ i.opcode.slots.zip i.operands, pair.1.accepts pair.2.kind = true

instance (i : Instruction) : Decidable i.Conforms :=
  inferInstanceAs (Decidable (_ ∧ _))

end Instruction

/-- A sequence of instructions with a table of labels. -/
structure Program where
  code : Array Instruction
  labels : NameTable Nat

namespace Program

/-- The program that does nothing. -/
def empty : Program := ⟨#[], ∅⟩

instance : Inhabited Program := ⟨empty⟩

/-- The number of instructions. -/
def size (p : Program) : Nat :=
  p.code.size

def isEmpty (p : Program) : Bool :=
  p.code.isEmpty

/-- The position that a label stands for. -/
def label? (p : Program) (name : String) : Option Nat :=
  p.labels[name]?

/-- The position at which a run with a given entry label starts: the label's,
or the first if there is no entry or no such label. -/
def start (p : Program) (entry : Option String) : Nat :=
  (entry.bind p.label?).getD 0

/-- Every instruction has the operands its opcode takes. -/
def Conforms (p : Program) : Prop :=
  ∀ i ∈ p.code, i.Conforms

end Program

end CritterScript
