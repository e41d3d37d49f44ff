import CritterScript.Program
import CritterScript.Script.Literal

/-!
# Reading scripts

A script is read line by line. A line is blank, defines a label, or holds an
instruction (`Line`), and `readLine` tells which, or what is wrong with it.
The checks on an instruction come in a fixed order: its opcode, its operands
from left to right, their number, the way each is written.

`Program.read` reads all lines, in order, and reports the first mistake only.
A label stands for the instruction after it; if it is defined twice, the
later definition counts.
-/

namespace CritterScript

/-- The lines of a script, without the carriage returns at their ends. -/
def sourceLines (source : String) : List String :=
  (source.toList.splitOn '\n').map fun line =>
    String.ofList ((line.reverse.dropWhile (· == '\r')).reverse)

/-- What a line of a script says. -/
inductive Line where
  | blank
  | label (name : String)
  | instruction (i : Instruction)
deriving DecidableEq

/-- The operand that a token writes. -/
def readOperand (t : Token) : Except SyntaxError Operand :=
  if t.isRegister then .ok (.register t.text)
  else (readLiteral t).map .literal

/-- The first operand that is not written as its slot wants it. -/
def misfit? (op : Opcode) (tokens : List Token) (operands : List Operand) : Option SyntaxError :=
  ((op.slots.zip (tokens.zip operands)).zipIdx 1).findSome? fun ((slot, t, a), position) =>
    if slot.accepts a.kind then none
    else some ⟨.wrongKind op position slot a.kind, t.place⟩

/-- The instruction that a line with the words `head` and `rest` writes. -/
def readInstruction (head : Token) (rest : List Token) : Except SyntaxError Instruction := do
  match Opcode.ofName? head.text with
  | none => .error ⟨.badInstruction head.text, head.place⟩
  | some op =>
    let operands ← rest.mapM readOperand
    if operands.length ≠ op.arity then
      .error ⟨.wrongCount op operands.length, head.place⟩
    else
      match misfit? op rest operands with
      | some e => .error e
      | none => .ok ⟨op, operands, head.place.line⟩

/-- What the tokens of a line say. -/
def readTokens : List Token → Except SyntaxError Line
  | [] => .ok .blank
  | head :: rest =>
    if head.isLabel then
      match rest with
      | [] => .ok (.label head.text)
      | next :: _ => .error ⟨.codeAfterLabel, next.place⟩
    else
      (readInstruction head rest).map .instruction

/-- What line number `index` of a script says. -/
def readLine (index : Nat) (line : String) : Except SyntaxError Line :=
  readTokens (tokenize line index)

/-- The program that goes on with a further line. -/
def Program.add (p : Program) : Line → Program
  | .blank => p
  | .label name => { p with labels := p.labels.insert name p.size }
  | .instruction i => { p with code := p.code.push i }

/-- The program of a sequence of lines. -/
def Program.ofLines (lines : List Line) : Program :=
  lines.foldl Program.add .empty

/-- The program that a script writes. -/
def Program.read (source : String) : Except SyntaxError Program :=
  ((sourceLines source).zipIdx.mapM fun (line, index) => readLine index line).map .ofLines

end CritterScript
