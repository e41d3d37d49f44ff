/-!
# Opcodes

The instructions of the script language, and the operands that each takes.
An operand that is only read may be a register or a literal; the operand that
receives a result must be a register.
-/

namespace CritterScript

/-- What an instruction does. -/
inductive Opcode where
  | mov | add | sub | mul | div | mod | rand
  | push | get | vlen | vdir | unitv
  | jmp | jez | jlz | jgz | ret
  | send
deriving DecidableEq, Repr

/-- How an operand is written. -/
inductive Kind where
  | register
  | literal
deriving DecidableEq, Repr

def Kind.text : Kind → String
  | .register => "register"
  | .literal => "literal"

/-- What an operand is for. -/
inductive Slot where
  /-- It is read. -/
  | source
  /-- It receives the result. -/
  | target
deriving DecidableEq, Repr

namespace Slot

/-- The ways in which an operand for this slot may be written. -/
def kinds : Slot → List Kind
  | source => [.register, .literal]
  | target => [.register]

def accepts (s : Slot) (k : Kind) : Bool :=
  s.kinds.contains k

def text (s : Slot) : String :=
  String.intercalate " or " (s.kinds.map Kind.text)

end Slot

namespace Opcode

/-- The opcodes in the order of the reference. -/
def all : List Opcode :=
  [mov, add, sub, mul, div, mod, rand, push, get, vlen, vdir, unitv, jmp, jez, jlz, jgz, ret, send]

theorem mem_all (op : Opcode) : op ∈ all := by
  cases op <;> decide

/-- The position of an opcode in `all`. -/
def index (op : Opcode) : Nat :=
  all.idxOf op

def name : Opcode → String
  | mov => "MOV"
  | add => "ADD"
  | sub => "SUB"
  | mul => "MUL"
  | div => "DIV"
  | mod => "MOD"
  | rand => "RAND"
  | push => "PUSH"
  | get => "GET"
  | vlen => "VLEN"
  | vdir => "VDIR"
  | unitv => "UNITV"
  | jmp => "JMP"
  | jez => "JEZ"
  | jlz => "JLZ"
  | jgz => "JGZ"
  | ret => "RET"
  | send => "SEND"

/-- The operands that an instruction takes. -/
def slots : Opcode → List Slot
  | mov | vlen | vdir | unitv => [.source, .target]
  | add | sub | mul | div | mod | push | get | send => [.source, .source, .target]
  | rand => [.target]
  | jmp => [.source]
  | jez | jlz | jgz => [.source, .source]
  | ret => []

def arity (op : Opcode) : Nat :=
  op.slots.length

/-- The opcode with a name, whatever the case of its ASCII letters. -/
def ofName? (name : String) : Option Opcode :=
  all.find? fun op => op.name.toList == name.toList.map Char.toUpper

end Opcode

end CritterScript
