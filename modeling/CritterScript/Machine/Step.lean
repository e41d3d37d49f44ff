import CritterScript.Machine.Operation
import CritterScript.Message
import CritterScript.Program
import CritterScript.Random
import CritterScript.Registers

/-!
# One instruction

An instruction works on the machine as it goes: it reads an operand when it
comes to it, draws a number, stores a value, sends a message. It may fail at
any point, and then the machine stays as it is by then: nothing that was done
is taken back (`Action`). `Instruction.perform` has the order of these things
for each opcode, and gives the position to go on at.
-/

namespace CritterScript

/-- The state of a run: where it is, the registers, the messages so far, and
the source of random numbers. -/
structure Machine (ρ : Type) where
  position : Nat
  registers : Registers
  outbox : Outbox
  random : ρ

/-- Something done on a machine, which may fail on the way. A failure keeps
what was changed before it. -/
abbrev Action (ρ : Type) := ExceptT Cause (StateM (Machine ρ))

variable {ρ : Type}

namespace Action

/-- Draws a number. -/
def sample [Sampler ρ] : Action ρ Float :=
  modifyGet fun s =>
    let (x, random) := Sampler.draw s.random
    (x, { s with random })

/-- Sends a value, if the priority is a number. -/
def send (key : String) (priority value : Value) : Action ρ Unit :=
  match priority with
  | .number x => modify fun s => { s with outbox := s.outbox.post key ⟨value, x⟩ }
  | v => throw (.expectedPriority v)

/-- Goes on with the next instruction. -/
def next : Action ρ Nat :=
  return (← get).position + 1

end Action

/-- The position of the label that a value is. -/
def Program.jumpTarget (p : Program) (op : Opcode) : Value → Except Cause Nat
  | .label name =>
    match p.label? name with
    | some position => .ok position
    | none => .error (.unknownLabel name)
  | v => .error (.badJumpTarget op v)

namespace Instruction

/-- The operand at a position. -/
def operand (i : Instruction) (position : Nat) : Except Cause Operand :=
  match i.operands[position]? with
  | some a => .ok a
  | none => .error (.malformed i.opcode)

/-- The value of the operand at a position. -/
def value (i : Instruction) (r : Registers) (position : Nat) : Except Cause Value :=
  (i.operand position).map fun
    | .register name => r.get name
    | .literal v => v

/-- The register named by the operand at a position. -/
def target (i : Instruction) (position : Nat) : Except Cause String :=
  (i.operand position).bind fun
    | .register name => .ok name
    | .literal _ => .error (.malformed i.opcode)

/-- Reads the operand at a position. -/
def load (i : Instruction) (position : Nat) : Action ρ Value := do
  i.value (← get).registers position

/-- Stores a value in the register at a position. -/
def store (i : Instruction) (position : Nat) (v : Value) : Action ρ Unit := do
  let name ← i.target position
  modify fun s => { s with registers := s.registers.set name v }

/-- Applies an operation to one operand and stores the result. -/
def transform (i : Instruction) (f : Value → Except Cause Value) : Action ρ Nat := do
  let v ← i.load 0
  i.store 1 (← f v)
  .next

/-- Applies an operation to two operands and stores the result. -/
def combine (i : Instruction) (f : Value → Value → Except Cause Value) : Action ρ Nat := do
  let left ← i.load 0
  let right ← i.load 1
  i.store 2 (← f left right)
  .next

/-- Jumps if the first operand says so; only then is the second looked at. -/
def jumpIf (i : Instruction) (p : Program) : Action ρ Nat := do
  let v ← i.load 0
  if ← v.takesJump i.opcode then p.jumpTarget i.opcode (← i.load 1) else .next

/-- Carries out an instruction, and gives the position to go on at. -/
def perform [Sampler ρ] (i : Instruction) (p : Program) : Action ρ Nat :=
  match i.opcode with
  | .mov => i.transform .ok
  | .add => i.combine (Value.combine i.opcode (· + ·))
  | .sub => i.combine (Value.combine i.opcode (· - ·))
  | .mul => i.combine (Value.combine i.opcode (· * ·))
  | .div => i.combine (Value.combine i.opcode (· / ·))
  | .mod => i.combine (Value.combine i.opcode Number.remainder)
  | .rand => do
    let x ← .sample
    i.store 0 (.number x)
    .next
  | .push => do
    -- the first operand is judged before the second is read
    let front ← (← i.load 0).items
    let back ← (← i.load 1).items
    i.store 2 (.array (front ++ back))
    .next
  | .get => i.combine Value.item
  | .vlen => i.transform Value.norm
  | .vdir => i.transform Value.direction
  | .unitv => i.transform Value.unitVector
  | .jmp => do p.jumpTarget i.opcode (← i.load 0)
  | .jez | .jlz | .jgz => i.jumpIf p
  | .ret => return p.size
  | .send => do
    let priority ← i.load 0
    let value ← i.load 1
    let key ← i.target 2
    .send key priority value
    .next

end Instruction

/-- Carries out one instruction: the state after it, and the cause if it
faults. -/
def Machine.step [Sampler ρ] (p : Program) (i : Instruction) (s : Machine ρ) :
    Machine ρ × Option Cause :=
  match (i.perform p).run.run s with
  | (.ok position, t) => ({ t with position }, none)
  | (.error c, t) => (t, some c)

end CritterScript
