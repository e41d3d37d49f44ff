import CritterScript.Machine.Step

/-!
# Instructions are atomic

An instruction works on the machine as it goes, and a failure keeps what was
done before it. All the same it is all or nothing, because of the order that
every opcode keeps: it reads and checks first, and changes registers or
messages last, once, when nothing can fail any more. `Does` says this of an
action: its answer is an effect, or a failure, found on the machine as it was
(`Instruction.effect`), and the machine afterwards is what this one effect
makes of it (`Machine.apply`), or the machine as it was.

The exception is `RAND`, which draws its number before it looks for a register
to put it in. `Machine.step_eq` is the whole of it: a step is its effect, on
the machine after the draw.
-/

namespace CritterScript

/-! ## Effects -/

/-- What an instruction does to the machine. -/
inductive Effect where
  /-- Puts a value into a register. -/
  | store (name : String) (value : Value)
  /-- Proposes a message. -/
  | post (key : String) (message : Message)
  /-- Goes on at a position. -/
  | jump (position : Nat)
  /-- Goes on with the next instruction. -/
  | skip

namespace Instruction

/-- Stores a value in the register at a position. -/
def storeAt (i : Instruction) (position : Nat) (v : Value) : Except Cause Effect :=
  (i.target position).map (.store · v)

/-- Jumps to the label that a value is. -/
def jumpTo (p : Program) (op : Opcode) : Value → Except Cause Effect
  | .label name =>
    match p.label? name with
    | some position => .ok (.jump position)
    | none => .error (.unknownLabel name)
  | v => .error (.badJumpTarget op v)

/-- Combines two operands and stores the result. -/
def arithmetic (i : Instruction) (r : Registers) (f : Float → Float → Float) :
    Except Cause Effect := do
  let left ← i.value r 0
  let right ← i.value r 1
  i.storeAt 2 (← Value.combine i.opcode f left right)

/-- Applies an operation to one operand and stores the result. -/
def unary (i : Instruction) (r : Registers) (f : Value → Except Cause Value) :
    Except Cause Effect := do
  let v ← i.value r 0
  i.storeAt 1 (← f v)

/-- Jumps if the first operand says so; only then is the second looked at. -/
def branch (i : Instruction) (p : Program) (r : Registers) : Except Cause Effect := do
  let v ← i.value r 0
  if ← v.takesJump i.opcode then jumpTo p i.opcode (← i.value r 1) else return .skip

/-- What an instruction does, given the registers and the number that `RAND`
has drawn. -/
def effect (i : Instruction) (p : Program) (r : Registers) (sample : Float) :
    Except Cause Effect :=
  match i.opcode with
  | .mov => i.unary r .ok
  | .add => i.arithmetic r (· + ·)
  | .sub => i.arithmetic r (· - ·)
  | .mul => i.arithmetic r (· * ·)
  | .div => i.arithmetic r (· / ·)
  | .mod => i.arithmetic r Number.remainder
  | .rand => i.storeAt 0 (.number sample)
  | .push => do
    let front ← (← i.value r 0).items
    let back ← (← i.value r 1).items
    i.storeAt 2 (.array (front ++ back))
  | .get => do
    let array ← i.value r 0
    let index ← i.value r 1
    i.storeAt 2 (← array.item index)
  | .vlen => i.unary r Value.norm
  | .vdir => i.unary r Value.direction
  | .unitv => i.unary r Value.unitVector
  | .jmp => do jumpTo p i.opcode (← i.value r 0)
  | .jez | .jlz | .jgz => i.branch p r
  | .ret => .ok (.jump p.size)
  | .send => do
    let priority ← i.value r 0
    let value ← i.value r 1
    let key ← i.target 2
    match priority with
    | .number x => .ok (.post key ⟨value, x⟩)
    | v => .error (.expectedPriority v)

end Instruction

variable {ρ : Type}

namespace Machine

/-- Brings an effect about and moves on. -/
def apply (s : Machine ρ) : Effect → Machine ρ
  | .store name v => { s with position := s.position + 1, registers := s.registers.set name v }
  | .post key m => { s with position := s.position + 1, outbox := s.outbox.post key m }
  | .jump position => { s with position }
  | .skip => { s with position := s.position + 1 }

/-- The number that an instruction draws, and the source after it. Only
`RAND` draws one. -/
def draw [Sampler ρ] (s : Machine ρ) (i : Instruction) : Float × ρ :=
  if i.opcode = .rand then Sampler.draw s.random else (0, s.random)

end Machine

/-! ## Actions with one effect -/

variable {α β : Type} {s : Machine ρ}

/-- On the machine `s` the action only looks: it has this answer, and leaves
the machine as it is. -/
def Reads (act : Action ρ α) (s : Machine ρ) (answer : Except Cause α) : Prop :=
  act.run.run s = (answer, s)

/-- On the machine `s` the action has this effect and no other, and gives the
position after it; or it fails, and has no effect. -/
def Does (act : Action ρ Nat) (s : Machine ρ) : Except Cause Effect → Prop
  | .ok e => act.run.run s = (.ok (s.apply e).position, { s.apply e with position := s.position })
  | .error c => act.run.run s = (.error c, s)

theorem reads_load (i : Instruction) (position : Nat) (s : Machine ρ) :
    Reads (i.load position) s (i.value s.registers position) :=
  rfl

theorem reads_lift (answer : Except Cause α) (s : Machine ρ) :
    Reads (liftM answer : Action ρ α) s answer :=
  rfl

/-- An action goes on, on the machine that the first part of it leaves, or fails
with that part. -/
theorem run_bind (act : Action ρ α) (f : α → Action ρ β) (s : Machine ρ) :
    (act >>= f).run.run s =
      match act.run.run s with
      | (.ok a, t) => (f a).run.run t
      | (.error c, t) => (.error c, t) := by
  show (ExceptT.bindCont f (act.run.run s).1).run (act.run.run s).2 = _
  obtain ⟨answer, t⟩ := act.run.run s
  cases answer <;> rfl

theorem Does.of_run_eq {act act' : Action ρ Nat} {answer : Except Cause Effect}
    (h : Does act' s answer) (hrun : act.run.run s = act'.run.run s) : Does act s answer := by
  cases answer with
  | ok _ | error _ => exact hrun.trans h

/-- Reading and checking, before the effect, leave no trace. -/
theorem Reads.bind {act : Action ρ α} {answer : Except Cause α} (h : Reads act s answer)
    {f : α → Action ρ Nat} {g : α → Except Cause Effect} (hf : ∀ a, Does (f a) s (g a)) :
    Does (act >>= f) s (answer >>= g) := by
  have hrun := run_bind act f s
  rw [h] at hrun
  cases answer with
  | ok a => exact (hf a).of_run_eq hrun
  | error c => exact hrun

theorem does_next (s : Machine ρ) : Does .next s (.ok .skip) :=
  rfl

theorem does_store (i : Instruction) (position : Nat) (v : Value) (s : Machine ρ) :
    Does (i.store position v >>= fun _ => .next) s (i.storeAt position v) := by
  rw [Instruction.storeAt]
  cases htarget : i.target position with
  | ok _ | error _ =>
    show (i.store position v >>= fun _ => .next).run.run s = _
    rw [run_bind, Instruction.store, htarget]
    rfl

theorem does_jump (p : Program) (op : Opcode) (v : Value) (s : Machine ρ) :
    Does (liftM (p.jumpTarget op v) : Action ρ Nat) s (Instruction.jumpTo p op v) := by
  cases v with
  | label name =>
    rw [Program.jumpTarget, Instruction.jumpTo]
    cases p.label? name <;> exact rfl
  | _ => exact rfl

theorem does_send (key : String) (priority value : Value) (s : Machine ρ) :
    Does (Action.send key priority value >>= fun _ => .next) s
      (match priority with
        | .number x => .ok (.post key ⟨value, x⟩)
        | v => .error (.expectedPriority v)) := by
  cases priority <;> exact rfl

/-! ## Opcodes -/

theorem does_transform (i : Instruction) (f : Value → Except Cause Value) (s : Machine ρ) :
    Does (i.transform f) s (i.unary s.registers f) := by
  refine (reads_load i 0 s).bind fun v => ?_
  refine (reads_lift (f v) s).bind fun w => ?_
  exact does_store i 1 w s

theorem does_combine (i : Instruction) (f : Value → Value → Except Cause Value) (s : Machine ρ) :
    Does (i.combine f) s (do
      let left ← i.value s.registers 0
      let right ← i.value s.registers 1
      i.storeAt 2 (← f left right)) := by
  refine (reads_load i 0 s).bind fun left => ?_
  refine (reads_load i 1 s).bind fun right => ?_
  refine (reads_lift (f left right) s).bind fun v => ?_
  exact does_store i 2 v s

theorem does_jumpIf (i : Instruction) (p : Program) (s : Machine ρ) :
    Does (i.jumpIf p) s (i.branch p s.registers) := by
  refine (reads_load i 0 s).bind fun v => ?_
  refine (reads_lift (v.takesJump i.opcode) s).bind fun taken => ?_
  cases taken with
  | true => exact (reads_load i 1 s).bind fun label => does_jump p i.opcode label s
  | false => exact does_next s

theorem does_push (i : Instruction) (s : Machine ρ) :
    Does (do
        let front ← (← i.load 0).items
        let back ← (← i.load 1).items
        i.store 2 (.array (front ++ back))
        Action.next) s
      (do
        let front ← (← i.value s.registers 0).items
        let back ← (← i.value s.registers 1).items
        i.storeAt 2 (.array (front ++ back))) := by
  refine (reads_load i 0 s).bind fun left => ?_
  refine (reads_lift left.items s).bind fun front => ?_
  refine (reads_load i 1 s).bind fun right => ?_
  refine (reads_lift right.items s).bind fun back => ?_
  exact does_store i 2 _ s

variable [Sampler ρ]

/-- Only the last thing that an instruction does can change registers or
messages, and nothing fails after it. -/
theorem does_perform (i : Instruction) (p : Program) (s : Machine ρ) (hop : i.opcode ≠ .rand)
    (sample : Float) : Does (i.perform p) s (i.effect p s.registers sample) := by
  obtain ⟨op, operands, line⟩ := i
  cases op with
  | mov => exact does_transform _ .ok s
  | add | sub | mul | div | mod => exact does_combine _ _ s
  | rand => exact absurd rfl hop
  | push => exact does_push _ s
  | get => exact does_combine _ Value.item s
  | vlen => exact does_transform _ Value.norm s
  | vdir => exact does_transform _ Value.direction s
  | unitv => exact does_transform _ Value.unitVector s
  | jmp => exact (reads_load _ 0 s).bind fun v => does_jump p _ v s
  | jez | jlz | jgz => exact does_jumpIf _ p s
  | ret => exact rfl
  | send =>
    refine (reads_load _ 0 s).bind fun priority => ?_
    refine (reads_load _ 1 s).bind fun value => ?_
    refine (reads_lift _ s).bind fun key => ?_
    exact does_send key priority value s

/-- `RAND` stores on the machine that has drawn the number. -/
theorem run_perform_rand (i : Instruction) (p : Program) (s : Machine ρ) (hop : i.opcode = .rand) :
    (i.perform p).run.run s =
      (i.store 0 (.number (s.draw i).1) >>= fun _ => Action.next).run.run
        { s with random := (s.draw i).2 } := by
  obtain ⟨op, operands, line⟩ := i
  cases hop
  rfl

/-- An instruction draws its number, if it does, before anything else, and the
rest of it has one effect or none. -/
theorem exists_does (i : Instruction) (p : Program) (s : Machine ρ) :
    ∃ act : Action ρ Nat,
      (i.perform p).run.run s = act.run.run { s with random := (s.draw i).2 } ∧
        Does act { s with random := (s.draw i).2 } (i.effect p s.registers (s.draw i).1) := by
  by_cases hop : i.opcode = .rand
  · refine ⟨_, run_perform_rand i p s hop, ?_⟩
    rw [Instruction.effect, hop]
    exact does_store i 0 _ _
  · have hdraw : s.draw i = (0, s.random) := by rw [Machine.draw, if_neg hop]
    rw [hdraw]
    exact ⟨i.perform p, rfl, does_perform i p s hop 0⟩

/-! ## Steps -/

/-- A step brings about the effect of its instruction, as it was found before,
or it fails and leaves the machine with the number drawn and otherwise as it
was. -/
theorem Machine.step_eq (p : Program) (i : Instruction) (s : Machine ρ) :
    s.step p i =
      match i.effect p s.registers (s.draw i).1 with
      | .ok e => ({ s with random := (s.draw i).2 }.apply e, none)
      | .error c => ({ s with random := (s.draw i).2 }, some c) := by
  obtain ⟨act, hrun, hdoes⟩ := exists_does i p s
  rw [Machine.step, hrun]
  cases he : i.effect p s.registers (s.draw i).1 with
  | ok _ | error _ =>
    rw [he] at hdoes
    rw [hdoes]

theorem Machine.run_of_step {p : Program} {i : Instruction} {c : Cause} {s t : Machine ρ}
    (h : s.step p i = (t, some c)) : (i.perform p).run.run s = (.error c, t) := by
  rw [Machine.step] at h
  rcases hrun : (i.perform p).run.run s with ⟨answer, u⟩
  rw [hrun] at h
  cases answer with
  | ok position => cases h
  | error d =>
    cases h
    rfl

/-- What makes a step fail is found on the machine before it. -/
theorem Machine.effect_of_step {p : Program} {i : Instruction} {c : Cause} {s t : Machine ρ}
    (h : s.step p i = (t, some c)) :
    i.effect p s.registers (s.draw i).1 = .error c ∧ t = { s with random := (s.draw i).2 } := by
  rw [Machine.step_eq] at h
  cases he : i.effect p s.registers (s.draw i).1 with
  | ok e =>
    rw [he] at h
    cases h
  | error d =>
    rw [he] at h
    cases h
    exact ⟨rfl, rfl⟩

/-- An instruction that fails changes at most the source of random
numbers, and that only if it is `RAND`. -/
theorem Machine.step_keeps {p : Program} {i : Instruction} {c : Cause} {s t : Machine ρ}
    (h : s.step p i = (t, some c)) :
    t.position = s.position ∧ t.registers = s.registers ∧ t.outbox = s.outbox ∧
      (i.opcode ≠ .rand → t = s) := by
  obtain ⟨-, rfl⟩ := Machine.effect_of_step h
  refine ⟨rfl, rfl, rfl, fun hop => ?_⟩
  rw [Machine.draw, if_neg hop]

end CritterScript
