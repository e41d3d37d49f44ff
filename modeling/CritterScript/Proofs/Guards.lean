import CritterScript.Machine.Run
import CritterScript.Proofs.Indexing
import Mathlib

/-!
# Guarded accesses

Four things that a run looks up need not be there: the instruction at a
position, the operator of an opcode, the item of an array at an index, and the
two items that make a direction. `Program.execute?` is the run with these
lookups left bare, apart from the conditions under which they are made: it
compares the position with the size of the program, then fetches; it tells the
opcodes of arithmetic from the others, then asks for the operator; it compares
an index with the length of the array as a number and a length with two, then
takes the items. It gives nothing as soon as a lookup finds nothing.

`execute?_eq` shows that this never happens, for any program whatever, and
that the result is that of `Program.execute`.
-/

namespace CritterScript

/-- `Value.item?` on arrays of fewer than `2 ^ 53` items. More do not fit into
any memory, and only up to there is a length the same as a number. -/
def Value.fetch? (v index : Value) : Option (Except Cause Value) :=
  match v with
  | .array xs => if xs.length < 2 ^ 53 then v.item? index else some (v.item index)
  | v => v.item? index

/-- `Value.direction`, with the items taken once the length is found to be
two. -/
def Value.direction? : Value → Option (Except Cause Value)
  | .array xs =>
    if xs.length = 2 then do
      let x ← xs[0]?
      let y ← xs[1]?
      return .ok (.number (Float.atan2 x y))
    else some (.error (.expectedPair (.array xs)))
  | v => some (.error (.expectedPair v))

/-- `Instruction.effect`, with the operator looked up by opcode and the items
of arrays taken as they are. -/
def Instruction.effect? (i : Instruction) (p : Program) (r : Registers) (sample : Float) :
    Option (Except Cause Effect) :=
  match i.opcode with
  | .add | .sub | .mul | .div | .mod => i.opcode.operator?.map (i.arithmetic r)
  | .get => ExceptT.run do
    let array ← i.value r 0
    let index ← i.value r 1
    i.storeAt 2 (← ExceptT.mk (array.fetch? index))
  | .vdir => ExceptT.run do
    let v ← i.value r 0
    i.storeAt 1 (← ExceptT.mk v.direction?)
  | _ => some (i.effect p r sample)

variable {ρ : Type} [Sampler ρ]

/-- `Machine.step`, with its lookups left bare. -/
def Machine.step? (p : Program) (i : Instruction) (s : Machine ρ) :
    Option (Machine ρ × Option Cause) :=
  let (sample, random) := s.draw i
  (i.effect? p s.registers sample).map fun
    | .ok e => ({ s with random }.apply e, none)
    | .error c => ({ s with random }, some c)

/-- `Machine.run`, with the instruction fetched behind a test of the
position. -/
def Machine.run? (p : Program) : (budget spent : Nat) → Machine ρ → Option (Execution ρ)
  | budget, spent, s =>
    if s.position < p.size then
      match budget with
      | 0 => some ⟨s, spent, .timedOut⟩
      | budget + 1 => do
        let i ← p.code[s.position]?
        match ← s.step? p i with
        | (s, none) => Machine.run? p budget (spent + 1) s
        | (s, some cause) => some ⟨s, spent + 1, .faulted ⟨cause, i.line⟩⟩
    else
      some ⟨s, spent, .halted⟩

/-- `Program.execute`, with its lookups left bare. -/
def Program.execute? (p : Program) (limit : Nat) (entry : Option String) (r : Registers)
    (random : ρ) : Option (Execution ρ) :=
  (p.boot entry r random).run? p limit 0

theorem Value.fetch?_eq (v index : Value) : v.fetch? index = some (v.item index) := by
  cases v with
  | array xs =>
    rw [fetch?]
    by_cases hlength : xs.length < 2 ^ 53
    · rw [if_pos hlength]
      cases index with
      | number x => exact item?_eq hlength x
      | _ => rfl
    · rw [if_neg hlength]
  | _ => rfl

theorem Value.direction?_eq (v : Value) : v.direction? = some v.direction := by
  cases v with
  | array xs =>
    rw [direction?]
    by_cases hlength : xs.length = 2
    · obtain ⟨x, y, rfl⟩ := List.length_eq_two.mp hlength
      rfl
    · rw [if_neg hlength, direction]
      intro x y hxs
      cases hxs
      exact hlength rfl
  | _ => rfl

/-- Answers that are there do not get lost. -/
theorem run_bind_some {α β : Type} (answer : Except Cause α) {f : α → ExceptT Cause Option β}
    {g : α → Except Cause β} (hf : ∀ a, (f a).run = some (g a)) :
    (ExceptT.mk (some answer) >>= f).run = some (answer >>= g) := by
  cases answer with
  | ok a => exact hf a
  | error c => rfl

/-- The opcodes that are sent to arithmetic are those with an operator, and the
items that an instruction takes are there. -/
theorem Instruction.effect?_eq (i : Instruction) (p : Program) (r : Registers) (sample : Float) :
    i.effect? p r sample = some (i.effect p r sample) := by
  rw [effect?, effect]
  cases i.opcode with
  | get =>
    refine run_bind_some _ fun array => run_bind_some _ fun index => ?_
    rw [Value.fetch?_eq]
    exact run_bind_some _ fun v => rfl
  | vdir =>
    refine run_bind_some _ fun v => ?_
    rw [Value.direction?_eq]
    exact run_bind_some _ fun w => rfl
  | _ => rfl

theorem Machine.step?_eq (p : Program) (i : Instruction) (s : Machine ρ) :
    s.step? p i = some (s.step p i) := by
  have heffect := Instruction.effect?_eq i p s.registers (s.draw i).1
  refine (congrArg (Option.map _) heffect).trans ?_
  exact congrArg some (Machine.step_eq p i s).symm

theorem Machine.run?_eq (p : Program) (budget spent : Nat) (s : Machine ρ) :
    s.run? p budget spent = some (s.run p budget spent) := by
  induction budget generalizing spent s with
  | zero =>
    rw [Machine.run?, Machine.run]
    by_cases h : s.position < p.size
    · rw [if_pos h, Array.getElem?_eq_getElem h]
    · rw [if_neg h, Array.getElem?_eq_none (Nat.le_of_not_lt h)]
  | succ budget ih =>
    rw [Machine.run?, Machine.run]
    by_cases h : s.position < p.size
    · rw [if_pos h, Array.getElem?_eq_getElem h]
      simp only [Option.bind_eq_bind, Option.bind_some, Machine.step?_eq]
      cases s.step p p.code[s.position] with
      | mk t cause =>
        cases cause with
        | none => exact ih (spent + 1) t
        | some c => rfl
    · rw [if_neg h, Array.getElem?_eq_none (Nat.le_of_not_lt h)]

/-- No lookup of a run finds nothing. -/
theorem Program.execute?_eq (p : Program) (limit : Nat) (entry : Option String) (r : Registers)
    (random : ρ) :
    p.execute? limit entry r random = some (p.execute limit entry r random) :=
  Machine.run?_eq p limit 0 _

end CritterScript
