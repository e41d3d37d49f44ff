import CritterScript.Machine.Run
import CritterScript.Text.Basic

/-!
# Journals

A journal is what a run writes down as it goes: a line for every instruction
that is started, and one for the end of the budget or a fault. It follows the
run step by step and has no influence on it.
-/

namespace CritterScript

/-- How much a record matters. -/
inductive Level where
  | error | warn | info | debug | trace
deriving DecidableEq, Repr

def Level.text : Level → String
  | error => "ERROR"
  | warn => "WARN"
  | info => "INFO"
  | debug => "DEBUG"
  | trace => "TRACE"

/-- A line of a journal. -/
structure Record where
  level : Level
  message : String
deriving DecidableEq, Repr

def Record.text (r : Record) : String :=
  s!"{r.level.text} {r.message}"

/-- The record of a script that was read. -/
def Program.record (p : Program) : Record :=
  ⟨.debug, s!"parsed program: {p.size} instruction(s), {p.labels.size} label(s)"⟩

/-- The record of an instruction at a position. -/
def Instruction.record (i : Instruction) (position : Nat) : Record :=
  let place := Text.padLeft 4 (toString position)
  let line := Text.padRight 4 (toString (i.line + 1))
  ⟨.trace, s!"{place} L{line} {i.text}"⟩

/-- The record of a budget of `limit` cycles that ends before an
instruction. -/
def Instruction.timeoutRecord (i : Instruction) (limit : Nat) : Record :=
  ⟨.debug, s!"cycle limit {limit} reached at L{i.line + 1}"⟩

def Fault.record (f : Fault) : Record :=
  ⟨.debug, s!"runtime fault: {f.text}"⟩

variable {ρ : Type} [Sampler ρ]

/-- The journal of a run with `budget` of its `limit` cycles left, behind the
records `past`, latest first. -/
def Machine.journal (p : Program) (limit : Nat) :
    (budget : Nat) → (past : List Record) → Machine ρ → List Record
  | budget, past, s =>
    match p.code[s.position]? with
    | none => past.reverse
    | some i =>
      match budget with
      | 0 => (i.timeoutRecord limit :: past).reverse
      | budget + 1 =>
        let past := i.record s.position :: past
        match s.step p i with
        | (s, none) => Machine.journal p limit budget past s
        | (_, some cause) => (Fault.record ⟨cause, i.line⟩ :: past).reverse

/-- The journal of `Program.execute`. -/
def Program.journal (p : Program) (limit : Nat) (entry : Option String) (r : Registers)
    (random : ρ) : List Record :=
  (p.boot entry r random).journal p limit limit []

end CritterScript
