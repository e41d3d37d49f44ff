import CritterScript.Machine.Step

/-!
# Runs

A run carries out instructions one after the other until it halts, by
leaving the program, or runs out of its budget of cycles, or faults. Every
instruction that is started costs one cycle, the faulting one included.

`Program.execute` runs a program on registers from an entry label. Whatever
the ending, the registers and messages are those of the instructions that
were completed.
-/

namespace CritterScript

/-- How a run ends. -/
inductive Ending where
  /-- It left the program. -/
  | halted
  /-- The budget ran out with an instruction still to come. -/
  | timedOut
  | faulted (fault : Fault)
deriving DecidableEq

/-- What a run leaves behind. -/
structure Execution (ρ : Type) where
  machine : Machine ρ
  cycles : Nat
  ending : Ending

/-- What a host sees of a run besides the registers. -/
structure Outcome where
  messages : Outbox
  cycles : Nat
  timeout : Bool

namespace Execution

variable {ρ : Type}

def fault? (x : Execution ρ) : Option Fault :=
  match x.ending with
  | .faulted f => some f
  | _ => none

def outcome (x : Execution ρ) : Outcome where
  messages := x.machine.outbox
  cycles := x.cycles
  timeout := x.ending = .timedOut

end Execution

variable {ρ : Type} [Sampler ρ]

/-- Runs on for at most `budget` cycles, of which `spent` more are already
spent. -/
def Machine.run (p : Program) : (budget spent : Nat) → Machine ρ → Execution ρ
  | budget, spent, s =>
    match p.code[s.position]? with
    | none => ⟨s, spent, .halted⟩
    | some i =>
      match budget with
      | 0 => ⟨s, spent, .timedOut⟩
      | budget + 1 =>
        match s.step p i with
        | (s, none) => Machine.run p budget (spent + 1) s
        | (s, some cause) => ⟨s, spent + 1, .faulted ⟨cause, i.line⟩⟩

/-- The state in which a program starts. -/
def Program.boot (p : Program) (entry : Option String) (r : Registers) (random : ρ) :
    Machine ρ where
  position := p.start entry
  registers := r
  outbox := ∅
  random := random

/-- Runs a program from an entry label for at most `limit` cycles. -/
def Program.execute (p : Program) (limit : Nat) (entry : Option String) (r : Registers)
    (random : ρ) : Execution ρ :=
  (p.boot entry r random).run p limit 0

/-- The register that holds the label to resume at. -/
def stateRegister : String := "$state"

/-- The label to resume at, if the state register holds one. -/
def Registers.resumption? (r : Registers) : Option String :=
  (r.get stateRegister).label?

/-- Runs a program from the label in its state register. -/
def Program.resume (p : Program) (limit : Nat) (r : Registers) (random : ρ) : Execution ρ :=
  p.execute limit r.resumption? r random

end CritterScript
