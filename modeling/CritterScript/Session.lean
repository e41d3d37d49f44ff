import CritterScript.Script.Reading
import CritterScript.Tick

/-!
# Sessions

A host's hold on one script: the program, its budget, the registers it works
on and the random numbers still to come. Executions carry on from each other:
every one leaves its registers, and the rest of its random numbers, to the
next. A detached execution works on the registers too, but has random numbers
of its own.
-/

namespace CritterScript

/-- A script and what it runs on. -/
structure Session where
  program : Program
  limit : Nat
  world : World SplitMix

namespace Session

/-- A session without a script. -/
def start (seed : UInt64) (limit : Nat) (registers : Registers) : Session where
  program := .empty
  limit := limit
  world := ⟨registers, .ofSeed seed⟩

def registers (s : Session) : Registers :=
  s.world.registers

def setRegisters (s : Session) (r : Registers) : Session :=
  { s with world := { s.world with registers := r } }

/-- Runs the script from an entry label. -/
def execute (s : Session) (entry : Option String) : Execution SplitMix × Session :=
  let x := s.program.execute s.limit entry s.world.registers s.world.random
  (x, { s with world := ⟨x.machine.registers, x.machine.random⟩ })

/-- Runs the script from the label in its state register. -/
def resume (s : Session) : Execution SplitMix × Session :=
  s.execute s.registers.resumption?

/-- Runs the script for a number of ticks. -/
def ticks (s : Session) (entry : Option String) (count : Nat) : List Report × Session :=
  let (reports, world) := s.program.ticks ⟨s.limit, entry⟩ count s.world
  (reports, { s with world })

/-- The session with random numbers from another source. -/
def withRandom (s : Session) (random : SplitMix) : Session :=
  { s with world := { s.world with random } }

/-- Does something with random numbers from a source of its own, after which
those of the session go on where they were. -/
def detached {α : Type} (s : Session) (random : SplitMix) (act : Session → α × Session) :
    α × Session :=
  let (a, after) := act (s.withRandom random)
  (a, after.withRandom s.world.random)

/-- The journal of `execute`. -/
def journal (s : Session) (entry : Option String) : List Record :=
  s.program.journal s.limit entry s.world.registers s.world.random

/-- The journal of `ticks`. -/
def ticksJournal (s : Session) (entry : Option String) (count : Nat) : List Record :=
  s.program.ticksJournal ⟨s.limit, entry⟩ count 0 s.world

end Session

end CritterScript
