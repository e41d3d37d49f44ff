import CritterScript.Board
import CritterScript.Machine.Journal

/-!
# Ticks

A host runs a script once per tick. A tick starts at the label in the state
register, or else at the configured entry; afterwards the messages that the
script sent are written into its registers, where the next tick reads them.
This happens however the run ended.
-/

namespace CritterScript

/-- How a script is run each tick: the budget in cycles, and the entry for
ticks that do not resume. -/
structure Schedule where
  limit : Nat
  entry : Option String

/-- What a host keeps from one tick to the next. -/
structure World (ρ : Type) where
  registers : Registers
  random : ρ

/-- What happened in a tick. -/
structure Report where
  tick : Nat
  outcome : Outcome
  fault : Option Fault

namespace Report

/-- The tick neither faulted nor timed out. -/
def isClean (r : Report) : Bool :=
  r.fault.isNone && !r.outcome.timeout

/-- The last record of a tick with a budget of `limit` cycles. -/
def record (r : Report) (limit : Nat) : Record :=
  match r.fault with
  | some f => ⟨.error, s!"tick {r.tick}: {f.text}"⟩
  | none =>
    if r.outcome.timeout then
      ⟨.warn, s!"tick {r.tick}: timed out after {limit} cycles"⟩
    else
      ⟨.info, s!"tick {r.tick}: finished in {r.outcome.cycles} cycles"⟩

end Report

/-- Where a tick starts. -/
def Schedule.entryFor (c : Schedule) (r : Registers) : Option String :=
  r.resumption?.or c.entry

variable {ρ : Type} [Sampler ρ]

/-- Runs tick number `tick` of a program. -/
def Program.tick (p : Program) (c : Schedule) (tick : Nat) (w : World ρ) : Report × World ρ :=
  let x := p.execute c.limit (c.entryFor w.registers) w.registers w.random
  let sent := (Board.empty.submitAll x.machine.outbox).resolve
  (⟨tick, x.outcome, x.fault?⟩, ⟨x.machine.registers.overlay sent, x.machine.random⟩)

/-- Runs `count` ticks, numbered from `first`, behind the reports `past`,
latest first. -/
def Program.ticksFrom (p : Program) (c : Schedule) :
    (count first : Nat) → (past : List Report) → World ρ → List Report × World ρ
  | 0, _, past, w => (past.reverse, w)
  | count + 1, first, past, w =>
    let (report, w) := p.tick c first w
    p.ticksFrom c count (first + 1) (report :: past) w

/-- Runs a number of ticks: their reports, and what is left after the
last. -/
def Program.ticks (p : Program) (c : Schedule) (count : Nat) (w : World ρ) :
    List Report × World ρ :=
  p.ticksFrom c count 0 [] w

/-- The journal of one tick. -/
def Program.tickJournal (p : Program) (c : Schedule) (tick : Nat) (w : World ρ) : List Record :=
  p.journal c.limit (c.entryFor w.registers) w.registers w.random ++
    [(p.tick c tick w).1.record c.limit]

/-- The journal of `count` ticks, numbered from `first`, as a list of the
journals of each. -/
def Program.ticksJournal (p : Program) (c : Schedule) :
    (count first : Nat) → World ρ → List Record
  | 0, _, _ => []
  | count + 1, first, w =>
    p.tickJournal c first w ++ p.ticksJournal c count (first + 1) (p.tick c first w).2

end CritterScript
