import CritterScript.Proofs.Guards
import CritterScript.Proofs.Steps

/-!
# Runs and their budgets

A program may loop forever and jump anywhere; its run ends nevertheless, in
one of three ways. `Execution.Halts`, `Execution.TimesOut` and
`Execution.Faults` say what a host sees of each, and which steps the machine
took: a cycle is spent on every instruction that is started and on nothing
else. `execute_ends_in_one_way` is that every run ends in exactly one of
them.

The budget only says where a run is cut off. `execute_of_fault` compares a
run that faults with the one that is cut off right before the fault: between
them is what the failing instruction had done when it failed.
`execute_of_le` compares two budgets.
-/

namespace CritterScript

variable {ρ : Type} [Sampler ρ] {p : Program} {n : Nat} {s : Machine ρ} {x : Execution ρ}

namespace Execution

/-- The run `x` of the machine `s` with a budget of `n` cycles left the
program. -/
structure Halts (p : Program) (n : Nat) (s : Machine ρ) (x : Execution ρ) : Prop where
  fault : x.fault? = none
  timeout : x.outcome.timeout = false
  position : p.size ≤ x.machine.position
  cycles : x.cycles ≤ n
  steps : ∃ done, Steps p done s x.machine ∧ x.cycles = done.length

/-- The run `x` of the machine `s` with a budget of `n` cycles ran out of
them in front of an instruction, which it did not start. -/
structure TimesOut (p : Program) (n : Nat) (s : Machine ρ) (x : Execution ρ) : Prop where
  fault : x.fault? = none
  timeout : x.outcome.timeout = true
  position : x.machine.position < p.size
  cycles : x.cycles = n
  steps : ∃ done, Steps p done s x.machine ∧ x.cycles = done.length

/-- The run `x` of the machine `s` with a budget of `n` cycles failed at its
last instruction. -/
structure Faults (p : Program) (n : Nat) (s : Machine ρ) (x : Execution ρ) : Prop where
  timeout : x.outcome.timeout = false
  cycles_pos : 1 ≤ x.cycles
  cycles_le : x.cycles ≤ n
  steps : ∃ done t i c, Steps p done s t ∧ Fails p i c t x.machine ∧
    x.cycles = done.length + 1 ∧ x.fault? = some ⟨c, i.line⟩

theorem Halts.not_timesOut (h : Halts p n s x) : ¬ TimesOut p n s x :=
  fun k => Bool.false_ne_true (h.timeout.symm.trans k.timeout)

theorem Faults.not_halts (h : Faults p n s x) : ¬ Halts p n s x := by
  intro k
  obtain ⟨_, _, _, _, -, -, -, hf⟩ := h.steps
  rw [k.fault] at hf
  cases hf

theorem Faults.not_timesOut (h : Faults p n s x) : ¬ TimesOut p n s x :=
  fun k => Bool.false_ne_true (h.timeout.symm.trans k.timeout)

end Execution

/-! ## The three endings -/

/-- What a run amounts to for a host. -/
theorem Ends.seen (h : Ends p n 0 s x) : x.Halts p n s ∨ x.TimesOut p n s ∨ x.Faults p n s := by
  cases h with
  | @halted done t hs hl hp =>
    refine .inl ⟨rfl, rfl, hp, ?_, done, hs, Nat.zero_add _⟩
    show 0 + done.length ≤ n
    omega
  | @timedOut done t hs hl hp =>
    refine .inr (.inl ⟨rfl, rfl, hp, ?_, done, hs, Nat.zero_add _⟩)
    show 0 + done.length = n
    omega
  | @faulted done t u i c hs hl hf =>
    refine .inr (.inr ⟨rfl, ?_, ?_, done, t, i, c, hs, hf, Nat.zero_add _, rfl⟩)
    · show 1 ≤ 0 + (done.length + 1)
      omega
    · show 0 + (done.length + 1) ≤ n
      omega

/-- A run times out just if its machine takes as many steps as the budget
has cycles and is still inside the program. -/
theorem Ends.timeout_iff (h : Ends p n 0 s x) :
    x.outcome.timeout = true ↔
      ∃ done t, Steps p done s t ∧ done.length = n ∧ t.position < p.size := by
  constructor
  · intro ht
    obtain ⟨done, hs, hl, hp⟩ := h.of_timeout ht
    exact ⟨done, x.machine, hs, hl, hp⟩
  · rintro ⟨done, t, hs, hl, hp⟩
    -- the steps make up a run of their own, and there is only one
    rw [← h.run_eq, (Ends.timedOut hs hl hp).run_eq]
    rfl

/-- Every run of every program ends, without a lookup that finds nothing, and
in exactly one of three ways; it times out just if the whole budget goes into
steps that leave the machine inside the program. -/
theorem execute_ends_in_one_way (p : Program) (n : Nat) (entry : Option String) (r : Registers)
    (random : ρ) :
    let s := p.boot entry r random
    let x := p.execute n entry r random
    p.execute? n entry r random = some x ∧
      ((x.Halts p n s ∧ ¬ x.TimesOut p n s ∧ ¬ x.Faults p n s) ∨
        (¬ x.Halts p n s ∧ x.TimesOut p n s ∧ ¬ x.Faults p n s) ∨
        (¬ x.Halts p n s ∧ ¬ x.TimesOut p n s ∧ x.Faults p n s)) ∧
      (x.outcome.timeout = true ↔
        ∃ done t, Steps p done s t ∧ done.length = n ∧ t.position < p.size) := by
  intro s x
  have h : Ends p n 0 s x := execute_ends p n entry r random
  refine ⟨p.execute?_eq n entry r random, ?_, h.timeout_iff⟩
  obtain hh | ht | hf := h.seen
  · exact .inl ⟨hh, hh.not_timesOut, fun hf => hf.not_halts hh⟩
  · exact .inr (.inl ⟨fun hh => hh.not_timesOut ht, ht, fun hf => hf.not_timesOut ht⟩)
  · exact .inr (.inr ⟨hf.not_halts, hf.not_timesOut, hf⟩)

/-! ## The instruction that fails -/

/-- A run that faults after `c` cycles leaves the registers and messages of
the run that is cut off after `c - 1`: the instruction that fails changes
neither, and what the instructions before it did is kept. Nothing else changes
either, except that `RAND` has drawn its number. -/
theorem execute_of_fault (p : Program) (n : Nat) (entry : Option String) (r : Registers)
    (random : ρ) {f : Fault} (h : (p.execute n entry r random).fault? = some f) :
    let x := p.execute n entry r random
    let y := p.execute (x.cycles - 1) entry r random
    y.outcome.timeout = true ∧ y.fault? = none ∧ y.cycles = x.cycles - 1 ∧
      y.machine.registers = x.machine.registers ∧ y.outcome.messages = x.outcome.messages ∧
      ∃ i c, p.code[y.machine.position]? = some i ∧
        (i.perform p).run.run y.machine = (.error c, x.machine) ∧ f = ⟨c, i.line⟩ ∧
        (i.opcode ≠ .rand → y.machine = x.machine) := by
  intro x y
  have hx : Ends p n 0 (p.boot entry r random) x := execute_ends p n entry r random
  obtain ⟨done, t, i, c, hs, hl, hf, hc, rfl⟩ := hx.of_fault h
  have hlen : x.cycles - 1 = done.length := by omega
  have hy : y = ⟨t, done.length, .timedOut⟩ := by
    show p.execute (x.cycles - 1) entry r random = _
    rw [hlen, (Ends.timedOut hs rfl hf.position_lt).execute_eq, Nat.zero_add]
  obtain ⟨-, hr, ho, hsame⟩ := Machine.step_keeps hf.step
  rw [hy, hlen]
  exact ⟨rfl, rfl, rfl, hr.symm, ho.symm, i, c, hf.fetch, Machine.run_of_step hf.step, rfl,
    fun hop => (hsame hop).symm⟩

/-- The third instruction draws a number and then fails, for it has no register
to put it in. Before it a register was set and a message sent. -/
theorem execute_of_fault_rand :
    let p : Program := ⟨#[⟨.mov, [.literal (.label "@a"), .register "$x"], 0⟩,
      ⟨.send, [.literal (.number 1), .register "$x", .register "$out"], 1⟩,
      ⟨.rand, [.literal .null], 3⟩], ∅⟩
    let x := p.execute 9 none ∅ (SplitMix.ofSeed 7)
    let y := p.execute 2 none ∅ (SplitMix.ofSeed 7)
    x.fault? = some ⟨.malformed .rand, 3⟩ ∧ x.cycles = 3 ∧ y.outcome.timeout = true ∧
      y.machine.registers = x.machine.registers ∧ y.outcome.messages = x.outcome.messages ∧
      y.machine.random ≠ x.machine.random := by
  intro p x y
  have hf : x.fault? = some ⟨.malformed .rand, 3⟩ := rfl
  obtain ⟨ht, -, -, hr, ho, -⟩ := execute_of_fault p 9 none ∅ (SplitMix.ofSeed 7) hf
  exact ⟨hf, rfl, ht, hr, ho, by decide⟩

/-! ## Two budgets -/

theorem Ends.spent_le {budget spent : Nat} (h : Ends p budget spent s x) : spent ≤ x.cycles := by
  cases h <;> exact Nat.le_add_right ..

/-- A run that is over before its budget is, does not see a larger one. -/
theorem Ends.mono {m spent : Nat} (h : Ends p n spent s x) (ht : x.outcome.timeout = false)
    (hm : n ≤ m) : Ends p m spent s x := by
  cases h with
  | halted hs hl hp => exact .halted hs (Nat.le_trans hl hm) hp
  | timedOut => exact Bool.noConfusion ht
  | faulted hs hl hf => exact .faulted hs (Nat.lt_of_lt_of_le hl hm) hf

/-- With a larger budget a run that is over stays as it is, and a run that
timed out goes on from where it was cut off. -/
theorem execute_of_le (p : Program) {n m : Nat} (hm : n ≤ m) (entry : Option String)
    (r : Registers) (random : ρ) :
    let x := p.execute n entry r random
    let y := p.execute m entry r random
    (x.outcome.timeout = false → y = x) ∧
      (x.outcome.timeout = true →
        n ≤ y.cycles ∧ Ends p (m - n) n x.machine y ∧ y = x.machine.run p (m - n) n) := by
  intro x y
  have hx : Ends p n 0 (p.boot entry r random) x := execute_ends p n entry r random
  constructor
  · intro ht
    exact (hx.mono ht hm).execute_eq
  · intro ht
    obtain ⟨done, hs, hl, -⟩ := hx.of_timeout ht
    have hy : y = x.machine.run p (m - n) n := by
      have hm' : done.length + (m - n) = m := by omega
      have hrun := hs.run_add (m - n) 0
      rw [hm', Nat.zero_add, hl] at hrun
      exact hrun
    have hends : Ends p (m - n) n x.machine y := by
      rw [hy]
      exact run_ends p (m - n) n x.machine
    exact ⟨hends.spent_le, hends, hy⟩

/-- A program of two instructions, with a budget of one, two and nine
cycles. -/
theorem execute_of_le_one_two_nine :
    let p : Program := ⟨#[⟨.mov, [.literal .null, .register "$x"], 0⟩, ⟨.ret, [], 1⟩], ∅⟩
    let x := fun n => p.execute n none ∅ (SplitMix.ofSeed 7)
    1 ≤ 2 ∧ (x 1).outcome.timeout = true ∧ 1 ≤ (x 2).cycles ∧ Ends p 1 1 (x 1).machine (x 2) ∧
      2 ≤ 9 ∧ (x 2).outcome.timeout = false ∧ x 9 = x 2 := by
  intro p x
  have h₁ := (execute_of_le p (by decide : 1 ≤ 2) none ∅ (SplitMix.ofSeed 7)).2 rfl
  have h₂ := (execute_of_le p (by decide : 2 ≤ 9) none ∅ (SplitMix.ofSeed 7)).1 rfl
  exact ⟨by decide, rfl, h₁.1, h₁.2.1, by decide, rfl, h₂⟩

end CritterScript
