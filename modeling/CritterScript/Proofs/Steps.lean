import CritterScript.Machine.Run
import CritterScript.Proofs.Atomicity

/-!
# The steps of a run

A machine inside its program does one of two things with the instruction it
stands at: it completes it (`Completes`) or fails at it (`Fails`). `Steps`
chains completed instructions and lists them, in order, with the effect each
had. None of this knows of a budget.

`Ends` says how a run with a budget ends, in these terms: outside the
program, or after as many steps as the budget has cycles, or at an
instruction that fails. `run_ends` and `Ends.run_eq` show that this is what
`Machine.run` computes, so that statements about runs can be proved on steps.
-/

namespace CritterScript

/-- A completed instruction and what it did. -/
structure Event where
  instruction : Instruction
  effect : Effect

variable {ρ : Type} [Sampler ρ] {p : Program}

/-- The machine `s` completes the instruction it stands at, which leads to
`t`. -/
structure Completes (p : Program) (e : Event) (s t : Machine ρ) : Prop where
  fetch : p.code[s.position]? = some e.instruction
  effect : e.instruction.effect p s.registers (s.draw e.instruction).1 = .ok e.effect
  step : s.step p e.instruction = (t, none)

/-- The machine `s` fails at the instruction it stands at, which leaves
`t`. -/
structure Fails (p : Program) (i : Instruction) (c : Cause) (s t : Machine ρ) : Prop where
  fetch : p.code[s.position]? = some i
  step : s.step p i = (t, some c)

/-- The machine `s` completes the listed instructions one after the other,
which leads to `t`. -/
inductive Steps (p : Program) : List Event → Machine ρ → Machine ρ → Prop
  | nil (s : Machine ρ) : Steps p [] s s
  | cons {e : Event} {done : List Event} {s t u : Machine ρ} :
    Completes p e s t → Steps p done t u → Steps p (e :: done) s u

/-! ## One instruction -/

theorem Fails.position_lt {i : Instruction} {c : Cause} {s t : Machine ρ}
    (h : Fails p i c s t) : s.position < p.size :=
  (Array.getElem?_eq_some_iff.mp h.fetch).1

theorem Completes.of_effect {e : Event} {s t : Machine ρ}
    (hfetch : p.code[s.position]? = some e.instruction)
    (heffect : e.instruction.effect p s.registers (s.draw e.instruction).1 = .ok e.effect)
    (hresult : t = { s with random := (s.draw e.instruction).2 }.apply e.effect) :
    Completes p e s t := by
  refine ⟨hfetch, heffect, ?_⟩
  rw [Machine.step_eq, heffect, hresult]

theorem Completes.result {e : Event} {s t : Machine ρ} (h : Completes p e s t) :
    t = { s with random := (s.draw e.instruction).2 }.apply e.effect := by
  have hstep := h.step
  rw [Machine.step_eq, h.effect] at hstep
  exact (Prod.mk.inj hstep).1.symm

theorem Fails.of_effect {i : Instruction} {c : Cause} {s t : Machine ρ}
    (hfetch : p.code[s.position]? = some i)
    (heffect : i.effect p s.registers (s.draw i).1 = .error c)
    (hresult : t = { s with random := (s.draw i).2 }) : Fails p i c s t := by
  refine ⟨hfetch, ?_⟩
  rw [Machine.step_eq, heffect, hresult]

theorem Fails.effect {i : Instruction} {c : Cause} {s t : Machine ρ} (h : Fails p i c s t) :
    i.effect p s.registers (s.draw i).1 = .error c :=
  (Machine.effect_of_step h.step).1

theorem Fails.result {i : Instruction} {c : Cause} {s t : Machine ρ} (h : Fails p i c s t) :
    t = { s with random := (s.draw i).2 } :=
  (Machine.effect_of_step h.step).2

theorem Fails.keeps {i : Instruction} {c : Cause} {s t : Machine ρ} (h : Fails p i c s t) :
    t.position = s.position ∧ t.registers = s.registers ∧ t.outbox = s.outbox := by
  obtain ⟨hposition, hregisters, houtbox, -⟩ := Machine.step_keeps h.step
  exact ⟨hposition, hregisters, houtbox⟩

/-- Inside the program there is always something to do. -/
theorem completes_or_fails (s : Machine ρ) (h : s.position < p.size) :
    (∃ e t, Completes p e s t) ∨ ∃ i c t, Fails p i c s t := by
  have hi : p.code[s.position]? = some p.code[s.position] := Array.getElem?_eq_getElem h
  cases he : p.code[s.position].effect p s.registers (s.draw p.code[s.position]).1 with
  | ok e => exact .inl ⟨⟨_, e⟩, _, .of_effect hi he rfl⟩
  | error c => exact .inr ⟨_, c, _, .of_effect hi he rfl⟩

/-! ## Runs -/

theorem run_of_size_le {s : Machine ρ} (h : p.size ≤ s.position) (budget spent : Nat) :
    s.run p budget spent = ⟨s, spent, .halted⟩ := by
  have hn : p.code[s.position]? = none := Array.getElem?_eq_none h
  rw [Machine.run]
  simp only [hn]

theorem run_zero {s : Machine ρ} (h : s.position < p.size) (spent : Nat) :
    s.run p 0 spent = ⟨s, spent, .timedOut⟩ := by
  have hi : p.code[s.position]? = some p.code[s.position] := Array.getElem?_eq_getElem h
  rw [Machine.run]
  simp only [hi]

theorem Completes.run_succ {e : Event} {s t : Machine ρ} (h : Completes p e s t)
    (budget spent : Nat) : s.run p (budget + 1) spent = t.run p budget (spent + 1) := by
  rw [Machine.run]
  simp only [h.fetch, h.step]

theorem Fails.run_succ {i : Instruction} {c : Cause} {s t : Machine ρ} (h : Fails p i c s t)
    (budget spent : Nat) :
    s.run p (budget + 1) spent = ⟨t, spent + 1, .faulted ⟨c, i.line⟩⟩ := by
  rw [Machine.run]
  simp only [h.fetch, h.step]

/-- A run goes along the steps of its machine, and every step costs one
cycle. -/
theorem Steps.run_add {done : List Event} {s t : Machine ρ} (h : Steps p done s t)
    (budget spent : Nat) :
    s.run p (done.length + budget) spent = t.run p budget (spent + done.length) := by
  induction h generalizing spent with
  | nil => rw [List.length_nil, Nat.zero_add, Nat.add_zero]
  | @cons e done s t u hc _ ih =>
    rw [List.length_cons, show done.length + 1 + budget = done.length + budget + 1 by omega,
      hc.run_succ, ih, show spent + 1 + done.length = spent + (done.length + 1) by omega]

/-- How a run of the machine `s` ends that has `budget` cycles left and has
spent `spent` before. -/
inductive Ends (p : Program) (budget spent : Nat) (s : Machine ρ) : Execution ρ → Prop
  | halted {done : List Event} {t : Machine ρ} :
    Steps p done s t → done.length ≤ budget → p.size ≤ t.position →
    Ends p budget spent s ⟨t, spent + done.length, .halted⟩
  | timedOut {done : List Event} {t : Machine ρ} :
    Steps p done s t → done.length = budget → t.position < p.size →
    Ends p budget spent s ⟨t, spent + done.length, .timedOut⟩
  | faulted {done : List Event} {t u : Machine ρ} {i : Instruction} {c : Cause} :
    Steps p done s t → done.length < budget → Fails p i c t u →
    Ends p budget spent s ⟨u, spent + (done.length + 1), .faulted ⟨c, i.line⟩⟩

theorem Ends.of_timeout {budget spent : Nat} {s : Machine ρ} {x : Execution ρ}
    (h : Ends p budget spent s x) (ht : x.outcome.timeout = true) :
    ∃ done, Steps p done s x.machine ∧ done.length = budget ∧ x.machine.position < p.size := by
  cases h with
  | halted => exact Bool.noConfusion ht
  | @timedOut done t hs hl hp => exact ⟨done, hs, hl, hp⟩
  | faulted => exact Bool.noConfusion ht

theorem Ends.of_fault {budget spent : Nat} {s : Machine ρ} {x : Execution ρ} {f : Fault}
    (h : Ends p budget spent s x) (hx : x.fault? = some f) :
    ∃ done t i c, Steps p done s t ∧ done.length < budget ∧ Fails p i c t x.machine ∧
      x.cycles = spent + (done.length + 1) ∧ f = ⟨c, i.line⟩ := by
  cases h with
  | halted => cases hx
  | timedOut => cases hx
  | @faulted done t u i c hs hl hf =>
    exact ⟨done, t, i, c, hs, hl, hf, rfl, (Option.some.inj hx).symm⟩

/-- A completed instruction in front of a run. -/
theorem Ends.cons {e : Event} {s t : Machine ρ} {budget spent : Nat} {x : Execution ρ}
    (hc : Completes p e s t) (h : Ends p budget (spent + 1) t x) :
    Ends p (budget + 1) spent s x := by
  have shift : ∀ done : List Event, ∀ k, spent + 1 + (done.length + k) =
      spent + ((e :: done).length + k) := fun done k => by rw [List.length_cons]; omega
  cases h with
  | @halted done _ hs hl hp =>
    rw [← Nat.add_zero done.length, shift]
    exact .halted (.cons hc hs) (Nat.succ_le_succ hl) hp
  | @timedOut done _ hs hl hp =>
    rw [← Nat.add_zero done.length, shift]
    exact .timedOut (.cons hc hs) (congrArg (· + 1) hl) hp
  | @faulted done _ _ _ _ hs hl hf =>
    rw [shift]
    exact .faulted (.cons hc hs) (Nat.succ_lt_succ hl) hf

theorem run_ends (p : Program) (budget spent : Nat) (s : Machine ρ) :
    Ends p budget spent s (s.run p budget spent) := by
  induction budget generalizing spent s with
  | zero =>
    by_cases h : s.position < p.size
    · rw [run_zero h]
      exact .timedOut (.nil s) rfl h
    · rw [run_of_size_le (Nat.le_of_not_lt h)]
      exact .halted (.nil s) (Nat.le_refl 0) (Nat.le_of_not_lt h)
  | succ budget ih =>
    by_cases h : s.position < p.size
    · obtain ⟨e, t, hc⟩ | ⟨i, c, t, hf⟩ := completes_or_fails s h
      · rw [hc.run_succ]
        exact .cons hc (ih (spent + 1) t)
      · rw [hf.run_succ]
        exact .faulted (.nil s) (Nat.succ_pos budget) hf
    · rw [run_of_size_le (Nat.le_of_not_lt h)]
      exact .halted (.nil s) (Nat.zero_le _) (Nat.le_of_not_lt h)

/-- A run ends in one way only. -/
theorem Ends.run_eq {budget spent : Nat} {s : Machine ρ} {x : Execution ρ}
    (h : Ends p budget spent s x) : s.run p budget spent = x := by
  cases h with
  | @halted done t hs hl hp =>
    rw [← Nat.add_sub_of_le hl, hs.run_add, run_of_size_le hp]
  | @timedOut done t hs hl hp =>
    rw [← hl, ← Nat.add_zero done.length, hs.run_add, run_zero hp, Nat.add_zero]
  | @faulted done t u i c hs hl hf =>
    rw [show budget = done.length + (budget - done.length - 1 + 1) by omega, hs.run_add,
      hf.run_succ, Nat.add_assoc]

/-- What was spent before counts among the cycles and does nothing else. -/
theorem run_add_spent (p : Program) (budget spent n : Nat) (s : Machine ρ) :
    s.run p budget (spent + n) =
      { s.run p budget spent with cycles := (s.run p budget spent).cycles + n } := by
  apply Ends.run_eq
  have hends := run_ends p budget spent s
  generalize s.run p budget spent = x at hends
  cases hends with
  | @halted done t hs hl hp =>
    rw [Nat.add_right_comm]
    exact .halted hs hl hp
  | @timedOut done t hs hl hp =>
    rw [Nat.add_right_comm]
    exact .timedOut hs hl hp
  | @faulted done t u i c hs hl hf =>
    rw [Nat.add_right_comm]
    exact .faulted hs hl hf

theorem execute_ends (p : Program) (limit : Nat) (entry : Option String) (r : Registers)
    (random : ρ) :
    Ends p limit 0 (p.boot entry r random) (p.execute limit entry r random) :=
  run_ends p limit 0 _

theorem Ends.execute_eq {limit : Nat} {entry : Option String} {r : Registers} {random : ρ}
    {x : Execution ρ} (h : Ends p limit 0 (p.boot entry r random) x) :
    p.execute limit entry r random = x :=
  h.run_eq

end CritterScript
