import CritterScript.Proofs.Frames
import CritterScript.Proofs.Lockstep
import Mathlib

/-!
# Random numbers and who draws them

Only `RAND` draws, and it draws once. `Machine.attempts` lists the
instructions that a run starts, with what came of each, and `Draws` says that
the `RAND`s among some attempts took the numbers of a source in their order:
the first got the first number, and so on, and what is left of the source is
what follows the last. This holds of one attempt and goes on from one list of
attempts to the next (`Draws.append`), whether they belong to one run, to
runs that share a source (`draws_attemptsOf`) or to ticks (`draws_tickJobs`).

Nothing else of a source is looked at. Two sources that begin with the same
numbers, as many as a run draws, cannot be told apart by it
(`Machine.Matches.run`). `randomness_of_runs` collects what this means for a
host.
-/

namespace CritterScript

/-! ## Sources -/

namespace Sampler

variable {ρ : Type} [Sampler ρ]

/-- The source after `n` draws. -/
def advance : Nat → ρ → ρ
  | 0, random => random
  | n + 1, random => advance n (draw random).2

/-- Number `j` of those that a source gives, counted from zero. -/
def sample (random : ρ) (j : Nat) : Float :=
  (draw (advance j random)).1

theorem advance_add (m n : Nat) (random : ρ) :
    advance (m + n) random = advance n (advance m random) := by
  induction m generalizing random with
  | zero => rw [Nat.zero_add]; rfl
  | succ m ih =>
    rw [Nat.succ_add]
    exact ih (draw random).2

theorem sample_advance (m j : Nat) (random : ρ) :
    sample (advance m random) j = sample random (m + j) := by
  rw [sample, sample, advance_add]

end Sampler

open Sampler

/-! ## Attempts -/

/-- An instruction that was started, and what came of it. -/
structure Attempt where
  instruction : Instruction
  answer : Except Cause Effect

def Attempt.isRand (a : Attempt) : Bool :=
  a.instruction.opcode = .rand

/-- A completed instruction, as an attempt. -/
def Event.attempt (e : Event) : Attempt :=
  ⟨e.instruction, .ok e.effect⟩

/-- The attempts of `RAND`, in their order. -/
def rands (attempts : List Attempt) : List Attempt :=
  attempts.filter Attempt.isRand

theorem rands_append (as bs : List Attempt) : rands (as ++ bs) = rands as ++ rands bs :=
  List.filter_append as bs

section Attempts

variable {ρ : Type} [Sampler ρ]

/-- The instructions that a run with a budget starts, in their order. -/
def Machine.attempts (p : Program) : (budget : Nat) → Machine ρ → List Attempt
  | budget, s =>
    match p.code[s.position]? with
    | none => []
    | some i =>
      match budget with
      | 0 => []
      | budget + 1 =>
        ⟨i, i.effect p s.registers (s.draw i).1⟩ ::
          match s.step p i with
          | (s, none) => Machine.attempts p budget s
          | (_, some _) => []

variable {p : Program} {s t : Machine ρ}

theorem attempts_of_size_le (h : p.size ≤ s.position) (budget : Nat) :
    s.attempts p budget = [] := by
  have hn : p.code[s.position]? = none := Array.getElem?_eq_none h
  rw [Machine.attempts]
  simp only [hn]

theorem attempts_zero (h : s.position < p.size) : s.attempts p 0 = [] := by
  have hi : p.code[s.position]? = some p.code[s.position] := Array.getElem?_eq_getElem h
  rw [Machine.attempts]
  simp only [hi]

theorem Completes.attempts_succ {e : Event} (h : Completes p e s t) (budget : Nat) :
    s.attempts p (budget + 1) = e.attempt :: t.attempts p budget := by
  rw [Machine.attempts, Event.attempt]
  simp only [h.fetch, h.step, h.effect]

theorem Fails.attempts_succ {i : Instruction} {c : Cause} (h : Fails p i c s t) (budget : Nat) :
    s.attempts p (budget + 1) = [⟨i, .error c⟩] := by
  rw [Machine.attempts]
  simp only [h.fetch, h.step, h.effect]

/-- What is true of a run outside the program, out of budget and at an
instruction that fails, and goes on from one instruction to the next, is true
of all runs. -/
theorem run_induction {motive : Nat → Machine ρ → Prop}
    (halted : ∀ budget s, p.size ≤ s.position → motive budget s)
    (timedOut : ∀ s, s.position < p.size → motive 0 s)
    (faulted : ∀ budget s t i c, Fails p i c s t → motive (budget + 1) s)
    (completed : ∀ budget s t e, Completes p e s t → motive budget t → motive (budget + 1) s)
    (budget : Nat) (s : Machine ρ) : motive budget s := by
  induction budget generalizing s with
  | zero =>
    by_cases h : s.position < p.size
    · exact timedOut s h
    · exact halted 0 s (Nat.le_of_not_lt h)
  | succ budget ih =>
    by_cases h : s.position < p.size
    · obtain ⟨e, t, hc⟩ | ⟨i, c, t, hf⟩ := completes_or_fails s h
      · exact completed budget s t e hc (ih t)
      · exact faulted budget s t i c hf
    · exact halted (budget + 1) s (Nat.le_of_not_lt h)

/-- Every instruction that is started costs a cycle. -/
theorem cycles_run (p : Program) (budget spent : Nat) (s : Machine ρ) :
    (s.run p budget spent).cycles = spent + (s.attempts p budget).length := by
  induction budget, s using @run_induction ρ ‹_› p generalizing spent with
  | halted budget s h => rw [run_of_size_le h, attempts_of_size_le h]; rfl
  | timedOut s h => rw [run_zero h, attempts_zero h]; rfl
  | faulted budget s t i c h => rw [h.run_succ, h.attempts_succ]; rfl
  | completed budget s t e h ih =>
    rw [h.run_succ, h.attempts_succ, ih, List.length_cons]
    omega

theorem Steps.attempts_add {done : List Event} (h : Steps p done s t) (budget : Nat) :
    s.attempts p (done.length + budget) = done.map Event.attempt ++ t.attempts p budget := by
  induction h with
  | nil => rw [List.length_nil, Nat.zero_add, List.map_nil, List.nil_append]
  | @cons e done s t u hc _ ih =>
    rw [List.length_cons, Nat.add_right_comm, hc.attempts_succ, ih, List.map_cons,
      List.cons_append]

/-- A run starts the instructions that it completes and, if it faults, one more
that fails. -/
theorem Ends.attempts_eq {budget : Nat} {x : Execution ρ} (h : Ends p budget 0 s x) :
    ∃ done failed, x.Completed p s done ∧
      s.attempts p budget = done.map Event.attempt ++ failed ∧
      failed.map Attempt.answer = x.fault?.toList.map fun f => .error f.cause := by
  cases h with
  | @halted done t hs hl hp =>
    have hadd := hs.attempts_add (budget - done.length)
    rw [attempts_of_size_le hp, Nat.add_sub_of_le hl] at hadd
    exact ⟨done, [], .stopped hs rfl (Nat.zero_add _), hadd, rfl⟩
  | @timedOut done t hs hl hp =>
    have hadd := hs.attempts_add 0
    rw [attempts_zero hp, Nat.add_zero, hl] at hadd
    exact ⟨done, [], .stopped hs rfl (Nat.zero_add _), hadd, rfl⟩
  | @faulted done t u i c hs hl hf =>
    have hadd := hs.attempts_add (budget - done.length - 1 + 1)
    rw [hf.attempts_succ,
      show done.length + (budget - done.length - 1 + 1) = budget by omega] at hadd
    exact ⟨done, [⟨i, .error c⟩], .faulted hs hf rfl (Nat.zero_add _), hadd, rfl⟩

end Attempts

/-! ## Draws -/

/-- The `RAND`s among the attempts drew from a source the numbers that it
gives, in their order, each to store it at its target, and `after` is what they
left of the source. -/
structure Draws {ρ : Type} [Sampler ρ] (attempts : List Attempt) (random after : ρ) : Prop where
  after_eq : after = advance (rands attempts).length random
  answer {j : Nat} {a : Attempt} : (rands attempts)[j]? = some a →
    a.answer = a.instruction.storeAt 0 (.number (sample random j))

theorem Machine.apply_random {ρ : Type} (s : Machine ρ) (e : Effect) :
    (s.apply e).random = s.random := by
  cases e <;> rfl

section Draws

variable {ρ : Type} [Sampler ρ] {p : Program}

theorem Draws.nil (random : ρ) : Draws [] random random :=
  ⟨rfl, fun h => by cases h⟩

/-- Draws go on where those before them have stopped. -/
theorem Draws.append {as bs : List Attempt} {random mid after : ρ} (ha : Draws as random mid)
    (hb : Draws bs mid after) : Draws (as ++ bs) random after where
  after_eq := by
    rw [rands_append, List.length_append, advance_add, ← ha.after_eq]
    exact hb.after_eq
  answer := by
    intro j a h
    rw [rands_append] at h
    by_cases hj : j < (rands as).length
    · rw [List.getElem?_append_left hj] at h
      exact ha.answer h
    · have hsplit : j = (rands as).length + (j - (rands as).length) := by omega
      rw [List.getElem?_append_right (Nat.le_of_not_lt hj)] at h
      rw [hb.answer h, ha.after_eq, sample_advance, ← hsplit]

/-- One instruction draws if it is a `RAND`, and else not. -/
theorem draws_attempt (p : Program) (i : Instruction) (s : Machine ρ) :
    Draws [⟨i, i.effect p s.registers (s.draw i).1⟩] s.random (s.draw i).2 := by
  by_cases hop : i.opcode = .rand
  · have hrands : rands [⟨i, i.effect p s.registers (s.draw i).1⟩] =
        [⟨i, i.effect p s.registers (s.draw i).1⟩] :=
      List.filter_cons_of_pos (decide_eq_true hop)
    refine ⟨?_, fun {j a} h => ?_⟩
    · rw [hrands, Machine.draw, if_pos hop]
      rfl
    · rw [hrands] at h
      cases j with
      | zero =>
        obtain rfl := Option.some.inj h
        simp only [Machine.draw, Instruction.effect, hop]
        rfl
      | succ j => cases h
  · have hrands : rands [⟨i, i.effect p s.registers (s.draw i).1⟩] = [] :=
      List.filter_cons_of_neg (by simpa [Attempt.isRand] using hop)
    refine ⟨?_, fun {j a} h => ?_⟩
    · rw [hrands, Machine.draw, if_neg hop]
      rfl
    · rw [hrands] at h
      cases h

theorem Completes.draws {e : Event} {s t : Machine ρ} (h : Completes p e s t) :
    Draws [e.attempt] s.random t.random := by
  have hdraws := draws_attempt p e.instruction s
  rw [h.result, Machine.apply_random]
  rwa [h.effect] at hdraws

theorem Fails.draws {i : Instruction} {c : Cause} {s t : Machine ρ} (h : Fails p i c s t) :
    Draws [⟨i, .error c⟩] s.random t.random := by
  have hdraws := draws_attempt p i s
  rw [h.result]
  rwa [h.effect] at hdraws

theorem draws_run (p : Program) (budget spent : Nat) (s : Machine ρ) :
    Draws (s.attempts p budget) s.random (s.run p budget spent).machine.random := by
  induction budget, s using @run_induction ρ ‹_› p generalizing spent with
  | halted budget s h => rw [run_of_size_le h, attempts_of_size_le h]; exact .nil _
  | timedOut s h => rw [run_zero h, attempts_zero h]; exact .nil _
  | faulted budget s t i c h => rw [h.run_succ, h.attempts_succ]; exact h.draws
  | completed budget s t e h ih =>
    rw [h.run_succ, h.attempts_succ]
    exact h.draws.append (ih (spent + 1))

/-- Of the completed instructions, the `RAND`s store the numbers of the source
one by one. -/
theorem Draws.store_of_done {done : List Event} {failed : List Attempt} {random after : ρ}
    (h : Draws (done.map Event.attempt ++ failed) random after) {j : Nat} {e : Event}
    (he : (done.filter (·.instruction.opcode = .rand))[j]? = some e) :
    ∃ name, e.instruction.target 0 = .ok name ∧
      e.effect = .store name (.number (sample random j)) := by
  have hdone : rands (done.map Event.attempt) =
      (done.filter (·.instruction.opcode = .rand)).map Event.attempt := List.filter_map
  have hj : (rands (done.map Event.attempt ++ failed))[j]? = some e.attempt := by
    rw [rands_append, List.getElem?_append_left, hdone, List.getElem?_map, he]
    · rfl
    · rw [hdone, List.length_map]
      exact (List.getElem?_eq_some_iff.mp he).1
  have hanswer : .ok e.effect = e.instruction.storeAt 0 (.number (sample random j)) := h.answer hj
  rw [Instruction.storeAt] at hanswer
  cases htarget : e.instruction.target 0 with
  | error c =>
    rw [htarget] at hanswer
    cases hanswer
  | ok name =>
    rw [htarget] at hanswer
    exact ⟨name, rfl, Except.ok.inj hanswer⟩

end Draws

/-! ## Runs that share a source -/

/-- A run that is to be made. -/
structure Job where
  program : Program
  limit : Nat
  entry : Option String
  registers : Registers

section Jobs

variable {ρ : Type} [Sampler ρ]

def Job.run (job : Job) (random : ρ) : Execution ρ :=
  job.program.execute job.limit job.entry job.registers random

/-- The instructions that the run starts. -/
def Job.attempts (job : Job) (random : ρ) : List Attempt :=
  (job.program.boot job.entry job.registers random).attempts job.program job.limit

/-- The source after runs that come one after the other. -/
def afterJobs : List Job → ρ → ρ
  | [], random => random
  | job :: jobs, random => afterJobs jobs (job.run random).machine.random

/-- The instructions that runs start which come one after the other. -/
def attemptsOf : List Job → ρ → List Attempt
  | [], _ => []
  | job :: jobs, random => job.attempts random ++ attemptsOf jobs (job.run random).machine.random

theorem Job.draws (job : Job) (random : ρ) :
    Draws (job.attempts random) random (job.run random).machine.random :=
  draws_run job.program job.limit 0 _

theorem draws_attemptsOf (jobs : List Job) (random : ρ) :
    Draws (attemptsOf jobs random) random (afterJobs jobs random) := by
  induction jobs generalizing random with
  | nil => exact .nil random
  | cons job jobs ih => exact (job.draws random).append (ih _)

theorem afterJobs_concat (jobs : List Job) (job : Job) (random : ρ) :
    afterJobs (jobs ++ [job]) random = (job.run (afterJobs jobs random)).machine.random := by
  induction jobs generalizing random with
  | nil => rfl
  | cons first jobs ih => exact ih _

theorem attemptsOf_concat (jobs : List Job) (job : Job) (random : ρ) :
    attemptsOf (jobs ++ [job]) random =
      attemptsOf jobs random ++ job.attempts (afterJobs jobs random) := by
  induction jobs generalizing random with
  | nil => simp [attemptsOf, afterJobs]
  | cons first jobs ih =>
    rw [List.cons_append, attemptsOf, ih, attemptsOf, List.append_assoc]
    rfl

/-- The run of a tick. -/
def Program.tickJob (p : Program) (c : Schedule) (r : Registers) : Job :=
  ⟨p, c.limit, c.entryFor r, r⟩

/-- The runs of a number of ticks. -/
def Program.tickJobs (p : Program) (c : Schedule) (count : Nat) (w : World ρ) : List Job :=
  (List.range count).map fun k => p.tickJob c (p.ticks c k w).2.registers

theorem tickJobs_succ (p : Program) (c : Schedule) (count : Nat) (w : World ρ) :
    p.tickJobs c (count + 1) w =
      p.tickJobs c count w ++ [p.tickJob c (p.ticks c count w).2.registers] := by
  rw [Program.tickJobs, List.range_succ, List.map_append]
  rfl

theorem afterJobs_tickJobs (p : Program) (c : Schedule) (count : Nat) (w : World ρ) :
    afterJobs (p.tickJobs c count w) w.random = (p.ticks c count w).2.random := by
  induction count with
  | zero => rfl
  | succ count ih =>
    rw [tickJobs_succ, afterJobs_concat, ih, ticks_succ]
    rfl

theorem draws_tickJobs (p : Program) (c : Schedule) (count : Nat) (w : World ρ) :
    Draws (attemptsOf (p.tickJobs c count w) w.random) w.random
      (p.ticks c count w).2.random := by
  rw [← afterJobs_tickJobs]
  exact draws_attemptsOf _ _

end Jobs

/-! ## Sources that begin alike -/

section Matches

variable {ρ σ : Type}

/-- The machines differ at most in their sources of random numbers. -/
structure Machine.Matches (s : Machine ρ) (t : Machine σ) : Prop where
  position : t.position = s.position
  registers : t.registers = s.registers
  outbox : t.outbox = s.outbox

theorem Machine.Matches.apply {s : Machine ρ} {t : Machine σ} (h : s.Matches t) (e : Effect) :
    (s.apply e).Matches (t.apply e) := by
  obtain ⟨hposition, hregisters, houtbox⟩ := h
  cases e with
  | store name v =>
    exact ⟨congrArg (· + 1) hposition, congrArg (·.set name v) hregisters, houtbox⟩
  | post key m => exact ⟨congrArg (· + 1) hposition, hregisters, congrArg (·.post key m) houtbox⟩
  | jump position => exact ⟨rfl, hregisters, houtbox⟩
  | skip => exact ⟨congrArg (· + 1) hposition, hregisters, houtbox⟩

variable [Sampler ρ] [Sampler σ]

/-- The sources begin with the same `n` numbers. -/
def SameSamples (n : Nat) (random : ρ) (random' : σ) : Prop :=
  ∀ j < n, sample random' j = sample random j

theorem SameSamples.advance {m n : Nat} {random : ρ} {random' : σ}
    (h : SameSamples (m + n) random random') :
    SameSamples n (advance m random) (advance m random') := by
  intro j hj
  rw [sample_advance, sample_advance]
  exact h (m + j) (by omega)

namespace Machine.Matches

variable {p : Program} {s u : Machine ρ} {t : Machine σ} {i : Instruction}

/-- The effect of an instruction is the same if a `RAND` gets the same
number. -/
theorem effect_eq (h : s.Matches t) {answer : Except Cause Effect}
    (hsame : SameSamples (rands [⟨i, answer⟩]).length s.random t.random) :
    i.effect p t.registers (t.draw i).1 = i.effect p s.registers (s.draw i).1 := by
  rw [h.registers, Machine.draw, Machine.draw]
  by_cases hop : i.opcode = .rand
  · have hrands : rands [⟨i, answer⟩] = [⟨i, answer⟩] :=
      List.filter_cons_of_pos (decide_eq_true hop)
    rw [hrands] at hsame
    have hfirst : (Sampler.draw t.random).1 = (Sampler.draw s.random).1 := hsame 0 Nat.one_pos
    rw [if_pos hop, if_pos hop, hfirst]
  · rw [if_neg hop, if_neg hop]

theorem completes {e : Event} (h : s.Matches t) (hc : Completes p e s u)
    (hsame : SameSamples (rands [e.attempt]).length s.random t.random) :
    ∃ v, Completes p e t v ∧ u.Matches v := by
  have hfetch : p.code[t.position]? = some e.instruction := by rw [h.position, hc.fetch]
  refine ⟨_, .of_effect hfetch (by rw [h.effect_eq hsame, hc.effect]) rfl, ?_⟩
  have hdrawn : { s with random := (s.draw e.instruction).2 }.Matches
      { t with random := (t.draw e.instruction).2 } := ⟨h.position, h.registers, h.outbox⟩
  rw [hc.result]
  exact hdrawn.apply e.effect

theorem fails {c : Cause} (h : s.Matches t) (hf : Fails p i c s u)
    (hsame : SameSamples (rands [⟨i, .error c⟩]).length s.random t.random) :
    ∃ v, Fails p i c t v ∧ u.Matches v := by
  have hfetch : p.code[t.position]? = some i := by rw [h.position, hf.fetch]
  refine ⟨_, .of_effect hfetch (by rw [h.effect_eq hsame, hf.effect]) rfl, ?_⟩
  rw [hf.result]
  exact ⟨h.position, h.registers, h.outbox⟩

/-- A run cannot tell two sources apart that begin with as many numbers as it
draws. -/
theorem run (p : Program) (budget spent : Nat) {s : Machine ρ} {t : Machine σ} (h : s.Matches t)
    (hsame : SameSamples (rands (s.attempts p budget)).length s.random t.random) :
    t.attempts p budget = s.attempts p budget ∧
      (s.run p budget spent).Alike Machine.Matches Eq (t.run p budget spent) := by
  induction budget, s using @run_induction ρ ‹_› p generalizing spent t with
  | halted budget s hs =>
    have ht : p.size ≤ t.position := h.position ▸ hs
    rw [attempts_of_size_le hs, attempts_of_size_le ht, run_of_size_le hs, run_of_size_le ht]
    exact ⟨rfl, h, rfl, .halted⟩
  | timedOut s hs =>
    have ht : t.position < p.size := h.position ▸ hs
    rw [attempts_zero hs, attempts_zero ht, run_zero hs, run_zero ht]
    exact ⟨rfl, h, rfl, .timedOut⟩
  | faulted budget s u i c hf =>
    rw [hf.attempts_succ] at hsame
    obtain ⟨v, hf', huv⟩ := h.fails hf hsame
    rw [hf.attempts_succ, hf'.attempts_succ, hf.run_succ, hf'.run_succ]
    exact ⟨rfl, huv, rfl, .faulted rfl⟩
  | completed budget s u e hc ih =>
    rw [hc.attempts_succ, ← List.singleton_append, rands_append, List.length_append] at hsame
    obtain ⟨v, hc', huv⟩ := h.completes hc fun j hj => hsame j (by omega)
    have hrest := hsame.advance
    rw [← hc.draws.after_eq, ← hc'.draws.after_eq] at hrest
    obtain ⟨hattempts, halike⟩ := ih (spent + 1) huv hrest
    rw [hc.attempts_succ, hc'.attempts_succ, hc.run_succ, hc'.run_succ, hattempts]
    exact ⟨rfl, halike⟩

end Machine.Matches

/-- Two runs that show the same: registers, outcome and fault. -/
structure Execution.SameRun (x : Execution ρ) (y : Execution σ) : Prop where
  registers : y.machine.registers = x.machine.registers
  outcome : y.outcome = x.outcome
  fault : y.fault? = x.fault?

theorem Job.sameRun (job : Job) {random : ρ} {random' : σ}
    (h : SameSamples (rands (job.attempts random)).length random random') :
    job.attempts random' = job.attempts random ∧ (job.run random).SameRun (job.run random') := by
  have hboot : (job.program.boot job.entry job.registers random).Matches
      (job.program.boot job.entry job.registers random') := ⟨rfl, rfl, rfl⟩
  obtain ⟨hattempts, halike⟩ := hboot.run job.program job.limit 0 h
  refine ⟨hattempts, halike.machine.registers, ?_, ?_⟩
  · rw [Outcome.mk.injEq]
    exact ⟨halike.machine.outbox, halike.cycles.symm, halike.timeout.symm⟩
  · have hending : (job.run random).ending = (job.run random').ending := halike.ending.eq
    rw [Execution.fault?, Execution.fault?, hending]

theorem tick_of_sameRun (p : Program) (c : Schedule) (k : Nat) {r : Registers} {random : ρ}
    {random' : σ} (h : (p.tickRun c ⟨r, random⟩).SameRun (p.tickRun c ⟨r, random'⟩)) :
    (p.tick c k ⟨r, random'⟩).1 = (p.tick c k ⟨r, random⟩).1 ∧
      (p.tick c k ⟨r, random'⟩).2.registers = (p.tick c k ⟨r, random⟩).2.registers := by
  constructor
  · rw [Report.mk.injEq]
    exact ⟨rfl, h.outcome, h.fault⟩
  · refine Registers.ext fun name => ?_
    rw [get?_tick, get?_tick, h.outcome, h.registers]

theorem ticks_of_sameSamples (p : Program) (c : Schedule) (count : Nat) {r : Registers}
    {random : ρ} {random' : σ}
    (h : SameSamples (rands (attemptsOf (p.tickJobs c count ⟨r, random⟩) random)).length
      random random') :
    attemptsOf (p.tickJobs c count ⟨r, random'⟩) random' =
        attemptsOf (p.tickJobs c count ⟨r, random⟩) random ∧
      (p.ticks c count ⟨r, random'⟩).1 = (p.ticks c count ⟨r, random⟩).1 ∧
      (p.ticks c count ⟨r, random'⟩).2.registers = (p.ticks c count ⟨r, random⟩).2.registers := by
  induction count with
  | zero => exact ⟨rfl, rfl, rfl⟩
  | succ count ih =>
    rw [tickJobs_succ, attemptsOf_concat, rands_append, List.length_append,
      afterJobs_tickJobs p c count ⟨r, random⟩] at h
    obtain ⟨hattempts, hreports, hregisters⟩ := ih fun j hj => h j (by omega)
    -- both sources have moved on by the draws of the ticks so far, which are the same
    have hlast := h.advance
    have hafter := (draws_tickJobs p c count ⟨r, random⟩).after_eq
    have hafter' := (draws_tickJobs p c count ⟨r, random'⟩).after_eq
    simp only [hattempts] at hafter'
    rw [← hafter, ← hafter'] at hlast
    obtain ⟨hjob, hrun⟩ := (p.tickJob c (p.ticks c count ⟨r, random⟩).2.registers).sameRun hlast
    rw [tickJobs_succ, tickJobs_succ, attemptsOf_concat, attemptsOf_concat, hattempts,
      afterJobs_tickJobs p c count ⟨r, random⟩, afterJobs_tickJobs p c count ⟨r, random'⟩,
      hregisters, hjob, ticks_succ, ticks_succ]
    obtain ⟨hreport, hafterRegisters⟩ := tick_of_sameRun p c count hrun
    have hworld : (p.ticks c count ⟨r, random'⟩).2 =
        ⟨(p.ticks c count ⟨r, random⟩).2.registers, (p.ticks c count ⟨r, random'⟩).2.random⟩ := by
      rw [← hregisters]
    refine ⟨rfl, ?_, ?_⟩
    · rw [hreports, hworld, hreport]
    · rw [hworld]
      exact hafterRegisters

end Matches

/-- Random numbers are drawn by `RAND` and by nothing else. A run leaves its
source as many draws further on as it has started `RAND`s, and those that it
completes store the numbers in their order; runs that share a source, and
ticks, go on where those before them have stopped. Hence two sources that begin
with as many equal numbers as are drawn give the same runs and the same ticks,
and if no `RAND` is started then all sources do. -/
theorem randomness_of_runs {ρ σ : Type} [Sampler ρ] [Sampler σ] :
    (∀ (p : Program) limit entry r (random : ρ),
      let x := p.execute limit entry r random
      let attempts := (p.boot entry r random).attempts p limit
      x.cycles = attempts.length ∧ x.machine.random = advance (rands attempts).length random ∧
        ∃ done failed, x.Completed p (p.boot entry r random) done ∧
          attempts = done.map Event.attempt ++ failed ∧
          failed.map Attempt.answer = x.fault?.toList.map (fun f => .error f.cause) ∧
          ∀ j (e : Event), (done.filter (·.instruction.opcode = .rand))[j]? = some e →
            ∃ name, e.instruction.target 0 = .ok name ∧
              e.effect = .store name (.number (sample random j))) ∧
    (∀ jobs (random : ρ), Draws (attemptsOf jobs random) random (afterJobs jobs random)) ∧
    (∀ (p : Program) c count (w : World ρ),
      Draws (attemptsOf (p.tickJobs c count w) w.random) w.random (p.ticks c count w).2.random) ∧
    (∀ (p : Program) limit entry r (random : ρ) (random' : σ),
      let drawn := rands ((p.boot entry r random).attempts p limit)
      SameSamples drawn.length random random' ∨ drawn = [] →
        (p.boot entry r random').attempts p limit = (p.boot entry r random).attempts p limit ∧
        (p.execute limit entry r random).SameRun (p.execute limit entry r random')) ∧
    ∀ (p : Program) c count r (random : ρ) (random' : σ),
      let drawn := rands (attemptsOf (p.tickJobs c count ⟨r, random⟩) random)
      SameSamples drawn.length random random' ∨ drawn = [] →
        (p.ticks c count ⟨r, random'⟩).1 = (p.ticks c count ⟨r, random⟩).1 ∧
        (p.ticks c count ⟨r, random'⟩).2.registers =
          (p.ticks c count ⟨r, random⟩).2.registers := by
  -- of two sources nothing is asked if there are no draws
  have hsame : ∀ {drawn : List Attempt} {random : ρ} {random' : σ},
      SameSamples drawn.length random random' ∨ drawn = [] →
        SameSamples drawn.length random random' := by
    rintro drawn random random' (h | rfl)
    · exact h
    · exact fun j hj => absurd hj (Nat.not_lt_zero j)
  refine ⟨?_, draws_attemptsOf, draws_tickJobs, ?_, ?_⟩
  · intro p limit entry r random x attempts
    have hdraws : Draws attempts random x.machine.random := draws_run p limit 0 _
    obtain ⟨done, failed, hdone, hattempts, hfailed⟩ :=
      (execute_ends p limit entry r random).attempts_eq
    refine ⟨(cycles_run p limit 0 _).trans (Nat.zero_add _), hdraws.after_eq,
      done, failed, hdone, hattempts, hfailed, fun j e he => ?_⟩
    rw [show attempts = done.map Event.attempt ++ failed from hattempts] at hdraws
    exact hdraws.store_of_done he
  · intro p limit entry r random random' drawn h
    exact Job.sameRun ⟨p, limit, entry, r⟩ (hsame h)
  · intro p c count r random random' drawn h
    exact (ticks_of_sameSamples p c count (hsame h)).2

/-- A source of numbers that are given in advance, and zeros after them. -/
structure Tape where
  numbers : List Float
deriving DecidableEq

instance : Sampler Tape := ⟨fun tape => (tape.numbers.headD 0, ⟨tape.numbers.tail⟩)⟩

/-- A program that draws a number, sends it, and draws another one for which it
has no register. Two ticks of it take four numbers off a tape, and the second
of the two that are stored is the third. The tapes differ in the fifth. -/
theorem randomness_of_runs_tapes :
    let p : Program := ⟨#[⟨.rand, [.register "$a"], 0⟩,
      ⟨.send, [.literal (.number 1), .register "$a", .register "$b"], 1⟩,
      ⟨.rand, [.literal .null], 2⟩], ∅⟩
    let c : Schedule := ⟨9, none⟩
    let tape : Tape := ⟨[0.5, 0.25, 0.75, 0.125, 1]⟩
    let other : Tape := ⟨[0.5, 0.25, 0.75, 0.125]⟩
    let attempts := attemptsOf (p.tickJobs c 2 ⟨∅, tape⟩) tape
    (rands attempts).length = 4 ∧ (p.ticks c 2 ⟨∅, tape⟩).2.random = ⟨[1]⟩ ∧
      Draws attempts tape ⟨[1]⟩ ∧ SameSamples (rands attempts).length tape other ∧
      (p.ticks c 2 ⟨∅, tape⟩).2.registers.get? "$a" = some (.number 0.75) ∧
      (p.ticks c 2 ⟨∅, other⟩).2.registers = (p.ticks c 2 ⟨∅, tape⟩).2.registers ∧
      (p.ticks c 2 ⟨∅, other⟩).1 = (p.ticks c 2 ⟨∅, tape⟩).1 ∧
      (p.execute 9 none ∅ tape).fault? = some ⟨.malformed .rand, 2⟩ ∧
      (p.execute 9 none ∅ tape).SameRun (p.execute 9 none ∅ other) := by
  intro p c tape other attempts
  obtain ⟨-, -, hticks, hruns, hsame⟩ := @randomness_of_runs Tape Tape _ _
  have hafter : (p.ticks c 2 ⟨∅, tape⟩).2.random = ⟨[1]⟩ := by decide +kernel
  have hdraws := hticks p c 2 ⟨∅, tape⟩
  rw [hafter] at hdraws
  have hsamples : SameSamples (rands attempts).length tape other := by
    rw [show (rands attempts).length = 4 by decide +kernel, SameSamples]
    decide +kernel
  have hfirst : SameSamples (rands ((p.boot none ∅ tape).attempts p 9)).length tape other := by
    rw [show (rands ((p.boot none ∅ tape).attempts p 9)).length = 2 by decide +kernel, SameSamples]
    decide +kernel
  obtain ⟨hreports, hregisters⟩ := hsame p c 2 ∅ tape other (.inl hsamples)
  exact ⟨by decide +kernel, hafter, hdraws, hsamples, by decide +kernel, hregisters, hreports,
    by decide +kernel, (hruns p 9 none ∅ tape other (.inl hfirst)).2⟩

end CritterScript
