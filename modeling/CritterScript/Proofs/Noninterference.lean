import CritterScript.Proofs.Frames
import Mathlib

/-!
# What a program cannot see

Nothing that a run shows depends on registers that its program does not read.
Two machines agree (`Machine.Agrees`) if they differ at most in such
registers, where one that is not set counts as one that holds nothing.
Machines that agree complete the same instructions with the same effects, or
fail for the same cause, and agree afterwards. So by induction on the steps
two runs from registers that agree complete the same events, and
`execute_of_agree` says what a host sees of this.
-/

namespace CritterScript

/-- Some instruction of the program reads the register. -/
def Program.Reads (p : Program) (name : String) : Prop :=
  ∃ i ∈ p.code, i.Reads name

theorem Registers.get_set (r : Registers) (name other : String) (v : Value) :
    (r.set name v).get other = if name = other then v else r.get other := by
  rw [get, get?_set]
  by_cases h : name = other
  · rw [if_pos h, if_pos h, Option.getD_some]
  · rw [if_neg h, if_neg h, get]

/-- Where two stores read alike, or something is stored, they read alike
afterwards. -/
theorem Registers.get_setAll_congr {r r' : Registers} {entries : List (String × Value)}
    {name : String} (h : r.get name = r'.get name ∨ ∃ v, (name, v) ∈ entries) :
    (r.setAll entries).get name = (r'.setAll entries).get name := by
  rw [get, get, get?_setAll, get?_setAll]
  cases hlookup : entries.reverse.lookup name with
  | some v => rfl
  | none =>
    rcases h with h | ⟨v, hv⟩
    · exact h
    · exact absurd hv (lookup_reverse_eq_none_iff.mp hlookup v)

variable {ρ : Type} {p : Program}

/-- The machines differ at most in registers that the program does not
read. -/
structure Machine.Agrees (p : Program) (s t : Machine ρ) : Prop where
  position : t.position = s.position
  outbox : t.outbox = s.outbox
  random : t.random = s.random
  get {name : String} : p.Reads name → t.registers.get name = s.registers.get name

namespace Machine.Agrees

theorem apply {s t : Machine ρ} (h : s.Agrees p t) (e : Effect) :
    (s.apply e).Agrees p (t.apply e) := by
  obtain ⟨hposition, houtbox, hrandom, hget⟩ := h
  cases e with
  | store name v =>
    refine ⟨congrArg (· + 1) hposition, houtbox, hrandom, fun {other} hother => ?_⟩
    show (t.registers.set name v).get other = (s.registers.set name v).get other
    rw [Registers.get_set, Registers.get_set, hget hother]
  | post key m => exact ⟨congrArg (· + 1) hposition, congrArg (·.post key m) houtbox, hrandom, hget⟩
  | jump position => exact ⟨rfl, houtbox, hrandom, hget⟩
  | skip => exact ⟨congrArg (· + 1) hposition, houtbox, hrandom, hget⟩

variable [Sampler ρ] {s t u : Machine ρ} {i : Instruction}

theorem draw_eq (h : s.Agrees p t) (i : Instruction) : t.draw i = s.draw i := by
  rw [Machine.draw, Machine.draw, h.random]

theorem effect_eq (h : s.Agrees p t) (hi : i ∈ p.code) :
    i.effect p t.registers (t.draw i).1 = i.effect p s.registers (s.draw i).1 := by
  have hmirrors : i.Mirrors id s.registers i t.registers :=
    Instruction.mirrors_of_reads fun name hname => h.get ⟨i, hi, hname⟩
  rw [h.draw_eq, hmirrors.effect_eq (g := id) (fun _ => Option.map_id_apply.symm) rfl]
  cases i.effect p s.registers (s.draw i).1 with
  | error c => rfl
  | ok e => simp only [Except.map, e.rename_id, e.relocate_id]

theorem drawn (h : s.Agrees p t) (i : Instruction) :
    { s with random := (s.draw i).2 }.Agrees p { t with random := (t.draw i).2 } :=
  ⟨h.position, h.outbox, congrArg Prod.snd (h.draw_eq i), h.get⟩

theorem completes {e : Event} (h : s.Agrees p t) (hc : Completes p e s u) :
    ∃ v, Completes p e t v ∧ u.Agrees p v := by
  have hfetch : p.code[t.position]? = some e.instruction := by rw [h.position, hc.fetch]
  refine ⟨_, .of_effect hfetch ?_ rfl, ?_⟩
  · rw [h.effect_eq (Array.mem_of_getElem? hc.fetch), hc.effect]
  · rw [hc.result]
    exact (h.drawn e.instruction).apply e.effect

theorem fails {c : Cause} (h : s.Agrees p t) (hf : Fails p i c s u) :
    ∃ v, Fails p i c t v ∧ u.Agrees p v := by
  have hfetch : p.code[t.position]? = some i := by rw [h.position, hf.fetch]
  refine ⟨_, .of_effect hfetch ?_ rfl, ?_⟩
  · rw [h.effect_eq (Array.mem_of_getElem? hf.fetch), hf.effect]
  · rw [hf.result]
    exact h.drawn i

theorem steps {done : List Event} (hs : Steps p done s u) (h : s.Agrees p t) :
    ∃ v, Steps p done t v ∧ u.Agrees p v := by
  induction hs generalizing t with
  | nil => exact ⟨t, .nil t, h⟩
  | cons hc _ ih =>
    obtain ⟨t', hc', h'⟩ := h.completes hc
    obtain ⟨v, hs', huv⟩ := ih h'
    exact ⟨v, .cons hc' hs', huv⟩

end Machine.Agrees

/-- Two runs, from `s` and from `t`, that took as long and ended alike, in
machines that agree, and completed the same instructions with the same
effects. -/
structure Execution.Twins [Sampler ρ] (p : Program) (s t : Machine ρ) (done : List Event)
    (x y : Execution ρ) : Prop where
  machine : x.machine.Agrees p y.machine
  cycles : y.cycles = x.cycles
  ending : y.ending = x.ending
  left : x.Completed p s done
  right : y.Completed p t done

variable [Sampler ρ]

theorem Machine.Agrees.ends {s t : Machine ρ} {n : Nat} {x : Execution ρ} (h : s.Agrees p t)
    (hx : Ends p n 0 s x) : ∃ y done, Ends p n 0 t y ∧ Execution.Twins p s t done x y := by
  cases hx with
  | @halted done u hs hl hp =>
    obtain ⟨v, hs', huv⟩ := h.steps hs
    refine ⟨_, done, .halted hs' hl (huv.position ▸ hp), huv, rfl, rfl, ?_, ?_⟩
    · exact .stopped hs rfl (Nat.zero_add _)
    · exact .stopped hs' rfl (Nat.zero_add _)
  | @timedOut done u hs hl hp =>
    obtain ⟨v, hs', huv⟩ := h.steps hs
    refine ⟨_, done, .timedOut hs' hl (huv.position ▸ hp), huv, rfl, rfl, ?_, ?_⟩
    · exact .stopped hs rfl (Nat.zero_add _)
    · exact .stopped hs' rfl (Nat.zero_add _)
  | @faulted done u u' i c hs hl hf =>
    obtain ⟨v, hs', huv⟩ := h.steps hs
    obtain ⟨v', hf', huv'⟩ := huv.fails hf
    refine ⟨_, done, .faulted hs' hl hf', huv', rfl, rfl, ?_, ?_⟩
    · exact .faulted hs hf rfl (Nat.zero_add _)
    · exact .faulted hs' hf' rfl (Nat.zero_add _)

/-- Two runs of a program on registers that read alike wherever the program
reads give the same outcome and fault, and use as much randomness. Afterwards
the registers read alike wherever they did before, and wherever the run has
stored something. -/
theorem execute_of_agree (p : Program) (limit : Nat) (entry : Option String) (r r' : Registers)
    (random : ρ) (h : ∀ name, p.Reads name → r'.get name = r.get name) :
    let x := p.execute limit entry r random
    let y := p.execute limit entry r' random
    y.outcome = x.outcome ∧ y.fault? = x.fault? ∧ y.machine.random = x.machine.random ∧
      (∀ name, r'.get name = r.get name →
        y.machine.registers.get name = x.machine.registers.get name) ∧
      ∃ done, x.Completed p (p.boot entry r random) done ∧
        y.Completed p (p.boot entry r' random) done ∧
        ∀ name v, (name, v) ∈ stored done →
          y.machine.registers.get name = x.machine.registers.get name := by
  intro x y
  have hboot : (p.boot entry r random).Agrees p (p.boot entry r' random) :=
    ⟨rfl, rfl, rfl, fun hname => h _ hname⟩
  obtain ⟨y', done, hy, htwins⟩ := hboot.ends (execute_ends p limit entry r random)
  obtain rfl : y = y' := hy.execute_eq
  have hget : ∀ name, (r'.get name = r.get name ∨ ∃ v, (name, v) ∈ stored done) →
      y.machine.registers.get name = x.machine.registers.get name := by
    intro name hname
    rw [htwins.right.registers_eq, htwins.left.registers_eq]
    exact Registers.get_setAll_congr hname
  refine ⟨?_, ?_, htwins.machine.random, fun name hname => hget name (.inl hname), done,
    htwins.left, htwins.right, fun name v hv => hget name (.inr ⟨v, hv⟩)⟩
  · rw [Execution.outcome, Execution.outcome, htwins.machine.outbox, htwins.cycles, htwins.ending]
  · rw [Execution.fault?, Execution.fault?, htwins.ending]

/-- A program that reads only a register that holds nothing in one case and is
not set in the other. It jumps on it, sends it and fails at it. -/
theorem execute_of_agree_unset :
    let p : Program := ⟨#[⟨.jez, [.register "$x", .literal (.label "@go")], 0⟩, ⟨.ret, [], 1⟩,
      ⟨.send, [.literal (.number 1), .register "$x", .register "$k"], 2⟩,
      ⟨.mov, [.literal (.label "@a"), .register "$y"], 3⟩,
      ⟨.jmp, [.register "$x"], 4⟩], .ofList [("@go", 2)]⟩
    let r := (((∅ : Registers).set "$x" .null).set "$y" (.label "@b")).set "$z" (.label "@c")
    let x := p.execute 9 none r (SplitMix.ofSeed 7)
    let y := p.execute 9 none ∅ (SplitMix.ofSeed 7)
    (∀ name, p.Reads name → (∅ : Registers).get name = r.get name) ∧
      x.fault? = some ⟨.badJumpTarget .jmp .null, 4⟩ ∧ y.outcome = x.outcome ∧
      y.fault? = x.fault? ∧ y.machine.registers.get "$x" = x.machine.registers.get "$x" ∧
      (∃ done, x.Completed p (p.boot none r (SplitMix.ofSeed 7)) done ∧
        (∃ v, ("$y", v) ∈ stored done) ∧
        y.machine.registers.get "$y" = x.machine.registers.get "$y") ∧
      y.machine.registers.get "$z" ≠ x.machine.registers.get "$z" := by
  intro p r x y
  have hreads : ∀ name, p.Reads name → (∅ : Registers).get name = r.get name := by
    rintro name ⟨i, hi, hname⟩
    have hx : name = "$x" := by
      simp only [p, List.mem_toArray, List.mem_cons, List.not_mem_nil, or_false] at hi
      rcases hi with rfl | rfl | rfl | rfl | rfl <;>
        simp [Instruction.Reads, Instruction.Names, Opcode.slots] at hname
      all_goals exact hname
    rw [hx]
    decide +kernel
  obtain ⟨houtcome, hfault, -, hget, done, hdone, -, hstored⟩ :=
    execute_of_agree p 9 none r ∅ (SplitMix.ofSeed 7) hreads
  have hy : ∃ v, ("$y", v) ∈ stored done := by
    by_contra hnone
    have hkept := r.get?_setAll_of_forall_ne (not_exists.mp hnone)
    have hregisters : x.machine.registers = r.setAll (stored done) := hdone.registers_eq
    rw [← hregisters] at hkept
    exact absurd hkept (by decide +kernel)
  obtain ⟨v, hv⟩ := hy
  exact ⟨hreads, by decide +kernel, houtcome, hfault, hget "$x" (by decide +kernel),
    ⟨done, hdone, ⟨v, hv⟩, hstored "$y" v hv⟩, by decide +kernel⟩

end CritterScript
