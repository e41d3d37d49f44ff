import CritterScript.Proofs.Effects
import CritterScript.Proofs.Lockstep
import CritterScript.Proofs.Ticks
import Mathlib

/-!
# Names do not matter

A machine compares register names and does nothing else with them. So if the
registers of a program are renamed by an injective map, and those that it
works on likewise, then every run is the run as it was, with the names in its
result renamed. The state register is the one name that resuming knows;
a map that keeps it commutes with resuming and with ticks as well.

A renamed table is known by its entries (`NameTable.eq_rename`). An effect
commutes with renaming (`Machine.apply_rename`), so renaming carries the steps
of a program to those of the renamed one (`Program.carries_rename`), and
`execute_of_renamed` is what this means for a host.
-/

namespace CritterScript

/-! ## Tables -/

/-- The table with its names renamed. -/
def NameTable.rename {α : Type} (f : String → String) (t : NameTable α) : NameTable α :=
  .ofList (t.toList.map fun entry => (f entry.1, entry.2))

section NameTable

variable {α : Type} {f : String → String}

theorem NameTable.getElem?_rename (hf : Function.Injective f) (t : NameTable α) (k : String) :
    (NameTable.rename f t)[f k]? = t[k]? := by
  have hdistinct : (t.toList.map fun entry => (f entry.1, entry.2)).Pairwise
      fun a b => ¬ compare a.1 b.1 = .eq := by
    refine List.pairwise_map.mpr (Std.ExtTreeMap.distinct_keys_toList.imp fun {a b} hab h => hab ?_)
    rw [Std.LawfulEqCmp.compare_eq_iff_eq] at h ⊢
    exact hf h
  cases hk : t[k]? with
  | some v =>
    refine Std.ExtTreeMap.getElem?_ofList_of_mem Std.ReflCmp.compare_self hdistinct ?_
    have hmem := Std.ExtTreeMap.mem_toList_iff_getElem?_eq_some.mpr hk
    exact List.mem_map_of_mem (f := fun entry => (f entry.1, entry.2)) hmem
  | none =>
    refine Std.ExtTreeMap.getElem?_ofList_of_contains_eq_false ?_
    rw [Bool.eq_false_iff, ne_eq, List.contains_iff_mem, List.map_map, List.mem_map]
    rintro ⟨⟨key, v⟩, hmem, hkey⟩
    obtain rfl : key = k := hf hkey
    rw [Std.ExtTreeMap.mem_toList_iff_getElem?_eq_some, hk] at hmem
    cases hmem

theorem NameTable.getElem?_rename_of_forall_ne (t : NameTable α) {name : String}
    (h : ∀ k, f k ≠ name) : (NameTable.rename f t)[name]? = none := by
  refine Std.ExtTreeMap.getElem?_ofList_of_contains_eq_false ?_
  rw [Bool.eq_false_iff, ne_eq, List.contains_iff_mem, List.map_map, List.mem_map]
  rintro ⟨entry, -, hkey⟩
  exact h entry.1 hkey

/-- A table that has under the new names what another has under the old ones,
and nothing else, is the other one renamed. -/
theorem NameTable.eq_rename (hf : Function.Injective f) {t u : NameTable α}
    (hin : ∀ k, u[f k]? = t[k]?) (hout : ∀ name, (∀ k, f k ≠ name) → u[name]? = none) :
    u = NameTable.rename f t := by
  refine Std.ExtTreeMap.ext_getElem? fun {name} => ?_
  by_cases h : ∃ k, f k = name
  · obtain ⟨k, rfl⟩ := h
    rw [hin, getElem?_rename hf]
  · have hne : ∀ k, f k ≠ name := not_exists.mp h
    rw [hout name hne, getElem?_rename_of_forall_ne t hne]

end NameTable

/-- The registers with their names renamed. -/
def Registers.rename (f : String → String) (r : Registers) : Registers :=
  ⟨NameTable.rename f r.cells⟩

/-- The messages with their keys renamed. -/
def Outbox.rename (f : String → String) (o : Outbox) : Outbox :=
  NameTable.rename f o

section Stores

variable {f : String → String} (hf : Function.Injective f)

include hf

theorem Registers.get?_rename (r : Registers) (name : String) :
    (r.rename f).get? (f name) = r.get? name :=
  NameTable.getElem?_rename hf r.cells name

theorem Registers.get_rename (r : Registers) (name : String) :
    (r.rename f).get (f name) = r.get name := by
  rw [get, get, get?_rename hf]

theorem Registers.eq_rename {r s : Registers} (hin : ∀ name, s.get? (f name) = r.get? name)
    (hout : ∀ name, (∀ k, f k ≠ name) → s.get? name = none) : s = r.rename f :=
  congrArg Registers.mk (NameTable.eq_rename hf hin hout)

theorem Registers.set_rename (r : Registers) (name : String) (v : Value) :
    (r.rename f).set (f name) v = (r.set name v).rename f := by
  refine eq_rename hf (fun other => ?_) fun other hother => ?_
  · simp only [get?_set, hf.eq_iff, get?_rename hf]
  · rw [get?_set, if_neg (hother name)]
    exact NameTable.getElem?_rename_of_forall_ne r.cells hother

theorem Outbox.post_rename (o : Outbox) (key : String) (m : Message) :
    (o.rename f).post (f key) m = (o.post key m).rename f := by
  refine NameTable.eq_rename hf (fun other => ?_) fun other hother => ?_
  · simp only [getElem?_post, hf.eq_iff, Outbox.rename, NameTable.getElem?_rename hf]
  · rw [getElem?_post, if_neg (hother key)]
    exact NameTable.getElem?_rename_of_forall_ne o hother

end Stores

/-! ## Programs and results -/

/-- The operand with its register renamed. -/
def Operand.rename (f : String → String) : Operand → Operand
  | .register name => .register (f name)
  | .literal v => .literal v

def Instruction.rename (f : String → String) (i : Instruction) : Instruction :=
  { i with operands := i.operands.map (Operand.rename f) }

/-- The program with all of its registers renamed. Its labels are as they
were. -/
def Program.rename (f : String → String) (p : Program) : Program :=
  { p with code := p.code.map (Instruction.rename f) }

def Machine.rename {ρ : Type} (f : String → String) (s : Machine ρ) : Machine ρ :=
  { s with registers := s.registers.rename f, outbox := Outbox.rename f s.outbox }

/-- The result of a run with the names in it renamed. The run took as long
and ended in the same way. -/
def Execution.rename {ρ : Type} (f : String → String) (x : Execution ρ) : Execution ρ :=
  { x with machine := x.machine.rename f }

def Outcome.rename (f : String → String) (o : Outcome) : Outcome :=
  { o with messages := Outbox.rename f o.messages }

def Report.rename (f : String → String) (r : Report) : Report :=
  { r with outcome := r.outcome.rename f }

def World.rename {ρ : Type} (f : String → String) (w : World ρ) : World ρ :=
  { w with registers := w.registers.rename f }

/-! ## One instruction -/

section Step

variable {f : String → String}

theorem Program.size_rename (p : Program) : (p.rename f).size = p.size :=
  Array.size_map

theorem Program.getElem?_code_rename (p : Program) (k : Nat) :
    (p.rename f).code[k]? = p.code[k]?.map (Instruction.rename f) :=
  Array.getElem?_map

theorem Instruction.operand_rename (i : Instruction) (position : Nat) :
    (i.rename f).operand position = (i.operand position).map (Operand.rename f) := by
  rw [operand, operand, rename, List.getElem?_map]
  cases i.operands[position]? <;> rfl

/-- A renamed instruction reads on renamed registers what it did before, and
its target is renamed. -/
theorem Instruction.mirrors_rename (hf : Function.Injective f) (i : Instruction)
    (r : Registers) : i.Mirrors f r (i.rename f) (r.rename f) where
  opcode := rfl
  value := by
    intro position _
    rw [value, value, operand_rename]
    cases i.operand position with
    | error c => rfl
    | ok a =>
      cases a with
      | register name => exact congrArg Except.ok (r.get_rename hf name)
      | literal v => rfl
  target := by
    intro position _
    rw [target, target, operand_rename]
    cases i.operand position with
    | error c => rfl
    | ok a => cases a <;> rfl

theorem Instruction.effect_rename (hf : Function.Injective f) (i : Instruction) (p : Program)
    (r : Registers) (sample : Float) :
    (i.rename f).effect (p.rename f) (r.rename f) sample =
      (i.effect p r sample).map (Effect.rename f) := by
  have heffect := (i.mirrors_rename hf r).effect_eq (p := p) (q := p.rename f) (g := id)
    (fun _ => Option.map_id_apply.symm) p.size_rename sample
  simpa only [Effect.relocate_id] using heffect

variable {ρ : Type}

theorem Machine.apply_rename (hf : Function.Injective f) (s : Machine ρ) (e : Effect) :
    (s.rename f).apply (e.rename f) = (s.apply e).rename f := by
  cases e with
  | store name v => simp only [apply, rename, Effect.rename, Registers.set_rename hf]
  | post key m => simp only [apply, rename, Effect.rename, Outbox.post_rename hf]
  | jump position => rfl
  | skip => rfl

variable [Sampler ρ]

/-- Renaming carries the steps of a program to those of the renamed one. -/
theorem Program.carries_rename (hf : Function.Injective f) (p : Program) :
    Carries (ρ := ρ) p (p.rename f) (Machine.rename f) (Instruction.rename f)
      (Effect.rename f) where
  halts hs := by rwa [p.size_rename]
  fetch {s i} hi := by
    show (p.rename f).code[s.position]? = _
    rw [p.getElem?_code_rename, hi, Option.map_some]
  draw _ _ := rfl
  effect_eq s i sample := i.effect_rename hf p s.registers sample
  drawn _ _ := rfl
  apply := Machine.apply_rename hf

end Step

/-! ## Runs and ticks -/

section Runs

variable {ρ : Type} [Sampler ρ] {f : String → String} (hf : Function.Injective f)

include hf

theorem Outbox.rename_empty : Outbox.rename f ∅ = ∅ := by
  refine (NameTable.eq_rename hf (fun k => ?_) fun name _ => ?_).symm
  · rw [Std.ExtTreeMap.getElem?_empty, Std.ExtTreeMap.getElem?_empty]
  · exact Std.ExtTreeMap.getElem?_empty

theorem execute_rename (p : Program) (limit : Nat) (entry : Option String) (r : Registers)
    (random : ρ) :
    (p.rename f).execute limit entry (r.rename f) random =
      (p.execute limit entry r random).rename f := by
  have hboot : (p.rename f).boot entry (r.rename f) random =
      (p.boot entry r random).rename f := by
    rw [Program.boot, Program.boot, Machine.rename, Outbox.rename_empty hf]
    rfl
  have halike := ((p.carries_rename hf).lockstep fun _ _ => rfl).run (F := Eq) hboot limit 0
  rw [Execution.mk.injEq]
  exact ⟨halike.machine, halike.cycles.symm, halike.ending.eq.symm⟩

variable (hstate : f stateRegister = stateRegister)

include hstate

theorem Registers.resumption?_rename (r : Registers) :
    (r.rename f).resumption? = r.resumption? := by
  have hget := r.get_rename hf stateRegister
  rw [hstate] at hget
  rw [resumption?, resumption?, hget]

theorem tickRun_rename (p : Program) (c : Schedule) (w : World ρ) :
    (p.rename f).tickRun c (w.rename f) = (p.tickRun c w).rename f := by
  have hentry : c.entryFor (w.rename f).registers = c.entryFor w.registers := by
    rw [Schedule.entryFor, Schedule.entryFor, ← w.registers.resumption?_rename hf hstate]
    rfl
  rw [Program.tickRun, hentry]
  exact execute_rename hf p c.limit _ w.registers w.random

/-- The messages of a tick are delivered under their new names. -/
theorem tick_rename (p : Program) (c : Schedule) (k : Nat) (w : World ρ) :
    (p.rename f).tick c k (w.rename f) =
      ((p.tick c k w).1.rename f, (p.tick c k w).2.rename f) := by
  have hrun := tickRun_rename hf hstate p c w
  have hreport : ((p.rename f).tick c k (w.rename f)).1 = (p.tick c k w).1.rename f :=
    congrArg (fun x : Execution ρ => Report.mk k x.outcome x.fault?) hrun
  have hrandom : ((p.rename f).tickRun c (w.rename f)).machine.random =
      ((p.tickRun c w).rename f).machine.random := by rw [hrun]
  have hregisters : ((p.rename f).tick c k (w.rename f)).2.registers =
      (p.tick c k w).2.registers.rename f := by
    refine Registers.eq_rename hf (fun name => ?_) fun name hname => ?_
    · have hmessages : ((p.tickRun c w).rename f).outcome.messages[f name]? =
          (p.tickRun c w).outcome.messages[name]? := NameTable.getElem?_rename hf _ name
      have hstored : ((p.tickRun c w).rename f).machine.registers.get? (f name) =
          (p.tickRun c w).machine.registers.get? name := Registers.get?_rename hf _ name
      rw [get?_tick, get?_tick, hrun, hmessages, hstored]
    · have hmessages : ((p.tickRun c w).rename f).outcome.messages[name]? = none :=
        NameTable.getElem?_rename_of_forall_ne _ hname
      have hstored : ((p.tickRun c w).rename f).machine.registers.get? name = none :=
        NameTable.getElem?_rename_of_forall_ne _ hname
      rw [get?_tick, hrun, hmessages, hstored]
      rfl
  rw [Prod.ext_iff, World.rename, World.mk.injEq]
  exact ⟨hreport, hregisters, hrandom⟩

theorem ticks_rename (p : Program) (c : Schedule) (count : Nat) (w : World ρ) :
    (p.rename f).ticks c count (w.rename f) =
      ((p.ticks c count w).1.map (Report.rename f), (p.ticks c count w).2.rename f) := by
  induction count with
  | zero => rfl
  | succ count ih =>
    rw [ticks_succ, ticks_succ, ih, tick_rename hf hstate, List.map_append]
    rfl

end Runs

/-- Renaming registers by an injective map commutes with running a program:
the renamed program on renamed registers takes as long, ends in the same way
with the same fault, and leaves the same registers and messages but for their
names. If the map keeps the state register, it also commutes with resuming and
with any number of ticks. -/
theorem execute_of_renamed {ρ : Type} [Sampler ρ] {f : String → String}
    (hf : Function.Injective f) (p : Program) :
    (∀ limit entry r (random : ρ),
      (p.rename f).execute limit entry (r.rename f) random =
        (p.execute limit entry r random).rename f) ∧
    (f stateRegister = stateRegister →
      (∀ limit r (random : ρ),
        (p.rename f).resume limit (r.rename f) random = (p.resume limit r random).rename f) ∧
      ∀ c count (w : World ρ),
        (p.rename f).ticks c count (w.rename f) =
          ((p.ticks c count w).1.map (Report.rename f), (p.ticks c count w).2.rename f)) := by
  refine ⟨execute_rename hf p, fun hstate => ⟨fun limit r random => ?_, ticks_rename hf hstate p⟩⟩
  rw [Program.resume, Program.resume, r.resumption?_rename hf hstate]
  exact execute_rename hf p limit _ r random

/-- Two registers trade names, and with them their places in the order of
names. The first tick sends to both and fails at a label that it reads from
one of them; the second resumes at the end. -/
theorem execute_of_renamed_swap :
    let f : String → String := Equiv.swap "$a" "$x"
    let p : Program := ⟨#[⟨.send, [.literal (.number 1), .register "$a", .register "$x"], 0⟩,
      ⟨.send, [.literal (.number 2), .literal (.label "@end"), .register "$state"], 1⟩,
      ⟨.add, [.register "$a", .literal (.number 1), .register "$a"], 2⟩], .ofList [("@end", 3)]⟩
    let r := (∅ : Registers).set "$a" (.label "@b")
    let w : World SplitMix := ⟨r, .ofSeed 7⟩
    let c : Schedule := ⟨9, none⟩
    let x := (p.rename f).execute 9 none (r.rename f) (SplitMix.ofSeed 7)
    let after := ((p.rename f).ticks c 2 (w.rename f)).2
    Function.Injective f ∧ f stateRegister = stateRegister ∧
      x = (p.execute 9 none r (SplitMix.ofSeed 7)).rename f ∧
      x.fault? = some ⟨.typeMismatch .add (.label "@b") (.number 1), 2⟩ ∧
      x.outcome.messages["$a"]? = some ⟨.label "@b", 1⟩ ∧
      after = (p.ticks c 2 w).2.rename f ∧ after.registers.get? "$x" = some (.label "@b") ∧
      ((p.rename f).ticks c 2 (w.rename f)).1.map (·.outcome.cycles) = [3, 0] := by
  intro f p r w c x after
  have hf : Function.Injective f := (Equiv.swap "$a" "$x").injective
  have hstate : f stateRegister = stateRegister := by decide +kernel
  obtain ⟨hexecute, hticks⟩ := @execute_of_renamed SplitMix _ f hf p
  obtain ⟨-, hticks⟩ := hticks hstate
  refine ⟨hf, hstate, hexecute 9 none r _, by decide +kernel, by decide +kernel, ?_,
    by decide +kernel, by decide +kernel⟩
  exact congrArg Prod.snd (hticks c 2 w)

end CritterScript
