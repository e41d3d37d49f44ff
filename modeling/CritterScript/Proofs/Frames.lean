import CritterScript.Proofs.Outbox
import CritterScript.Proofs.Ticks
import Mathlib

/-!
# What a program leaves alone

A program can be read for the registers that it may write: the targets of its
instructions (`Program.Stores`), and, once messages are delivered, the keys
that it sends to (`Program.Sends`). `frame_of_program` is that nothing else
ever changes, in a run or in any number of ticks, however they end.

A run changes registers only by what its completed instructions stored
(`Steps.registers_eq`), and each of these stores where its operands say.
-/

namespace CritterScript

namespace Program

/-- Some instruction of the program stores its result in the register. -/
def Stores (p : Program) (name : String) : Prop :=
  ∃ i ∈ p.code, i.Stores name

/-- Some instruction of the program sends to the key. -/
def Sends (p : Program) (key : String) : Prop :=
  ∃ i ∈ p.code, i.Sends key

instance (p : Program) (name : String) : Decidable (p.Stores name) :=
  inferInstanceAs (Decidable (∃ i ∈ p.code, i.Stores name))

instance (p : Program) (key : String) : Decidable (p.Sends key) :=
  inferInstanceAs (Decidable (∃ i ∈ p.code, i.Sends key))

end Program

/-! ## Registers and what is stored in them -/

namespace Registers

theorem contains_eq_isSome (r : Registers) (name : String) :
    r.contains name = (r.get? name).isSome :=
  Std.ExtTreeMap.contains_eq_isSome_getElem?

theorem lookup_reverse_eq_none_iff {entries : List (String × Value)} {name : String} :
    entries.reverse.lookup name = none ↔ ∀ v, (name, v) ∉ entries := by
  rw [List.lookup_eq_none_iff]
  constructor
  · intro h v hmem
    have hne := h _ (List.mem_reverse.mpr hmem)
    simp at hne
  · rintro h ⟨key, v⟩ hmem
    have hne : name ≠ key := by
      rintro rfl
      exact h v (List.mem_reverse.mp hmem)
    simpa using hne

theorem get?_setAll_of_forall_ne (r : Registers) {entries : List (String × Value)} {name : String}
    (h : ∀ v, (name, v) ∉ entries) : (r.setAll entries).get? name = r.get? name := by
  rw [get?_setAll, lookup_reverse_eq_none_iff.mpr h, Option.none_or]

theorem contains_setAll (r : Registers) (entries : List (String × Value)) {name : String}
    (h : r.contains name = true) : (r.setAll entries).contains name = true := by
  rw [contains_eq_isSome] at h ⊢
  rw [get?_setAll, Option.isSome_or, h, Bool.or_true]

end Registers

/-- The register that a completed instruction stored in, and the value. -/
def Event.stored? (e : Event) : Option (String × Value) :=
  match e.effect with
  | .store name v => some (name, v)
  | _ => none

theorem Event.stored?_eq_some_iff {e : Event} {name : String} {v : Value} :
    e.stored? = some (name, v) ↔ e.effect = .store name v := by
  rw [Event.stored?]
  cases e.effect <;> simp

/-- What completed instructions stored, in their order. -/
def stored (done : List Event) : List (String × Value) :=
  done.filterMap Event.stored?

theorem mem_stored_iff {done : List Event} {name : String} {v : Value} :
    (name, v) ∈ stored done ↔ ∃ e ∈ done, e.effect = .store name v := by
  simp only [stored, List.mem_filterMap, Event.stored?_eq_some_iff]

/-! ## Runs -/

variable {ρ : Type} [Sampler ρ] {p : Program} {done : List Event} {s t : Machine ρ}
  {x : Execution ρ}

/-- What a completed instruction did, its operands allow. -/
theorem Completes.allows {e : Event} (h : Completes p e s t) :
    e.instruction ∈ p.code ∧ e.instruction.Allows e.effect :=
  ⟨Array.mem_of_getElem? h.fetch, e.instruction.effect_allows p s.registers _ _ h.effect⟩

theorem Steps.allows (h : Steps p done s t) :
    ∀ e ∈ done, e.instruction ∈ p.code ∧ e.instruction.Allows e.effect := by
  induction h with
  | nil => simp
  | cons hc _ ih => exact List.forall_mem_cons.mpr ⟨hc.allows, ih⟩

theorem Steps.registers_eq (h : Steps p done s t) :
    t.registers = s.registers.setAll (stored done) := by
  induction h with
  | nil => rfl
  | @cons e done s t u hc _ ih =>
    rw [ih, hc.result, stored, stored]
    obtain ⟨i, effect⟩ := e
    cases effect <;> rfl

namespace Execution.Completed

/-- The instructions that a run completed leave its registers and its
messages. -/
theorem exists_steps (h : x.Completed p s done) :
    ∃ t, Steps p done s t ∧ x.machine.registers = t.registers ∧ x.machine.outbox = t.outbox := by
  cases h with
  | stopped hs _ _ => exact ⟨_, hs, rfl, rfl⟩
  | faulted hs hf _ _ => exact ⟨_, hs, hf.keeps.2⟩

theorem registers_eq (h : x.Completed p s done) :
    x.machine.registers = s.registers.setAll (stored done) := by
  obtain ⟨t, hs, hregisters, -⟩ := h.exists_steps
  rw [hregisters, hs.registers_eq]

theorem stores_of_mem (h : x.Completed p s done) {name : String} {v : Value}
    (hmem : (name, v) ∈ stored done) : p.Stores name := by
  obtain ⟨t, hs, -⟩ := h.exists_steps
  obtain ⟨e, he, heffect⟩ := mem_stored_iff.mp hmem
  obtain ⟨hcode, hallows⟩ := hs.allows e he
  rw [heffect] at hallows
  exact ⟨e.instruction, hcode, hallows⟩

theorem sends_of_mem (h : x.Completed p s done) {key : String} {m : Message}
    (hmem : (key, m) ∈ sent done) : p.Sends key := by
  obtain ⟨t, hs, -⟩ := h.exists_steps
  obtain ⟨e, he, hsent⟩ := List.mem_filterMap.mp hmem
  obtain ⟨hcode, hallows⟩ := hs.allows e he
  rw [Event.sent?_eq_some_iff.mp hsent] at hallows
  exact ⟨e.instruction, hcode, hallows⟩

end Execution.Completed

section Execute

variable (p : Program) (limit : Nat) (entry : Option String) (r : Registers) (random : ρ)

theorem get?_execute {name : String} (h : ¬ p.Stores name) :
    (p.execute limit entry r random).machine.registers.get? name = r.get? name := by
  obtain ⟨done, hdone⟩ := (execute_ends p limit entry r random).exists_completed
  rw [hdone.registers_eq]
  exact r.get?_setAll_of_forall_ne fun v hmem => h (hdone.stores_of_mem hmem)

theorem contains_execute {name : String} (h : r.contains name = true) :
    (p.execute limit entry r random).machine.registers.contains name = true := by
  obtain ⟨done, hdone⟩ := (execute_ends p limit entry r random).exists_completed
  rw [hdone.registers_eq]
  exact r.contains_setAll _ h

theorem sends_of_mem_messages {key : String}
    (h : key ∈ (p.execute limit entry r random).outcome.messages) : p.Sends key := by
  obtain ⟨done, hdone⟩ := (execute_ends p limit entry r random).exists_completed
  obtain ⟨m, hm⟩ := List.exists_mem_of_ne_nil _ ((hdone.mem_messages_iff key).mp h)
  exact hdone.sends_of_mem (mem_messagesFor_iff.mp hm)

end Execute

/-! ## Ticks -/

section Ticks

variable (p : Program) (c : Schedule) (w : World ρ)

theorem get?_tick_of_not_sends (k : Nat) {name : String} (hstores : ¬ p.Stores name)
    (hsends : ¬ p.Sends name) :
    (p.tick c k w).2.registers.get? name = w.registers.get? name := by
  have hmessages : (p.tickRun c w).outcome.messages[name]? = none :=
    Std.ExtTreeMap.getElem?_eq_none fun hmem => hsends (sends_of_mem_messages p _ _ _ _ hmem)
  rw [get?_tick, hmessages]
  exact get?_execute p _ _ _ _ hstores

theorem contains_tick (k : Nat) {name : String} (h : w.registers.contains name = true) :
    (p.tick c k w).2.registers.contains name = true := by
  have hrun := contains_execute p c.limit (c.entryFor w.registers) w.registers w.random h
  rw [Registers.contains_eq_isSome] at hrun ⊢
  rw [get?_tick, Option.isSome_or]
  exact Bool.or_eq_true_iff.mpr (.inr hrun)

end Ticks

/-- A run changes no register but the targets of the instructions of its
program that store a result, removes none, and has messages only for the keys
of its `SEND`s. Any number of ticks change no register but these two, and
remove none. -/
theorem frame_of_program (p : Program) :
    (∀ limit entry r (random : ρ),
      let x := p.execute limit entry r random
      (∀ name, ¬ p.Stores name → x.machine.registers.get? name = r.get? name) ∧
        (∀ name, r.contains name = true → x.machine.registers.contains name = true) ∧
        ∀ key ∈ x.outcome.messages, p.Sends key) ∧
    ∀ c count (w : World ρ),
      let after := (p.ticks c count w).2
      (∀ name, ¬ p.Stores name → ¬ p.Sends name →
        after.registers.get? name = w.registers.get? name) ∧
        ∀ name, w.registers.contains name = true → after.registers.contains name = true := by
  refine ⟨fun limit entry r random => ?_, fun c count w => ?_⟩
  · exact ⟨fun name h => get?_execute p limit entry r random h,
      fun name h => contains_execute p limit entry r random h,
      fun key h => sends_of_mem_messages p limit entry r random h⟩
  · induction count with
    | zero => exact ⟨fun _ _ _ => rfl, fun _ h => h⟩
    | succ count ih =>
      obtain ⟨hget, hcontains⟩ := ih
      rw [ticks_succ]
      refine ⟨fun name hstores hsends => ?_, fun name h => ?_⟩
      · rw [get?_tick_of_not_sends p c _ count hstores hsends]
        exact hget name hstores hsends
      · exact contains_tick p c _ count (hcontains name h)

/-- A program that stores in one register, sends to another, and then fails
because the target of its last instruction is a literal. -/
theorem frame_of_program_keep :
    let p : Program := ⟨#[⟨.mov, [.literal (.label "@a"), .register "$x"], 0⟩,
      ⟨.send, [.literal (.number 1), .register "$x", .register "$k"], 1⟩,
      ⟨.mov, [.register "$x", .literal .null], 2⟩], ∅⟩
    let r := ((∅ : Registers).set "$keep" (.label "@b")).set "$k" .null
    let x := p.execute 9 none r (SplitMix.ofSeed 7)
    let after := (p.ticks ⟨9, none⟩ 2 ⟨r, SplitMix.ofSeed 7⟩).2
    x.fault? = some ⟨.malformed .mov, 2⟩ ∧ ¬ p.Stores "$k" ∧
      x.machine.registers.get? "$k" = r.get? "$k" ∧ p.Sends "$k" ∧
      x.machine.registers.contains "$keep" = true ∧
      after.registers.get? "$k" = some (.label "@a") ∧
      ¬ p.Stores "$keep" ∧ ¬ p.Sends "$keep" ∧
      after.registers.get? "$keep" = r.get? "$keep" ∧
      after.registers.contains "$k" = true := by
  intro p r x after
  obtain ⟨hrun, hticks⟩ := @frame_of_program SplitMix _ p
  obtain ⟨hget, hcontains, hsends⟩ := hrun 9 none r (SplitMix.ofSeed 7)
  obtain ⟨hget', hcontains'⟩ := hticks ⟨9, none⟩ 2 ⟨r, SplitMix.ofSeed 7⟩
  have hk : ¬ p.Stores "$k" := by decide +kernel
  have hkeep : ¬ p.Stores "$keep" := by decide +kernel
  have hkeep' : ¬ p.Sends "$keep" := by decide +kernel
  exact ⟨by decide +kernel, hk, hget _ hk, hsends _ (by decide +kernel),
    hcontains _ (by decide +kernel), by decide +kernel, hkeep, hkeep', hget' _ hkeep hkeep',
    hcontains' _ (by decide +kernel)⟩

end CritterScript
