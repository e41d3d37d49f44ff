import CritterScript.Proofs.Effects
import CritterScript.Proofs.Priorities
import CritterScript.Proofs.Steps
import Mathlib

/-!
# The messages of a run

An instruction proposes a message just if it is a `SEND`, and then its
operands say which (`Completes.sent?_iff`). So the outbox that a run
leaves behind is made of the messages of the `SEND`s that it completed, in
their order, whether it halts, times out or faults. `outbox_of_run` says
which of them is left for each key.
-/

namespace CritterScript

/-! ## One instruction -/

namespace Instruction

/-- The instruction is a `SEND` whose operands say to propose `m` for `key`. -/
structure Proposes (i : Instruction) (r : Registers) (key : String) (m : Message) : Prop where
  opcode : i.opcode = .send
  priority : i.value r 0 = .ok (.number m.priority)
  value : i.value r 1 = .ok m.value
  target : i.target 2 = .ok key

theorem effect_eq_post_iff {i : Instruction} {p : Program} {r : Registers} {sample : Float}
    {key : String} {m : Message} :
    i.effect p r sample = .ok (.post key m) ↔ i.Proposes r key m := by
  by_cases hop : i.opcode = .send
  · rw [effect, hop]
    simp only [bind_eq_ok_iff]
    constructor
    · rintro ⟨priority, hpriority, value, hvalue, target, htarget, h⟩
      cases priority with
      | number x =>
        cases h
        exact ⟨hop, hpriority, hvalue, htarget⟩
      | null => cases h
      | label name => cases h
      | array xs => cases h
    · intro h
      exact ⟨_, h.priority, _, h.value, _, h.target, rfl⟩
  · refine iff_of_false (fun h => hop ?_) (fun h => hop h.opcode)
    have hsends : i.Sends key := effect_allows i p r sample _ h
    exact hsends.1

/-- A `SEND` that does not fail proposes a message. -/
theorem exists_post_of_send {i : Instruction} {p : Program} {r : Registers} {sample : Float}
    {e : Effect} (hop : i.opcode = .send) (h : i.effect p r sample = .ok e) :
    ∃ key m, e = .post key m := by
  rw [effect, hop] at h
  simp only [bind_eq_ok_iff] at h
  obtain ⟨priority, -, value, -, target, -, h⟩ := h
  cases priority with
  | number x =>
    cases h
    exact ⟨_, _, rfl⟩
  | null => cases h
  | label name => cases h
  | array xs => cases h

end Instruction

/-! ## Runs -/

/-- The message that a completed instruction proposed, and its key. -/
def Event.sent? (e : Event) : Option (String × Message) :=
  match e.effect with
  | .post key m => some (key, m)
  | _ => none

theorem Event.sent?_eq_some_iff {e : Event} {key : String} {m : Message} :
    e.sent? = some (key, m) ↔ e.effect = .post key m := by
  rw [Event.sent?]
  cases e.effect <;> simp

/-- The messages that completed instructions proposed, in their order. -/
def sent (done : List Event) : List (String × Message) :=
  done.filterMap Event.sent?

variable {ρ : Type} [Sampler ρ] {p : Program}

/-- A completed instruction proposes a message just if it is a `SEND`, and
its operands say which. -/
theorem Completes.sent?_iff {e : Event} {s t : Machine ρ} (h : Completes p e s t) :
    (e.instruction.opcode = .send ↔ ∃ key m, e.sent? = some (key, m)) ∧
      ∀ key m, e.sent? = some (key, m) ↔ e.instruction.Proposes s.registers key m := by
  have hiff : ∀ key m, e.sent? = some (key, m) ↔ e.instruction.Proposes s.registers key m := by
    intro key m
    rw [Event.sent?_eq_some_iff, ← Instruction.effect_eq_post_iff, h.effect, Except.ok.injEq]
  refine ⟨⟨fun hop => ?_, ?_⟩, hiff⟩
  · obtain ⟨key, m, hpost⟩ := Instruction.exists_post_of_send hop h.effect
    exact ⟨key, m, Event.sent?_eq_some_iff.mpr hpost⟩
  · rintro ⟨key, m, hsent⟩
    exact ((hiff key m).mp hsent).opcode

theorem Steps.outbox_eq {done : List Event} {s t : Machine ρ} (h : Steps p done s t) :
    t.outbox = (sent done).foldl (fun o x => o.post x.1 x.2) s.outbox := by
  induction h with
  | nil => rfl
  | @cons e done s t u hc _ ih =>
    rw [ih, hc.result, sent, sent]
    obtain ⟨i, effect⟩ := e
    cases effect <;> rfl

/-- The run of the machine `s` that ended in `x` completed the listed
instructions, and failed at the next if it failed. -/
inductive Execution.Completed (p : Program) (s : Machine ρ) (done : List Event)
    (x : Execution ρ) : Prop
  | stopped : Steps p done s x.machine → x.fault? = none → x.cycles = done.length →
    Completed p s done x
  | faulted {t : Machine ρ} {i : Instruction} {c : Cause} :
    Steps p done s t → Fails p i c t x.machine → x.fault? = some ⟨c, i.line⟩ →
    x.cycles = done.length + 1 → Completed p s done x

theorem Ends.exists_completed {n : Nat} {s : Machine ρ} {x : Execution ρ} (h : Ends p n 0 s x) :
    ∃ done, x.Completed p s done := by
  cases h with
  | @halted done t hs hl hp => exact ⟨done, .stopped hs rfl (Nat.zero_add _)⟩
  | @timedOut done t hs hl hp => exact ⟨done, .stopped hs rfl (Nat.zero_add _)⟩
  | @faulted done t u i c hs hl hf => exact ⟨done, .faulted hs hf rfl (Nat.zero_add _)⟩

/-- What a run leaves in the outbox comes from the instructions that it
completed. -/
theorem Execution.Completed.outbox_eq {s : Machine ρ} {done : List Event} {x : Execution ρ}
    (h : x.Completed p s done) :
    x.outcome.messages = (sent done).foldl (fun o y => o.post y.1 y.2) s.outbox := by
  cases h with
  | stopped hs _ _ => exact hs.outbox_eq
  | faulted hs hf _ _ => exact hf.keeps.2.2.trans hs.outbox_eq

section Completed

variable {entry : Option String} {r : Registers} {random : ρ} {done : List Event}
  {x : Execution ρ}

theorem Execution.Completed.getElem?_messages (h : x.Completed p (p.boot entry r random) done)
    (k : String) : x.outcome.messages[k]? = kept Message.over (messagesFor k (sent done)) := by
  rw [h.outbox_eq]
  exact @foldl_eq_kept _ _ _ k (fun o : Outbox => o[k]?) _
    (fun o y => getElem?_post o y.1 k y.2) (sent done) _ Std.ExtTreeMap.getElem?_empty

theorem Execution.Completed.mem_messages_iff (h : x.Completed p (p.boot entry r random) done)
    (k : String) : k ∈ x.outcome.messages ↔ messagesFor k (sent done) ≠ [] := by
  rw [Std.ExtTreeMap.mem_iff_isSome_getElem?, h.getElem?_messages, Option.isSome_iff_ne_none,
    ne_eq, (comesTo_kept keeps_over _).1]

theorem Execution.Completed.comesTo (h : x.Completed p (p.boot entry r random) done) {k : String}
    {m : Message} (hm : x.outcome.messages[k]? = some m) :
    ComesTo Message.over LastGreatest (messagesFor k (sent done)) m := by
  rw [h.getElem?_messages] at hm
  exact (comesTo_kept keeps_over _).2 m hm

end Completed

/-- The outbox that a run leaves behind has a message for a key just if the
run completed a `SEND` for that key. Of the messages after the last one with
priority `NaN` it is the last one of the greatest priority; if there are
none, it is that one with priority `NaN`. -/
theorem outbox_of_run (p : Program) (limit : Nat) (entry : Option String) (r : Registers)
    (random : ρ) :
    let x := p.execute limit entry r random
    (∀ e (s t : Machine ρ), Completes p e s t →
      (e.instruction.opcode = .send ↔ ∃ key m, e.sent? = some (key, m)) ∧
        ∀ key m, e.sent? = some (key, m) ↔ e.instruction.Proposes s.registers key m) ∧
    ∃ done, x.Completed p (p.boot entry r random) done ∧ ∀ k,
      let ms := messagesFor k (sent done)
      (k ∈ x.outcome.messages ↔ ms ≠ []) ∧
        ∀ m, x.outcome.messages[k]? = some m →
          (recent ms ≠ [] → LastGreatest (recent ms) m) ∧
          (recent ms = [] → ms.getLast? = some m ∧ m.priority.isNaN = true) ∧
          ((∀ n ∈ ms, n.priority.isNaN = false) → LastGreatest ms m) := by
  intro x
  refine ⟨fun e s t h => h.sent?_iff, ?_⟩
  obtain ⟨done, hdone⟩ := (execute_ends p limit entry r random).exists_completed
  refine ⟨done, hdone, fun k => ?_⟩
  intro ms
  refine ⟨hdone.mem_messages_iff k, fun m hm => ?_⟩
  have hcomes := hdone.comesTo hm
  refine ⟨hcomes.of_recent, ?_, ?_⟩
  · intro hnil
    obtain ⟨n, hlast, hnan, rfl⟩ := hcomes.of_last hnil
    exact ⟨hlast, hnan⟩
  · intro hall
    have hne : ms ≠ [] := (hdone.mem_messages_iff k).mp
      (Std.ExtTreeMap.mem_iff_isSome_getElem?.mpr (by rw [hm]; rfl))
    have hrecent := recent_eq_self hall
    rw [← hrecent]
    exact hcomes.of_recent (by rwa [hrecent])

/-- A run that divides zero by zero for a priority, and sends with `5`, with
that, and twice with `1`, and then faults. -/
theorem outbox_of_run_nan :
    let p : Program := ⟨#[⟨.div, [.literal (.number 0), .literal (.number 0), .register "$n"], 0⟩,
      ⟨.send, [.literal (.number 5), .literal (.label "@a"), .register "$k"], 1⟩,
      ⟨.send, [.register "$n", .literal (.label "@b"), .register "$k"], 2⟩,
      ⟨.send, [.literal (.number 1), .literal (.label "@c"), .register "$k"], 3⟩,
      ⟨.send, [.literal (.number 1), .literal (.label "@d"), .register "$k"], 4⟩,
      ⟨.send, [.literal .null, .literal (.label "@e"), .register "$l"], 5⟩], ∅⟩
    let x := p.execute 9 none ∅ (SplitMix.ofSeed 7)
    x.fault? = some ⟨.expectedPriority .null, 5⟩ ∧
      x.outcome.messages["$k"]? = some ⟨.label "@d", 1⟩ ∧ "$l" ∉ x.outcome.messages ∧
      ∃ done, x.Completed p (p.boot none ∅ (SplitMix.ofSeed 7)) done ∧
        messagesFor "$k" (sent done) ≠ [] ∧ messagesFor "$l" (sent done) = [] ∧
        LastGreatest (recent (messagesFor "$k" (sent done))) ⟨.label "@d", 1⟩ := by
  intro p x
  have hk : x.outcome.messages["$k"]? = some ⟨.label "@d", 1⟩ := by decide +kernel
  have hl : "$l" ∉ x.outcome.messages := by decide +kernel
  obtain ⟨-, done, hdone, hmessages⟩ := outbox_of_run p 9 none ∅ (SplitMix.ofSeed 7)
  obtain ⟨hsent, hlast⟩ := hmessages "$k"
  obtain ⟨hgreatest, hnan, -⟩ := hlast _ hk
  have hrecent : recent (messagesFor "$k" (sent done)) ≠ [] := by
    intro hnil
    exact absurd (hnan hnil).2 (by decide +kernel)
  refine ⟨by decide +kernel, hk, hl, done, hdone, ?_, ?_, hgreatest hrecent⟩
  · exact hsent.mp (Std.ExtTreeMap.mem_iff_isSome_getElem?.mpr (by rw [hk]; rfl))
  · exact not_not.mp fun hne => hl ((hmessages "$l").1.mpr hne)

end CritterScript
