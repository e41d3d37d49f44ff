import CritterScript.Proofs.Disassembly
import CritterScript.Proofs.Frames
import Mathlib

/-!
# Where labels come from

Labels are passed on and never made. No operation on values gives a label, so
one that an instruction stores or sends is the value of one of its operands
(`Instruction.effect_passesOn`): it stood in the program, or in a register.

If all labels in the program and in a machine have some property, then after
a step they still do (`Completes.labelsIn`), hence after a run and, as
messages become registers, after a tick. `known_of_shows` has the property of
being there from the start.
-/

namespace CritterScript

/-! ## Labels that are there -/

/-- Some register holds the label. -/
def Registers.HoldsLabel (r : Registers) (name : String) : Prop :=
  ∃ register, r.get? register = some (.label name)

/-- Some message proposes the label. -/
def Outbox.HoldsLabel (o : Outbox) (name : String) : Prop :=
  ∃ (key : String) (m : Message), o[key]? = some m ∧ m.value = .label name

/-- Some instruction of the program has the label for a literal operand. -/
def Program.MentionsLabel (p : Program) (name : String) : Prop :=
  ∃ i ∈ p.code, .literal (.label name) ∈ i.operands

/-- The label is there before the program runs on the registers. -/
def Program.Knows (p : Program) (r : Registers) (name : String) : Prop :=
  r.HoldsLabel name ∨ p.MentionsLabel name

/-- The label that an effect puts into a register or a message. -/
def Effect.label? : Effect → Option String
  | .store _ v => v.label?
  | .post _ m => m.value.label?
  | .jump _ => none
  | .skip => none

/-! ## Values -/

namespace Value

theorem label?_eq_some_iff {v : Value} {name : String} :
    v.label? = some name ↔ v = .label name := by
  cases v <;> simp [label?]

section Operations

variable {u v w : Value}

theorem label?_combine {op : Opcode} {f : Float → Float → Float} (h : combine op f u v = .ok w) :
    w.label? = none := by
  rw [combine.eq_def] at h
  split at h
  · cases h
    rfl
  · split at h
    · cases h
      rfl
    · cases h
  · cases h

theorem label?_item (h : u.item v = .ok w) : w.label? = none := by
  rw [item.eq_def] at h
  split at h
  · split at h
    · cases h
      rfl
    · cases h
  · cases h
  · cases h

theorem label?_norm (h : u.norm = .ok w) : w.label? = none := by
  rw [norm.eq_def] at h
  split at h <;> cases h
  rfl

theorem label?_direction (h : u.direction = .ok w) : w.label? = none := by
  rw [direction.eq_def] at h
  split at h <;> cases h
  rfl

theorem label?_unitVector (h : u.unitVector = .ok w) : w.label? = none := by
  rw [unitVector.eq_def] at h
  split at h <;> cases h
  rfl

end Operations

end Value

/-! ## One instruction -/

namespace Instruction

variable {i : Instruction} {r : Registers}

/-- A label in the effect that `x` has is the value of an operand. -/
def PassesOn (i : Instruction) (r : Registers) (x : Except Cause Effect) : Prop :=
  ∀ e name, x = .ok e → e.label? = some name → ∃ position, i.value r position = .ok (.label name)

theorem passesOn_error (c : Cause) : i.PassesOn r (.error c) := by
  intro e name h
  cases h

theorem passesOn_ok {e : Effect} (h : e.label? = none) : i.PassesOn r (.ok e) := by
  intro e' name he hname
  cases he
  rw [h] at hname
  cases hname

theorem passesOn_bind {α : Type} {x : Except Cause α} {f : α → Except Cause Effect}
    (h : ∀ a, x = .ok a → i.PassesOn r (f a)) : i.PassesOn r (x >>= f) := by
  intro e name hx hname
  obtain ⟨a, ha, he⟩ := bind_eq_ok_iff.mp hx
  exact h a ha e name he hname

theorem passesOn_storeAt {v : Value} (h : v.label? = none) (position : Nat) :
    i.PassesOn r (i.storeAt position v) := by
  intro e name he hname
  obtain ⟨target, -, rfl⟩ := map_eq_ok_iff.mp he
  exact passesOn_ok (e := .store target v) h _ name rfl hname

theorem passesOn_jumpTo (p : Program) (op : Opcode) (v : Value) :
    i.PassesOn r (jumpTo p op v) := by
  cases v with
  | label name =>
    rw [jumpTo]
    cases p.label? name with
    | none => exact passesOn_error _
    | some position => exact passesOn_ok rfl
  | _ => exact passesOn_error _

theorem passesOn_unary {f : Value → Except Cause Value}
    (h : ∀ u v, f u = .ok v → v.label? = none) : i.PassesOn r (i.unary r f) :=
  passesOn_bind fun u _ => passesOn_bind fun v hv => passesOn_storeAt (h u v hv) 1

theorem passesOn_arithmetic (f : Float → Float → Float) : i.PassesOn r (i.arithmetic r f) :=
  passesOn_bind fun _ _ => passesOn_bind fun _ _ => passesOn_bind fun _ hv =>
    passesOn_storeAt (Value.label?_combine hv) 2

theorem passesOn_branch (p : Program) : i.PassesOn r (i.branch p r) := by
  refine passesOn_bind fun _ _ => passesOn_bind fun taken _ => ?_
  cases taken with
  | true => exact passesOn_bind fun v _ => passesOn_jumpTo p i.opcode v
  | false => exact passesOn_ok rfl

/-- What `MOV` stores is the value of its first operand. -/
theorem passesOn_mov : i.PassesOn r (i.unary r .ok) := by
  refine passesOn_bind fun v hv => ?_
  intro e name he hname
  obtain ⟨target, -, rfl⟩ := map_eq_ok_iff.mp he
  obtain rfl : v = .label name := Value.label?_eq_some_iff.mp hname
  exact ⟨0, hv⟩

/-- A label that an instruction stores or sends is the value of one of its
operands. -/
theorem effect_passesOn (i : Instruction) (p : Program) (r : Registers) (sample : Float) :
    i.PassesOn r (i.effect p r sample) := by
  obtain ⟨op, operands, line⟩ := i
  cases op with
  | mov => exact passesOn_mov
  | add => exact passesOn_arithmetic _
  | sub => exact passesOn_arithmetic _
  | mul => exact passesOn_arithmetic _
  | div => exact passesOn_arithmetic _
  | mod => exact passesOn_arithmetic _
  | rand => exact passesOn_storeAt rfl 0
  | push =>
    exact passesOn_bind fun _ _ => passesOn_bind fun _ _ => passesOn_bind fun _ _ =>
      passesOn_bind fun _ _ => passesOn_storeAt rfl 2
  | get =>
    exact passesOn_bind fun _ _ => passesOn_bind fun _ _ => passesOn_bind fun _ hv =>
      passesOn_storeAt (Value.label?_item hv) 2
  | vlen => exact passesOn_unary fun _ _ => Value.label?_norm
  | vdir => exact passesOn_unary fun _ _ => Value.label?_direction
  | unitv => exact passesOn_unary fun _ _ => Value.label?_unitVector
  | jmp => exact passesOn_bind fun v _ => passesOn_jumpTo p _ v
  | jez => exact passesOn_branch p
  | jlz => exact passesOn_branch p
  | jgz => exact passesOn_branch p
  | ret => exact passesOn_ok rfl
  | send =>
    refine passesOn_bind fun priority _ => passesOn_bind fun v hv => passesOn_bind fun key _ => ?_
    cases priority with
    | number x =>
      intro e name he hname
      cases he
      obtain rfl : v = .label name := Value.label?_eq_some_iff.mp hname
      exact ⟨1, hv⟩
    | _ => exact passesOn_error _

/-- An operand with a label for its value is that label, or a register that
holds it. -/
theorem holds_or_mem_of_value {position : Nat} {name : String}
    (h : i.value r position = .ok (.label name)) :
    r.HoldsLabel name ∨ .literal (.label name) ∈ i.operands := by
  obtain ⟨a, ha, hv⟩ := map_eq_ok_iff.mp h
  have hmem : a ∈ i.operands := by
    rw [operand] at ha
    cases hget : i.operands[position]? with
    | none =>
      rw [hget] at ha
      cases ha
    | some b =>
      rw [hget] at ha
      cases ha
      exact List.mem_of_getElem? hget
  cases a with
  | register register =>
    refine .inl ⟨register, ?_⟩
    have hget : (r.get? register).getD .null = .label name := hv
    cases hcell : r.get? register with
    | none =>
      rw [hcell] at hget
      cases hget
    | some v =>
      rw [hcell] at hget
      exact congrArg some hget
  | literal v =>
    obtain rfl : v = .label name := hv
    exact .inr hmem

end Instruction

/-! ## Runs -/

/-- All labels in the registers and messages have the property. -/
structure Machine.LabelsIn {ρ : Type} (P : String → Prop) (s : Machine ρ) : Prop where
  registers {name : String} : s.registers.HoldsLabel name → P name
  outbox {name : String} : s.outbox.HoldsLabel name → P name

theorem Registers.holdsLabel_set {r : Registers} {register name : String} {v : Value}
    (h : (r.set register v).HoldsLabel name) : v.label? = some name ∨ r.HoldsLabel name := by
  obtain ⟨other, hother⟩ := h
  rw [get?_set] at hother
  by_cases heq : register = other
  · rw [if_pos heq] at hother
    exact .inl (Value.label?_eq_some_iff.mpr (Option.some.inj hother))
  · rw [if_neg heq] at hother
    exact .inr ⟨other, hother⟩

theorem Outbox.holdsLabel_post {o : Outbox} {key name : String} {m : Message}
    (h : (o.post key m).HoldsLabel name) : m.value.label? = some name ∨ o.HoldsLabel name := by
  obtain ⟨other, n, hn, hvalue⟩ := h
  rw [getElem?_post] at hn
  by_cases heq : key = other
  · rw [if_pos heq, Message.over.eq_def] at hn
    split at hn
    · split at hn
      · exact .inr ⟨other, n, by rw [‹o[other]? = _›, hn], hvalue⟩
      · cases hn
        exact .inl (Value.label?_eq_some_iff.mpr hvalue)
    · cases hn
      exact .inl (Value.label?_eq_some_iff.mpr hvalue)
  · rw [if_neg heq] at hn
    exact .inr ⟨other, n, hn, hvalue⟩

section Runs

variable {ρ : Type} {p : Program} {P : String → Prop} {s t : Machine ρ}

theorem Machine.LabelsIn.apply (h : s.LabelsIn P) {e : Effect}
    (he : ∀ name, e.label? = some name → P name) : (s.apply e).LabelsIn P := by
  cases e with
  | store register v =>
    exact ⟨fun hname => (Registers.holdsLabel_set hname).elim (he _) h.registers, h.outbox⟩
  | post key m =>
    exact ⟨h.registers, fun hname => (Outbox.holdsLabel_post hname).elim (he _) h.outbox⟩
  | jump position => exact ⟨h.registers, h.outbox⟩
  | skip => exact ⟨h.registers, h.outbox⟩

variable [Sampler ρ] (hp : ∀ name, p.MentionsLabel name → P name)

include hp

/-- What a completed instruction stores or sends was in the program or in the
machine. -/
theorem Completes.label {e : Event} (hc : Completes p e s t) (hs : s.LabelsIn P) {name : String}
    (hname : e.effect.label? = some name) : P name := by
  obtain ⟨position, hvalue⟩ :=
    e.instruction.effect_passesOn p s.registers _ _ name hc.effect hname
  rcases Instruction.holds_or_mem_of_value hvalue with hholds | hmem
  · exact hs.registers hholds
  · exact hp name ⟨e.instruction, Array.mem_of_getElem? hc.fetch, hmem⟩

theorem Completes.labelsIn {e : Event} (hc : Completes p e s t) (hs : s.LabelsIn P) :
    t.LabelsIn P := by
  rw [hc.result]
  have hdrawn : { s with random := (s.draw e.instruction).2 }.LabelsIn P :=
    ⟨hs.registers, hs.outbox⟩
  exact hdrawn.apply fun name => hc.label hp hs

theorem Steps.labelsIn {done : List Event} (h : Steps p done s t) (hs : s.LabelsIn P) :
    t.LabelsIn P ∧ ∀ e ∈ done, ∀ name, e.effect.label? = some name → P name := by
  induction h with
  | nil => exact ⟨hs, fun e he => by cases he⟩
  | cons hc _ ih =>
    obtain ⟨ht, hdone⟩ := ih (hc.labelsIn hp hs)
    exact ⟨ht, List.forall_mem_cons.mpr ⟨fun name => hc.label hp hs, hdone⟩⟩

theorem Execution.Completed.labelsIn {done : List Event} {x : Execution ρ}
    (h : x.Completed p s done) (hs : s.LabelsIn P) :
    x.machine.LabelsIn P ∧ ∀ e ∈ done, ∀ name, e.effect.label? = some name → P name := by
  obtain ⟨u, hsteps, hregisters, houtbox⟩ := h.exists_steps
  obtain ⟨hu, hdone⟩ := hsteps.labelsIn hp hs
  refine ⟨⟨fun {name} hname => ?_, fun {name} hname => ?_⟩, hdone⟩
  · rw [hregisters] at hname
    exact hu.registers hname
  · rw [houtbox] at hname
    exact hu.outbox hname

end Runs

theorem Program.labelsIn_boot {ρ : Type} {P : String → Prop} (p : Program)
    (entry : Option String) {r : Registers} (random : ρ)
    (hr : ∀ name, r.HoldsLabel name → P name) : (p.boot entry r random).LabelsIn P := by
  refine ⟨fun hname => hr _ hname, ?_⟩
  rintro name ⟨key, m, hm, -⟩
  rw [Program.boot, Std.ExtTreeMap.getElem?_empty] at hm
  cases hm

/-- A run from the machine `s` leaves the label in a register or a message, or
one of its instructions stored it or sent it. -/
inductive Execution.Shows {ρ : Type} [Sampler ρ] (p : Program) (s : Machine ρ) (x : Execution ρ)
    (name : String) : Prop
  | held : x.machine.registers.HoldsLabel name → Shows p s x name
  | sent : x.outcome.messages.HoldsLabel name → Shows p s x name
  | passed {done : List Event} {e : Event} : x.Completed p s done → e ∈ done →
    e.effect.label? = some name → Shows p s x name

/-- After `count` ticks the label is in a register or in the messages of a
report, or the run of one of them has shown it. -/
inductive Program.Shows {ρ : Type} [Sampler ρ] (p : Program) (c : Schedule) (count : Nat)
    (w : World ρ) (name : String) : Prop
  | held : (p.ticks c count w).2.registers.HoldsLabel name → Shows p c count w name
  | sent {report : Report} : report ∈ (p.ticks c count w).1 →
    report.outcome.messages.HoldsLabel name → Shows p c count w name
  | passed {k : Nat} {before : World ρ} : k < count → before = (p.ticks c k w).2 →
    (p.tickRun c before).Shows p
      (p.boot (c.entryFor before.registers) before.registers before.random) name →
    Shows p c count w name

section Shows

variable {ρ : Type} [Sampler ρ] {p : Program} {P : String → Prop}
  (hp : ∀ name, p.MentionsLabel name → P name)

include hp

theorem Execution.Shows.label {limit : Nat} {entry : Option String} {r : Registers} {random : ρ}
    (hr : ∀ name, r.HoldsLabel name → P name) {name : String}
    (h : (p.execute limit entry r random).Shows p (p.boot entry r random) name) : P name := by
  have hboot := p.labelsIn_boot entry random hr
  obtain ⟨done, hdone⟩ := (execute_ends p limit entry r random).exists_completed
  obtain ⟨hx, -⟩ := hdone.labelsIn hp hboot
  cases h with
  | held hname => exact hx.registers hname
  | sent hname => exact hx.outbox hname
  | passed hcompleted he hname => exact (hcompleted.labelsIn hp hboot).2 _ he name hname

/-- Delivering messages brings no other labels. -/
theorem label_of_tick (c : Schedule) (k : Nat) {w : World ρ}
    (hw : ∀ name, w.registers.HoldsLabel name → P name) {name : String}
    (h : (p.tick c k w).2.registers.HoldsLabel name) : P name := by
  have hrun : (p.tickRun c w).Shows p _ name → P name := Execution.Shows.label hp hw
  obtain ⟨register, hregister⟩ := h
  rw [get?_tick] at hregister
  apply hrun
  cases hm : (p.tickRun c w).outcome.messages[register]? with
  | some m =>
    rw [hm] at hregister
    exact .sent ⟨register, m, hm, Option.some.inj hregister⟩
  | none =>
    rw [hm] at hregister
    exact .held ⟨register, hregister⟩

theorem label_of_ticks (c : Schedule) (count : Nat) {w : World ρ}
    (hw : ∀ name, w.registers.HoldsLabel name → P name) {name : String}
    (h : (p.ticks c count w).2.registers.HoldsLabel name) : P name := by
  induction count generalizing name with
  | zero => exact hw name h
  | succ count ih =>
    rw [ticks_succ] at h
    exact label_of_tick hp c count (fun _ => ih) h

theorem Program.Shows.label {c : Schedule} {count : Nat} {w : World ρ}
    (hw : ∀ name, w.registers.HoldsLabel name → P name) {name : String}
    (h : p.Shows c count w name) : P name := by
  have hrun : ∀ k, (p.tickRun c (p.ticks c k w).2).Shows p _ name → P name := fun k =>
    Execution.Shows.label hp fun _ => label_of_ticks hp c k hw
  cases h with
  | held hname => exact label_of_ticks hp c count hw hname
  | sent hreport hname =>
    obtain ⟨k, hk, hget⟩ := List.mem_iff_getElem.mp hreport
    rw [length_ticks] at hk
    have htick := getElem?_ticks p c hk w
    rw [List.getElem?_eq_getElem (by rwa [length_ticks]), hget] at htick
    rw [Option.some.inj htick] at hname
    exact hrun k (.sent hname)
  | @passed k before hk hbefore hshows =>
    subst hbefore
    exact hrun k hshows

end Shows

/-- The labels that a script mentions are written as labels. -/
theorem startsWith_of_mentionsLabel {source : String} {p : Program}
    (h : Program.read source = .ok p) {name : String} (hname : p.MentionsLabel name) :
    startsWith labelSigil name = true := by
  obtain ⟨i, hi, hmem⟩ := hname
  obtain ⟨words, hspelled⟩ := exists_spelled_of_mem_code h hi
  obtain ⟨word, -, hword⟩ := exists_of_mem_forall₂ hspelled.operands hmem
  cases hword with
  | literal _ hv =>
    cases hv with
    | label hsigil => exact hsigil

/-- Every label that a run or a number of ticks shows was in a register at the
start, or is a literal operand of the program. So if the program is that of a
script, and the labels in the registers start with the sigil of labels, then
all labels that are ever stored or sent do. -/
theorem known_of_shows {ρ : Type} [Sampler ρ] (p : Program) :
    (∀ limit entry r (random : ρ) name,
      (p.execute limit entry r random).Shows p (p.boot entry r random) name → p.Knows r name) ∧
    (∀ c count (w : World ρ) name, p.Shows c count w name → p.Knows w.registers name) ∧
    ∀ source, Program.read source = .ok p →
      ∀ r, (∀ name, r.HoldsLabel name → startsWith labelSigil name = true) →
        (∀ limit entry (random : ρ) name,
          (p.execute limit entry r random).Shows p (p.boot entry r random) name →
          startsWith labelSigil name = true) ∧
        ∀ c count (random : ρ) name, p.Shows c count ⟨r, random⟩ name →
          startsWith labelSigil name = true := by
  refine ⟨?_, ?_, ?_⟩
  · intro limit entry r random name h
    exact Execution.Shows.label (P := p.Knows r) (fun _ => .inr) (fun _ => .inl) h
  · intro c count w name h
    exact Program.Shows.label (P := p.Knows w.registers) (fun _ => .inr) (fun _ => .inl) h
  · intro source hread r hr
    have hp : ∀ name, p.MentionsLabel name → startsWith labelSigil name = true :=
      fun _ => startsWith_of_mentionsLabel hread
    exact ⟨fun limit entry random name h => Execution.Shows.label hp hr h,
      fun c count random name h => Program.Shows.label hp hr h⟩

/-- A script that keeps one label in a register and sends another, which it
finds in a register. After the second tick the label has arrived at a third
register, from where it was stored once more. -/
theorem known_of_shows_two_labels :
    let source := "mov $k $x\nsend $n $y $k\nmov @a $z"
    let r := ((∅ : Registers).set "$n" (.number 1)).set "$y" (.label "@b")
    ∃ p, Program.read source = .ok p ∧
      (∀ name, r.HoldsLabel name → startsWith labelSigil name = true) ∧
      (p.ticks ⟨9, none⟩ 2 ⟨r, SplitMix.ofSeed 7⟩).2.registers.get? "$x" = some (.label "@b") ∧
      p.Shows ⟨9, none⟩ 2 ⟨r, SplitMix.ofSeed 7⟩ "@b" ∧ p.Knows r "@b" ∧
      startsWith labelSigil "@b" = true ∧ ¬ p.MentionsLabel "@b" := by
  intro source r
  let p : Program := ⟨#[⟨.mov, [.register "$k", .register "$x"], 0⟩,
    ⟨.send, [.register "$n", .register "$y", .register "$k"], 1⟩,
    ⟨.mov, [.literal (.label "@a"), .register "$z"], 2⟩], ∅⟩
  have hread : Program.read source = .ok p := by cbv
  have hr : ∀ name, r.HoldsLabel name → startsWith labelSigil name = true := by
    intro name hname
    obtain hlabel | hname := Registers.holdsLabel_set hname
    · cases hlabel
      decide
    obtain hlabel | ⟨register, hregister⟩ := Registers.holdsLabel_set hname
    · cases hlabel
    · have hnone := Registers.get?_empty register
      rw [show (∅ : Registers) = .empty from rfl, hnone] at hregister
      cases hregister
  obtain ⟨-, hknown, hsigil⟩ := @known_of_shows SplitMix _ p
  obtain ⟨-, hsigil⟩ := hsigil source hread r hr
  have hx : (p.ticks ⟨9, none⟩ 2 ⟨r, SplitMix.ofSeed 7⟩).2.registers.get? "$x" =
      some (.label "@b") := by decide +kernel
  have hshows : p.Shows ⟨9, none⟩ 2 ⟨r, SplitMix.ofSeed 7⟩ "@b" := .held ⟨"$x", hx⟩
  refine ⟨p, hread, hr, hx, hshows, hknown _ _ _ _ hshows, hsigil _ _ _ _ hshows, ?_⟩
  rintro ⟨i, hi, hmem⟩
  have hnot : ∀ i ∈ p.code, .literal (.label "@b") ∉ i.operands := by decide
  exact hnot i hi hmem

end CritterScript
