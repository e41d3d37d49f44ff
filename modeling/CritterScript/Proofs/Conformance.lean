import CritterScript.Proofs.Reading
import CritterScript.Proofs.Steps
import CritterScript.Tick
import Mathlib

/-!
# Instructions with the operands they take

Operands are described twice: `Opcode.slots` lists what each opcode takes,
and `Instruction.effect` asks for operands by their positions. Where the two
agree, an instruction that conforms finds every operand it asks for.

`Opcode.Raises` says which causes can then be left, for each opcode, and
`Instruction.Conforms.effect_failsIn` that there are no others. The rest
carries this from one instruction to runs (`Program.Conforms.run_raises`) and
ticks, and back to scripts: `conforms_of_read` is that every program that was
read conforms.
-/

namespace CritterScript

/-! ## What stops a computation -/

section FailsIn

variable {α β : Type} {P : Cause → Prop}

/-- Whatever stops `x` satisfies `P`. -/
def FailsIn (P : Cause → Prop) (x : Except Cause α) : Prop :=
  ∀ c, x = .error c → P c

theorem failsIn_ok (a : α) : FailsIn P (.ok a) := by
  intro c h
  cases h

theorem failsIn_error {c : Cause} (h : P c) : FailsIn P (.error c : Except Cause α) := by
  intro d hd
  cases hd
  exact h

theorem FailsIn.bind {x : Except Cause α} {f : α → Except Cause β} (hx : FailsIn P x)
    (hf : ∀ a, FailsIn P (f a)) : FailsIn P (x >>= f) := by
  cases x with
  | ok a => exact hf a
  | error c => exact failsIn_error (hx c rfl)

theorem FailsIn.map {x : Except Cause α} (f : α → β) (hx : FailsIn P x) :
    FailsIn P (x.map f) := by
  cases x with
  | ok a => exact failsIn_ok (f a)
  | error c => exact failsIn_error (hx c rfl)

end FailsIn

namespace Opcode

/-- It combines two values item by item. -/
def isArithmetic : Opcode → Bool
  | add | sub | mul | div | mod => true
  | _ => false

/-- It jumps or not, as a value says. -/
def isBranch : Opcode → Bool
  | jez | jlz | jgz => true
  | _ => false

/-- The causes that can stop an instruction that has the operands its opcode
takes. -/
def Raises (op : Opcode) : Cause → Prop
  | .typeMismatch op' _ _ => op' = op ∧ op.isArithmetic = true
  | .pushOperand _ => op = push
  | .expectedArray op' _ => op' = op ∧ (op = get ∨ op = vlen)
  | .expectedIndex _ => op = get
  | .indexOutOfBounds _ => op = get
  | .expectedPair _ => op = vdir
  | .expectedNumber op' _ => op' = op ∧ op = unitv
  | .unknownLabel _ => op = jmp ∨ op.isBranch = true
  | .badJumpTarget op' _ => op' = op ∧ (op = jmp ∨ op.isBranch = true)
  | .notComparable _ => op.isBranch = true
  | .expectedPriority _ => op = send
  | .malformed _ => False

end Opcode

/-! ## Operations on values -/

namespace Value

theorem combine_failsIn {op : Opcode} (hop : op.isArithmetic = true)
    (f : Float → Float → Float) (left right : Value) :
    FailsIn op.Raises (combine op f left right) := by
  have hm : ∀ l r, FailsIn op.Raises (.error (.typeMismatch op l r) : Except Cause Value) :=
    fun l r => failsIn_error ⟨rfl, hop⟩
  unfold combine
  split
  · exact failsIn_ok _
  · split
    · exact failsIn_ok _
    · exact hm _ _
  · exact hm _ _

theorem items_failsIn (v : Value) : FailsIn (Opcode.Raises .push) v.items := by
  unfold items
  split
  · exact failsIn_ok _
  · exact failsIn_ok _
  · exact failsIn_error rfl

theorem item_failsIn (v index : Value) : FailsIn (Opcode.Raises .get) (v.item index) := by
  unfold item
  split
  · split
    · exact failsIn_ok _
    · exact failsIn_error rfl
  · exact failsIn_error rfl
  · exact failsIn_error ⟨rfl, .inl rfl⟩

theorem norm_failsIn (v : Value) : FailsIn (Opcode.Raises .vlen) v.norm := by
  unfold norm
  split
  · exact failsIn_ok _
  · exact failsIn_error ⟨rfl, .inr rfl⟩

theorem direction_failsIn (v : Value) : FailsIn (Opcode.Raises .vdir) v.direction := by
  unfold direction
  split
  · exact failsIn_ok _
  · exact failsIn_error rfl

theorem unitVector_failsIn (v : Value) : FailsIn (Opcode.Raises .unitv) v.unitVector := by
  unfold unitVector
  split
  · exact failsIn_ok _
  · exact failsIn_error ⟨rfl, rfl⟩

theorem takesJump_failsIn {op : Opcode} (hop : op.isBranch = true) (v : Value) :
    FailsIn op.Raises (v.takesJump op) := by
  unfold takesJump
  dsimp only
  split
  · exact failsIn_ok _
  · exact failsIn_error hop

end Value

/-! ## Operands -/

namespace Instruction

variable {i : Instruction} {position : Nat} {P : Cause → Prop}

/-- Where the opcode has a slot, the instruction has an operand that fits. -/
theorem Conforms.operand_eq_ok (h : i.Conforms) {slot : Slot}
    (hs : i.opcode.slots[position]? = some slot) :
    ∃ a, i.operand position = .ok a ∧ slot.accepts a.kind = true := by
  obtain ⟨hlt, -⟩ := List.getElem?_eq_some_iff.mp hs
  have hlt' : position < i.operands.length := by
    rw [h.1]
    exact hlt
  have ha : i.operands[position]? = some i.operands[position] := List.getElem?_eq_getElem hlt'
  refine ⟨i.operands[position], ?_, h.2 (slot, i.operands[position]) ?_⟩
  · simp only [operand, ha]
  · rw [List.mem_iff_getElem?]
    exact ⟨position, List.getElem?_zip_eq_some.mpr ⟨hs, ha⟩⟩

theorem Conforms.value_failsIn (h : i.Conforms) (r : Registers) {slot : Slot}
    (hs : i.opcode.slots[position]? = some slot) : FailsIn P (i.value r position) := by
  obtain ⟨a, ha, -⟩ := h.operand_eq_ok hs
  rw [value, ha]
  exact failsIn_ok _

theorem Conforms.target_failsIn (h : i.Conforms)
    (hs : i.opcode.slots[position]? = some .target) : FailsIn P (i.target position) := by
  obtain ⟨a, ha, hk⟩ := h.operand_eq_ok hs
  rw [target, ha]
  cases a with
  | register name => exact failsIn_ok name
  | literal v => exact absurd hk Bool.false_ne_true

theorem Conforms.storeAt_failsIn (h : i.Conforms) (v : Value)
    (hs : i.opcode.slots[position]? = some .target) : FailsIn P (i.storeAt position v) :=
  (h.target_failsIn hs).map _

/-! ## Instructions -/

theorem jumpTo_failsIn {op : Opcode} (hop : op = .jmp ∨ op.isBranch = true) (p : Program)
    (v : Value) : FailsIn op.Raises (jumpTo p op v) := by
  unfold jumpTo
  split
  · split
    · exact failsIn_ok _
    · exact failsIn_error hop
  · exact failsIn_error ⟨rfl, hop⟩

theorem Conforms.unary_failsIn (h : i.Conforms) (hs : i.opcode.slots = [.source, .target])
    (r : Registers) {f : Value → Except Cause Value} (hf : ∀ v, FailsIn P (f v)) :
    FailsIn P (i.unary r f) := by
  have h₀ : i.opcode.slots[0]? = some .source := by rw [hs]; rfl
  have h₁ : i.opcode.slots[1]? = some .target := by rw [hs]; rfl
  exact (h.value_failsIn r h₀).bind fun v => (hf v).bind fun w => h.storeAt_failsIn w h₁

theorem Conforms.arithmetic_failsIn (h : i.Conforms)
    (hs : i.opcode.slots = [.source, .source, .target])
    (hop : i.opcode.isArithmetic = true) (r : Registers)
    (f : Float → Float → Float) : FailsIn i.opcode.Raises (i.arithmetic r f) := by
  have h₀ : i.opcode.slots[0]? = some .source := by rw [hs]; rfl
  have h₁ : i.opcode.slots[1]? = some .source := by rw [hs]; rfl
  have h₂ : i.opcode.slots[2]? = some .target := by rw [hs]; rfl
  refine (h.value_failsIn r h₀).bind fun left => ?_
  refine (h.value_failsIn r h₁).bind fun right => ?_
  exact (Value.combine_failsIn hop f left right).bind fun v => h.storeAt_failsIn v h₂

theorem Conforms.branch_failsIn (h : i.Conforms) (hs : i.opcode.slots = [.source, .source])
    (hop : i.opcode.isBranch = true) (p : Program) (r : Registers) :
    FailsIn i.opcode.Raises (i.branch p r) := by
  have h₀ : i.opcode.slots[0]? = some .source := by rw [hs]; rfl
  have h₁ : i.opcode.slots[1]? = some .source := by rw [hs]; rfl
  refine (h.value_failsIn r h₀).bind fun v => ?_
  refine (Value.takesJump_failsIn hop v).bind fun taken => ?_
  cases taken with
  | true =>
    exact (h.value_failsIn r h₁).bind fun w => jumpTo_failsIn (.inr hop) p w
  | false => exact failsIn_ok _

/-- An instruction with the operands its opcode takes is stopped only by the
causes of its opcode. -/
theorem Conforms.effect_failsIn (h : i.Conforms) (p : Program) (r : Registers) (sample : Float) :
    FailsIn i.opcode.Raises (i.effect p r sample) := by
  obtain ⟨op, operands, line⟩ := i
  -- in each case the positions that the instruction asks for are looked up in its slots
  cases op with
  | mov => exact h.unary_failsIn rfl r failsIn_ok
  | add => exact h.arithmetic_failsIn rfl rfl r _
  | sub => exact h.arithmetic_failsIn rfl rfl r _
  | mul => exact h.arithmetic_failsIn rfl rfl r _
  | div => exact h.arithmetic_failsIn rfl rfl r _
  | mod => exact h.arithmetic_failsIn rfl rfl r _
  | rand => exact h.storeAt_failsIn _ rfl
  | push =>
    refine (h.value_failsIn r rfl).bind fun left => ?_
    refine left.items_failsIn.bind fun front => ?_
    refine (h.value_failsIn r rfl).bind fun right => ?_
    exact right.items_failsIn.bind fun back => h.storeAt_failsIn _ rfl
  | get =>
    refine (h.value_failsIn r rfl).bind fun array => ?_
    refine (h.value_failsIn r rfl).bind fun index => ?_
    exact (array.item_failsIn index).bind fun v => h.storeAt_failsIn v rfl
  | vlen => exact h.unary_failsIn rfl r Value.norm_failsIn
  | vdir => exact h.unary_failsIn rfl r Value.direction_failsIn
  | unitv => exact h.unary_failsIn rfl r Value.unitVector_failsIn
  | jmp => exact (h.value_failsIn r rfl).bind fun v => jumpTo_failsIn (.inl rfl) p v
  | jez => exact h.branch_failsIn rfl rfl p r
  | jlz => exact h.branch_failsIn rfl rfl p r
  | jgz => exact h.branch_failsIn rfl rfl p r
  | ret => exact failsIn_ok _
  | send =>
    refine (h.value_failsIn r rfl).bind fun priority => ?_
    refine (h.value_failsIn r rfl).bind fun value => ?_
    refine (h.target_failsIn rfl).bind fun key => ?_
    cases priority with
    | number x => exact failsIn_ok _
    | null => exact failsIn_error rfl
    | label name => exact failsIn_error rfl
    | array xs => exact failsIn_error rfl

end Instruction

/-! ## Runs and ticks -/

variable {ρ : Type} [Sampler ρ] {p : Program}

/-- A fault of a run comes from an instruction of the program, with a cause
of its opcode. -/
theorem Program.Conforms.run_raises (h : p.Conforms) {s : Machine ρ} {budget spent : Nat}
    {f : Fault} (hf : (s.run p budget spent).fault? = some f) :
    ∃ i ∈ p.code, f.line = i.line ∧ i.opcode.Raises f.cause := by
  obtain ⟨-, t, i, c, -, -, hi, -, rfl⟩ := (run_ends p budget spent s).of_fault hf
  have hmem : i ∈ p.code := Array.mem_of_getElem? hi.fetch
  exact ⟨i, hmem, rfl, (h i hmem).effect_failsIn p t.registers _ c hi.effect⟩

theorem Program.Conforms.run_ne_malformed (h : p.Conforms) (s : Machine ρ) (budget spent : Nat) :
    ∀ f ∈ (s.run p budget spent).fault?, ∀ op, f.cause ≠ .malformed op := by
  intro f hf op hc
  obtain ⟨i, -, -, hr⟩ := h.run_raises hf
  rw [hc] at hr
  exact hr

/-- Every report of a sequence of ticks is that of a tick. -/
theorem exists_tick_of_mem_ticksFrom {c : Schedule} {count first : Nat} {past : List Report}
    {w : World ρ} {report : Report} (h : report ∈ (p.ticksFrom c count first past w).1) :
    report ∈ past ∨ ∃ k v, report = (p.tick c k (v : World ρ)).1 := by
  induction count generalizing first past w with
  | zero => exact .inl (List.mem_reverse.mp h)
  | succ count ih =>
    obtain hpast | htick := ih h
    · obtain rfl | hpast := List.mem_cons.mp hpast
      · exact .inr ⟨first, w, rfl⟩
      · exact .inl hpast
    · exact .inr htick

/-! ## Scripts -/

theorem conforms_of_readLine {index : Nat} {line : String} {i : Instruction}
    (h : readLine index line = .ok (.instruction i)) : i.Conforms := by
  obtain ⟨head, rest, -, -, hi⟩ := readTokens_eq_instruction_iff.mp h
  exact conforms_of_readInstruction hi

theorem conforms_of_read {source : String} (h : Program.read source = .ok p) : p.Conforms := by
  intro i hi
  obtain ⟨index, line, -, hl⟩ := exists_line_of_mem_code h hi
  exact conforms_of_readLine hl

/-- Every program that was read conforms, and no run or tick of a program that
conforms meets a malformed instruction. -/
theorem conforming_never_malformed :
    (∀ source p, Program.read source = .ok p → p.Conforms) ∧
      ∀ p : Program, p.Conforms →
        (∀ limit entry r (random : ρ),
          ∀ f ∈ (p.execute limit entry r random).fault?, ∀ op, f.cause ≠ .malformed op) ∧
        (∀ limit r (random : ρ),
          ∀ f ∈ (p.resume limit r random).fault?, ∀ op, f.cause ≠ .malformed op) ∧
        ∀ c count (w : World ρ), ∀ report ∈ (p.ticks c count w).1,
          ∀ f ∈ report.fault, ∀ op, f.cause ≠ .malformed op := by
  refine ⟨fun source p h => conforms_of_read h, fun p h => ⟨?_, ?_, ?_⟩⟩
  · intro limit entry r random
    exact h.run_ne_malformed _ limit 0
  · intro limit r random
    exact h.run_ne_malformed _ limit 0
  · intro c count w report hreport
    obtain hpast | ⟨k, v, rfl⟩ := exists_tick_of_mem_ticksFrom hreport
    · cases hpast
    · exact h.run_ne_malformed _ c.limit 0

/-- A script that is read and then fails at a jump, in a run and in each of
two ticks. -/
theorem conforming_never_malformed_jump :
    let p : Program := ⟨#[⟨.mov, [.literal (.label "@go"), .register "$x"], 0⟩,
      ⟨.jmp, [.literal .null], 1⟩], ∅⟩
    let x := p.execute 9 none ∅ (SplitMix.ofSeed 7)
    let reports := (p.ticks ⟨9, none⟩ 2 ⟨∅, SplitMix.ofSeed 7⟩).1
    Program.read "mov @go $x\njmp null" = .ok p ∧ p.Conforms ∧
      x.fault? = some ⟨.badJumpTarget .jmp .null, 1⟩ ∧
      (∀ f ∈ x.fault?, ∀ op, f.cause ≠ .malformed op) ∧
      reports.map Report.fault = [x.fault?, x.fault?] ∧
      ∀ report ∈ reports, ∀ f ∈ report.fault, ∀ op, f.cause ≠ .malformed op := by
  intro p x reports
  have hread : Program.read "mov @go $x\njmp null" = .ok p := by cbv
  have hfaults : reports.map Report.fault = [x.fault?, x.fault?] := by cbv
  obtain ⟨hconforms, hnever⟩ := @conforming_never_malformed SplitMix _
  have hp : p.Conforms := hconforms _ p hread
  obtain ⟨hexecute, -, hticks⟩ := hnever p hp
  exact ⟨hread, hp, rfl, hexecute 9 none ∅ (SplitMix.ofSeed 7), hfaults,
    hticks ⟨9, none⟩ 2 ⟨∅, SplitMix.ofSeed 7⟩⟩

end CritterScript
