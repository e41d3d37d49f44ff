import CritterScript.Proofs.Concatenation
import CritterScript.Proofs.Disassembly
import CritterScript.Proofs.Effects
import CritterScript.Proofs.Labels
import CritterScript.Proofs.Lockstep
import Mathlib

/-!
# Entry labels and leading jumps

To enter a script at a label is to run it from the top with a jump to that
label in front. The jump moves everything behind it: the instructions are one
position and one line further on, and so are the labels and the end.
`Program.Behind` is this relation, for any instructions in front. Programs so
related run in lockstep from positions that are as far apart
(`Program.Behind.carries`), so all that is left to show of the jump is that it
is read (`read_of_label`) and that it leads to what the label stands for
(`Program.Behind.completes_jump`).
-/

namespace CritterScript

/-! ## A program behind further instructions -/

/-- `q` is the program `p` behind further instructions, and `n` lines further
down. -/
structure Program.Behind (front : List Instruction) (n : Nat) (p q : Program) : Prop where
  code : q.code.toList = front ++ p.code.toList.map (Instruction.down n)
  label (name : String) : q.label? name = (p.label? name).map (· + front.length)

/-- The machine `n` positions further on. -/
def Machine.forward {ρ : Type} (n : Nat) (s : Machine ρ) : Machine ρ :=
  { s with position := s.position + n }

theorem Machine.forward_apply {ρ : Type} (n : Nat) (s : Machine ρ) (e : Effect) :
    (s.forward n).apply (e.relocate (· + n)) = (s.apply e).forward n := by
  cases e with
  | jump position => rfl
  | _ =>
    simp only [Machine.apply, Machine.forward, Effect.relocate]
    rw [Nat.add_right_comm]

theorem Instruction.mirrors_down (i : Instruction) (n : Nat) (r : Registers) :
    Mirrors id i r (i.down n) r :=
  have h : Mirrors id i r i r := mirrors_of_reads fun _ _ => rfl
  ⟨h.opcode, h.value, h.target⟩

namespace Program.Behind

variable {front : List Instruction} {n : Nat} {p q : Program}

theorem size_eq (h : Behind front n p q) : q.size = p.size + front.length := by
  have hlength := congrArg List.length h.code
  rw [List.length_append, List.length_map, Nat.add_comm] at hlength
  exact hlength

theorem fetch (h : Behind front n p q) {k : Nat} {i : Instruction} (hi : p.code[k]? = some i) :
    q.code[k + front.length]? = some (i.down n) := by
  rw [← Array.getElem?_toList, h.code, List.getElem?_append_right (Nat.le_add_left _ _),
    Nat.add_sub_cancel, List.getElem?_map, Array.getElem?_toList, hi]
  rfl

theorem effect_eq (h : Behind front n p q) (i : Instruction) (r : Registers) (sample : Float) :
    (i.down n).effect q r sample =
      (i.effect p r sample).map (Effect.relocate (· + front.length)) := by
  rw [(i.mirrors_down n r).effect_eq h.label h.size_eq]
  simp only [Effect.rename_id]

/-- A program does behind further instructions what it does without them. -/
theorem carries {ρ : Type} [Sampler ρ] (h : Behind front n p q) :
    Carries (ρ := ρ) p q (Machine.forward front.length) (Instruction.down n)
      (Effect.relocate (· + front.length)) where
  halts hs := by
    rw [h.size_eq]
    exact Nat.add_le_add_right hs _
  fetch := h.fetch
  draw _ _ := rfl
  effect_eq s i sample := h.effect_eq i s.registers sample
  drawn _ _ := rfl
  apply := Machine.forward_apply _

end Program.Behind

/-! ## A jump in front -/

theorem mem_labels_iff {p : Program} {l : String} :
    l ∈ p.labels ↔ ∃ position, p.label? l = some position :=
  Std.ExtTreeMap.mem_iff_isSome_getElem?.trans Option.isSome_iff_exists

/-- The instruction that jumps to a label, on the first line. -/
def leadingJump (l : String) : Instruction :=
  ⟨.jmp, [.literal (.label l)], 0⟩

section Execute

variable {ρ : Type} [Sampler ρ] {p q : Program} {l : String} {n : Nat}

/-- The jump leads to where a run starts that enters at the label. -/
theorem Program.Behind.completes_jump (h : Behind [leadingJump l] n p q)
    (hl : l ∈ p.labels) (r : Registers) (random : ρ) :
    ∃ e, Completes q e (q.boot none r random) ((p.boot (some l) r random).forward 1) := by
  obtain ⟨position, hposition⟩ := mem_labels_iff.mp hl
  refine ⟨⟨leadingJump l, .jump (position + 1)⟩, .of_effect ?_ ?_ ?_⟩
  · show q.code[0]? = some (leadingJump l)
    rw [← Array.getElem?_toList, h.code]
    rfl
  · show Instruction.jumpTo q .jmp (.label l) = .ok (.jump (position + 1))
    rw [Instruction.jumpTo, h.label, hposition]
    rfl
  · simp only [Program.boot, Program.start, Option.bind_some, hposition]
    rfl

theorem Program.Behind.execute_alike (h : Behind [leadingJump l] n p q) (hl : l ∈ p.labels)
    (limit : Nat) (r : Registers) (random : ρ) :
    let x := p.execute limit (some l) r random
    { x with cycles := x.cycles + 1 }.Alike (fun s t => t = s.forward 1)
      (fun f g => g.cause = f.cause ∧ g.line = f.line + n)
      (q.execute (limit + 1) none r random) := by
  obtain ⟨e, hjump⟩ := h.completes_jump hl r random
  have hlockstep := h.carries (ρ := ρ).lockstep
    (F := fun f g => g.cause = f.cause ∧ g.line = f.line + n) fun _ _ => ⟨rfl, rfl⟩
  -- behind the jump both have the same budget, and one cycle is spent
  have halike := hlockstep.run (s := p.boot (some l) r random) rfl limit (0 + 1)
  rw [run_add_spent] at halike
  rw [Program.execute, Program.execute, hjump.run_succ]
  exact halike

end Execute

/-! ## A line in front -/

/-- A label of a script that was read is a word that begins like one. -/
theorem label_of_read {source : String} {p : Program} (h : Program.read source = .ok p)
    {l : String} (hl : l ∈ p.labels) :
    startsWith labelSigil l = true ∧ l ≠ "" ∧ ∀ c ∈ l.toList, isPlain c = true := by
  obtain ⟨d, hs, text, -, hwords⟩ := (parts_of_read h l).1.mp (mem_labels_iff.mp hl)
  have hplain := plain_of_mem_words text d
  rw [hwords] at hplain
  exact ⟨hs, hplain l List.mem_cons_self⟩

theorem toList_jump (l : String) :
    ("jmp " ++ l).toList = "jmp".toList ++ ([l].map String.toList).flatMap fun w => ' ' :: w := by
  rw [String.toList_append, List.map_singleton, List.flatMap_singleton]
  rfl

theorem readLine_jump {l : String} (hs : startsWith labelSigil l = true) (hne : l ≠ "")
    (hplain : ∀ c ∈ l.toList, isPlain c = true) :
    readLine 0 ("jmp " ++ l) = .ok (.instruction (leadingJump l)) := by
  have hwords := tokenize_words (toList_jump l) (by decide) (List.all_eq_true.mp (by decide))
    (by simpa using hplain) 0
  have hkept : [l].filter (· != "") = [l] := List.filter_eq_self.mpr (by simpa using hne)
  rw [hkept] at hwords
  have hregister : startsWith registerSigil l = false := by
    rw [startsWith, beq_iff_eq] at hs
    rw [startsWith, hs]
    rfl
  have hconforms : (leadingJump l).Conforms := ⟨rfl, List.forall_mem_singleton.mpr rfl⟩
  rw [readLine_eq_ok_iff, hwords]
  exact .instruction rfl rfl (.cons (.literal hregister (.label hs)) .nil) hconforms

theorem sourceLines_jump {l : String} (hplain : ∀ c ∈ l.toList, isPlain c = true) :
    sourceLines ("jmp " ++ l) = ["jmp " ++ l] :=
  sourceLines_words (toList_jump l) (List.all_eq_true.mp (by decide)) (by simpa using hplain)

/-- A script with a jump to one of its labels in front. -/
theorem read_of_label {source : String} {p : Program} (h : Program.read source = .ok p)
    {l : String} (hl : l ∈ p.labels) :
    ∃ q, Program.read ("jmp " ++ l ++ "\n" ++ source) = .ok q ∧
      Program.Behind [leadingJump l] 1 p q := by
  obtain ⟨hs, hne, hplain⟩ := label_of_read h hl
  rw [read_eq_readLines, map_eq_ok_iff] at h
  obtain ⟨ls, hls, rfl⟩ := h
  have hjump : readLines 0 (sourceLines ("jmp " ++ l)) = .ok [.instruction (leadingJump l)] := by
    rw [sourceLines_jump hplain, readLines, List.zipIdx_singleton, List.mapM_cons,
      readLine_jump hs hne hplain]
    rfl
  -- the lines of the script are counted from one now
  have hmoved : readLines 1 (sourceLines source) = .ok (ls.map (Line.down 1)) := by
    have halike := readLines_add 1 (sourceLines source)
    rw [hls] at halike
    generalize readLines 1 (sourceLines source) = y at halike
    cases halike with
    | ok hy => rw [hy]
  obtain ⟨hcode, hlabel⟩ := ofLines_append_down 1 [.instruction (leadingJump l)] ls
  refine ⟨_, ?_, hcode, fun name => ?_⟩
  · rw [read_eq_readLines, sourceLines_append, readLines_append, hjump, sourceLines_jump hplain,
      List.length_singleton, hmoved]
    rfl
  · have hnone : (Program.ofLines [.instruction (leadingJump l)]).label? name = none :=
      Std.ExtTreeMap.getElem?_empty
    rw [hlabel, hnone, Option.or_none]
    rfl

/-- To enter a script at a label is to put a jump to the label in front of it
and to run that from the top: the registers, the messages, the source of random
numbers and the timeout are the same, with a cycle more, and the same fault on
the next line. -/
theorem execute_of_leading_jump {source l : String} {p : Program}
    (hread : Program.read source = .ok p) (hl : l ∈ p.labels) :
    ∃ q, Program.read ("jmp " ++ l ++ "\n" ++ source) = .ok q ∧
      ∀ {ρ : Type} [Sampler ρ] (limit : Nat) (r : Registers) (random : ρ),
        let x := p.execute limit (some l) r random
        let y := q.execute (limit + 1) none r random
        y.machine.registers = x.machine.registers ∧ y.machine.random = x.machine.random ∧
          y.outcome = { x.outcome with cycles := x.cycles + 1 } ∧
          Option.Rel (fun f g => g.cause = f.cause ∧ g.line = f.line + 1) x.fault? y.fault? := by
  obtain ⟨q, hq, hbehind⟩ := read_of_label hread hl
  refine ⟨q, hq, fun {ρ} _ limit r random => ?_⟩
  intro x y
  have halike := hbehind.execute_alike hl limit r random
  have hmachine : y.machine = x.machine.forward 1 := halike.machine
  have houtcome : y.outcome = { x.outcome with cycles := x.cycles + 1 } := by
    rw [Outcome.mk.injEq]
    refine ⟨?_, halike.cycles.symm, halike.timeout.symm⟩
    show y.machine.outbox = x.machine.outbox
    rw [hmachine]
    rfl
  refine ⟨?_, ?_, houtcome, halike.fault?⟩
  · rw [hmachine]
    rfl
  · rw [hmachine]
    rfl

/-- A script that is entered behind its first instruction, jumps on, and faults
on its last line. With a jump in front it faults a line further down. -/
theorem execute_of_leading_jump_fault :
    let source := "mov @a $x\n@f\njmp @g\n@g\nget $x $x $y"
    ∃ p, Program.read source = .ok p ∧ "@f" ∈ p.labels ∧
      (p.execute 9 (some "@f") ∅ (SplitMix.ofSeed 7)).cycles = 2 ∧
      (p.execute 9 (some "@f") ∅ (SplitMix.ofSeed 7)).fault? =
        some ⟨.expectedArray .get .null, 4⟩ ∧
      ∃ q, Program.read ("jmp " ++ "@f" ++ "\n" ++ source) = .ok q ∧
        (q.execute 10 none ∅ (SplitMix.ofSeed 7)).outcome.cycles = 3 ∧
        ∃ g, (q.execute 10 none ∅ (SplitMix.ofSeed 7)).fault? = some g ∧
          g.cause = .expectedArray .get .null ∧ g.line = 5 := by
  intro source
  let p : Program := ⟨#[⟨.mov, [.literal (.label "@a"), .register "$x"], 0⟩,
    ⟨.jmp, [.literal (.label "@g")], 2⟩,
    ⟨.get, [.register "$x", .register "$x", .register "$y"], 4⟩],
    ((∅ : NameTable Nat).insert "@f" 1).insert "@g" 2⟩
  have hread : Program.read source = .ok p := by cbv
  have hl : "@f" ∈ p.labels := by decide
  have hcycles : (p.execute 9 (some "@f") ∅ (SplitMix.ofSeed 7)).cycles = 2 := by decide +kernel
  have hfault : (p.execute 9 (some "@f") ∅ (SplitMix.ofSeed 7)).fault? =
      some ⟨.expectedArray .get .null, 4⟩ := by decide +kernel
  obtain ⟨q, hread', hruns⟩ := execute_of_leading_jump hread hl
  obtain ⟨-, -, houtcome, hrel⟩ := hruns 9 ∅ (SplitMix.ofSeed 7)
  rw [hfault] at hrel
  refine ⟨p, hread, hl, hcycles, hfault, q, hread', ?_, ?_⟩
  · rw [houtcome, hcycles]
  · generalize (q.execute 10 none ∅ (SplitMix.ofSeed 7)).fault? = fault at hrel
    cases hrel with
    | @some _ g hg => exact ⟨g, rfl, hg⟩

end CritterScript
