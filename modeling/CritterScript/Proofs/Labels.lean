import CritterScript.Proofs.Concatenation
import CritterScript.Proofs.FaultLines
import CritterScript.Proofs.Steps
import Mathlib

/-!
# What labels stand for

While a script is read, a label is given the number of instructions so far.
`Program.Resolved` is what holds of the program after each line: the
instructions stand on lines that were read, and the position of a label parts
those above its last definition from those below (`Program.PartsAt`). Every
kind of line keeps this (`Program.Resolved.add`), so it holds in the end.

A machine moves to the next instruction, to the end, or to the position of a
label that an operand gives (`Instruction.effect_eq_jump`). So a jump goes on
with the first instruction below the label (`Machine.ContinuesBelow`), and no
run leaves the program any further than its end (`Steps.position_le`).
-/

namespace CritterScript

/-! ## Lines and positions -/

/-- The position parts the instructions at line `d`: those in front of it
stand above the line, and the others below. -/
structure Program.PartsAt (p : Program) (d position : Nat) : Prop where
  le_size : position ≤ p.size
  above (k : Nat) (i : Instruction) : p.code[k]? = some i → k < position → i.line < d
  below (k : Nat) (i : Instruction) : p.code[k]? = some i → position ≤ k → d < i.line

/-- The program of the lines so far: its instructions stand on them, it has a
position for every label among them, and this parts the instructions at the
line that was the last to define the label. -/
structure Program.Resolved (p : Program) (lines : List Line) : Prop where
  line_lt : ∀ i ∈ p.code, i.line < lines.length
  defined (l : String) : .label l ∈ lines → ∃ position, p.label? l = some position
  parts (l : String) (position : Nat) : p.label? l = some position →
    ∃ d, IsGreatest {k : Nat | lines[k]? = some (.label l)} d ∧ p.PartsAt d position

theorem setOf_getElem?_concat_of_ne {α : Type} {x y : α} (h : y ≠ x) (xs : List α) :
    {k : Nat | (xs ++ [y])[k]? = some x} = {k : Nat | xs[k]? = some x} := by
  ext k
  simp only [Set.mem_ofPred_eq, List.getElem?_append, List.getElem?_singleton]
  grind

theorem isGreatest_concat_self {α : Type} (xs : List α) (x : α) :
    IsGreatest {k : Nat | (xs ++ [x])[k]? = some x} xs.length := by
  constructor
  · simp
  · intro k hk
    have hlt := (List.getElem?_eq_some_iff.mp hk).1
    rw [List.length_append, List.length_singleton] at hlt
    omega

theorem Program.PartsAt.push {p : Program} {d position : Nat} (h : p.PartsAt d position)
    {i : Instruction} (hi : d < i.line) : (p.add (.instruction i)).PartsAt d position := by
  have hpush : ∀ k j, (p.add (.instruction i)).code[k]? = some j →
      p.code[k]? = some j ∨ (k = p.size ∧ j = i) := by
    intro k j hj
    simp only [Program.add, Array.getElem?_push] at hj
    grind [Program.size]
  constructor
  · have hsize : (p.add (.instruction i)).size = p.size + 1 := Array.size_push i
    have := h.le_size
    omega
  · intro k j hj hk
    obtain hj | ⟨rfl, rfl⟩ := hpush k j hj
    · exact h.above k j hj hk
    · have := h.le_size
      omega
  · intro k j hj hk
    obtain hj | ⟨rfl, rfl⟩ := hpush k j hj
    · exact h.below k j hj hk
    · exact hi

namespace Program.Resolved

variable {p : Program} {lines : List Line} {line : Line}

/-- A line that does not define the label leaves the label where it was. -/
theorem parts_concat (h : p.Resolved lines) {l : String} {position : Nat}
    (hl : p.label? l = some position) (hne : line ≠ .label l)
    (hadd : ∀ d < lines.length, p.PartsAt d position → (p.add line).PartsAt d position) :
    ∃ d, IsGreatest {k : Nat | (lines ++ [line])[k]? = some (.label l)} d ∧
      (p.add line).PartsAt d position := by
  obtain ⟨d, hd, hparts⟩ := h.parts l position hl
  refine ⟨d, ?_, hadd d (List.getElem?_eq_some_iff.mp hd.1).1 hparts⟩
  rwa [setOf_getElem?_concat_of_ne hne]

/-- A further line keeps the program resolved, if an instruction on it has the
number of the line. -/
theorem add (h : p.Resolved lines) (hline : ∀ i, line = .instruction i → i.line = lines.length) :
    (p.add line).Resolved (lines ++ [line]) := by
  refine ⟨?_, ?_, ?_⟩
  · intro i hi
    rw [List.length_append, List.length_singleton]
    cases line with
    | blank => exact Nat.lt_succ_of_lt (h.line_lt i hi)
    | label name => exact Nat.lt_succ_of_lt (h.line_lt i hi)
    | instruction j =>
      obtain hi | rfl := Array.mem_push.mp hi
      · exact Nat.lt_succ_of_lt (h.line_lt i hi)
      · rw [hline i rfl]
        exact Nat.lt_succ_self _
  · intro l hl
    rw [label?_add]
    by_cases hdef : line = .label l
    · exact ⟨p.size, if_pos hdef⟩
    · rw [if_neg hdef]
      have hne : Line.label l ≠ line := Ne.symm hdef
      exact h.defined l (by simpa [hne] using hl)
  · intro l position hl
    rw [label?_add] at hl
    by_cases hdef : line = .label l
    · rw [if_pos hdef] at hl
      obtain rfl : p.size = position := Option.some.inj hl
      subst hdef
      -- every instruction so far stands above the line
      refine ⟨lines.length, isGreatest_concat_self lines _, Nat.le_refl _, ?_, ?_⟩
      · intro k i hi _
        exact h.line_lt i (Array.mem_of_getElem? hi)
      · intro k i hi hk
        have hlt : k < p.size := (Array.getElem?_eq_some_iff.mp hi).1
        omega
    · rw [if_neg hdef] at hl
      refine h.parts_concat hl hdef fun d hd hparts => ?_
      cases line with
      | blank => exact hparts
      | label name => exact ⟨hparts.le_size, hparts.above, hparts.below⟩
      | instruction i =>
        have hi := hline i rfl
        exact hparts.push (by omega)

end Program.Resolved

/-- Reading resolves all labels, if the instructions have the numbers of their
lines. -/
theorem resolved_ofLines {lines : List Line}
    (h : ∀ (k : Nat) (i : Instruction), lines[k]? = some (.instruction i) → i.line = k) :
    (Program.ofLines lines).Resolved lines := by
  induction lines using List.reverseRecOn with
  | nil =>
    have hempty : ∀ l, Program.empty.label? l = none := fun _ => Std.ExtTreeMap.getElem?_empty
    refine ⟨fun i hi => ?_, fun l hl => ?_, fun l position hl => ?_⟩
    · simp [Program.ofLines, Program.empty] at hi
    · cases hl
    · rw [Program.ofLines, List.foldl_nil, hempty] at hl
      cases hl
  | append_singleton lines line ih =>
    rw [Program.ofLines, List.foldl_append, List.foldl_cons, List.foldl_nil]
    refine Program.Resolved.add (ih fun k i hk => h k i ?_) fun i hi => h _ i ?_
    · rw [List.getElem?_append_left (List.getElem?_eq_some_iff.mp hk).1, hk]
    · simp [hi]

/-! ## Scripts -/

/-- Line number `d` of a script defines a label: the label is the only word on
it. -/
def DefinesLabel (source l : String) (d : Nat) : Prop :=
  startsWith labelSigil l = true ∧
    ∃ text, (sourceLines source)[d]? = some text ∧ (tokenize text d).map Token.text = [l]

theorem writesLine_label_iff {index : Nat} {words : List String} {l : String} :
    WritesLine index words (.label l) ↔ startsWith labelSigil l = true ∧ words = [l] := by
  constructor
  · intro h
    cases h with
    | label hl => exact ⟨hl, rfl⟩
  · rintro ⟨hl, rfl⟩
    exact .label hl

section Script

variable {source : String} {p : Program}

/-- The lines of a script that was read, by their numbers. -/
theorem exists_lines_of_read (h : Program.read source = .ok p) :
    ∃ lines, Program.ofLines lines = p ∧ ∀ (k : Nat) (line : Line), lines[k]? = some line ↔
      ∃ text, (sourceLines source)[k]? = some text ∧
        WritesLine k ((tokenize text k).map Token.text) line := by
  obtain ⟨lines, hlines, rfl⟩ := read_eq_ok_iff.mp h
  refine ⟨lines, rfl, fun k line => ?_⟩
  simp only [← readLine_eq_ok_iff]
  constructor
  · intro hline
    obtain ⟨⟨text, index⟩, htext, hread⟩ := exists_getElem?_of_forall₂ hlines.flip hline
    simp only [List.getElem?_zipIdx, Option.map_eq_some_iff, Prod.mk.injEq, Nat.zero_add] at htext
    obtain ⟨_, htext, rfl, rfl⟩ := htext
    exact ⟨_, htext, hread⟩
  · rintro ⟨text, htext, hread⟩
    obtain ⟨line', hline', hread'⟩ :=
      exists_getElem?_of_forall₂ hlines (getElem?_zipIdx_of_getElem? htext)
    rw [hline', Option.some_inj]
    exact Except.ok.inj (hread'.symm.trans hread)

/-- A script has a position for just the labels that one of its lines defines,
and the position parts the instructions at the last of these lines. -/
theorem parts_of_read (h : Program.read source = .ok p) (l : String) :
    ((∃ position, p.label? l = some position) ↔ ∃ d, DefinesLabel source l d) ∧
      ∀ position, p.label? l = some position →
        ∃ d, IsGreatest {d | DefinesLabel source l d} d ∧ p.PartsAt d position := by
  obtain ⟨lines, rfl, hlines⟩ := exists_lines_of_read h
  have hdefines : ∀ k : Nat, lines[k]? = some (.label l) ↔ DefinesLabel source l k := by
    intro k
    simp only [hlines, writesLine_label_iff, DefinesLabel]
    grind
  have hresolved : (Program.ofLines lines).Resolved lines := by
    refine resolved_ofLines fun k i hi => ?_
    obtain ⟨text, -, hline⟩ := (hlines k _).mp hi
    exact hline.instruction_inv.1
  have hparts := hresolved.parts l
  simp only [hdefines] at hparts
  refine ⟨⟨?_, ?_⟩, hparts⟩
  · rintro ⟨position, hposition⟩
    obtain ⟨d, hd, -⟩ := hparts position hposition
    exact ⟨d, hd.1⟩
  · rintro ⟨d, hd⟩
    exact hresolved.defined l (List.mem_of_getElem? ((hdefines d).mpr hd))

end Script

/-! ## Jumps -/

/-- The operand that says where a jump leads. -/
def Opcode.jumpOperand? : Opcode → Option Nat
  | jmp => some 0
  | jez | jlz | jgz => some 1
  | _ => none

theorem Instruction.jumpTo_eq_jump {p : Program} {op : Opcode} {v : Value} {position : Nat}
    (h : jumpTo p op v = .ok (.jump position)) :
    ∃ l, v = .label l ∧ p.label? l = some position := by
  cases v with
  | label l =>
    refine ⟨l, rfl, ?_⟩
    rw [jumpTo] at h
    cases hl : p.label? l with
    | none =>
      rw [hl] at h
      cases h
    | some n =>
      rw [hl] at h
      cases h
      rfl
  | _ => cases h

/-- What moves a machine other than to the next instruction: the end of the
program, or a label that an operand gives. -/
theorem Instruction.effect_eq_jump {i : Instruction} {p : Program} {r : Registers}
    {sample : Float} {position : Nat} (h : i.effect p r sample = .ok (.jump position)) :
    (i.opcode = .ret ∧ position = p.size) ∨
      ∃ k l, i.opcode.jumpOperand? = some k ∧ i.value r k = .ok (.label l) ∧
        p.label? l = some position := by
  have hbranch : i.branch p r = .ok (.jump position) →
      ∃ l, i.value r 1 = .ok (.label l) ∧ p.label? l = some position := by
    intro hb
    obtain ⟨v, -, hb⟩ := bind_eq_ok_iff.mp hb
    obtain ⟨taken, -, hb⟩ := bind_eq_ok_iff.mp hb
    cases taken with
    | false => cases hb
    | true =>
      obtain ⟨v, hv, hb⟩ := bind_eq_ok_iff.mp hb
      obtain ⟨l, rfl, hl⟩ := jumpTo_eq_jump hb
      exact ⟨l, hv, hl⟩
  rw [effect] at h
  cases hop : i.opcode with
  | ret =>
    simp only [hop, Except.ok.injEq, Effect.jump.injEq] at h
    exact .inl ⟨rfl, h.symm⟩
  | jmp =>
    simp only [hop] at h
    obtain ⟨v, hv, h⟩ := bind_eq_ok_iff.mp h
    obtain ⟨l, rfl, hl⟩ := jumpTo_eq_jump h
    exact .inr ⟨0, l, rfl, hv, hl⟩
  | jez | jlz | jgz =>
    simp only [hop] at h
    obtain ⟨l, hv, hl⟩ := hbranch h
    exact .inr ⟨1, l, rfl, hv, hl⟩
  | send =>
    simp only [hop] at h
    obtain ⟨priority, -, h⟩ := bind_eq_ok_iff.mp h
    obtain ⟨v, -, h⟩ := bind_eq_ok_iff.mp h
    obtain ⟨key, -, h⟩ := bind_eq_ok_iff.mp h
    cases priority <;> cases h
  | _ =>
    simp [hop, unary, arithmetic, storeAt, bind_eq_ok_iff, map_eq_ok_iff] at h

/-- The completed instruction is a jump that was taken, and the operand that
says where it leads is the label or a register that holds it. -/
structure Event.JumpsTo (e : Event) (r : Registers) (l : String) : Prop where
  taken : ∃ position, e.effect = .jump position
  operand : ∃ k a, e.instruction.opcode.jumpOperand? = some k ∧
    e.instruction.operands[k]? = some a ∧
      (a = .literal (.label l) ∨ ∃ name, a = .register name ∧ r.get name = .label l)

section Runs

variable {ρ : Type} [Sampler ρ] {p : Program} {s t : Machine ρ} {e : Event}

/-- The machine goes on with the first instruction below line `d`, or halts if
there is none. -/
inductive Machine.ContinuesBelow (p : Program) (d : Nat) (t : Machine ρ) : Prop
  | instruction {i : Instruction} : p.code[t.position]? = some i → d < i.line →
    (∀ (k : Nat) (j : Instruction), p.code[k]? = some j → d < j.line → t.position ≤ k) →
    ContinuesBelow p d t
  | halt : (∀ i ∈ p.code, i.line < d) →
    (∀ budget spent, t.run p budget spent = ⟨t, spent, .halted⟩) → ContinuesBelow p d t

theorem Program.PartsAt.continuesBelow {d : Nat} (h : p.PartsAt d t.position) :
    t.ContinuesBelow p d := by
  cases hi : p.code[t.position]? with
  | some i =>
    refine .instruction hi (h.below _ i hi (Nat.le_refl _)) fun k j hj hd => ?_
    by_contra hk
    have := h.above k j hj (by omega)
    omega
  | none =>
    have hsize : p.size ≤ t.position := Array.getElem?_eq_none_iff.mp hi
    refine .halt (fun j hj => ?_) (run_of_size_le hsize)
    obtain ⟨k, hk, hjk⟩ := Array.mem_iff_getElem.mp hj
    exact h.above k j (Array.getElem?_eq_some_iff.mpr ⟨hk, hjk⟩) (Nat.lt_of_lt_of_le hk hsize)

/-- A jump leads to the position of its label. -/
theorem Completes.label?_of_jumpsTo (hc : Completes p e s t) {l : String}
    (hjump : e.JumpsTo s.registers l) : p.label? l = some t.position := by
  obtain ⟨⟨position, heffect⟩, k, a, hk, ha, hlabel⟩ := hjump
  have hvalue : e.instruction.value s.registers k = .ok (.label l) := by
    rw [Instruction.value, Instruction.operand, ha]
    obtain rfl | ⟨name, rfl, hname⟩ := hlabel
    · rfl
    · exact congrArg Except.ok hname
  have heff := hc.effect
  rw [heffect] at heff
  rw [hc.result, heffect]
  obtain ⟨hret, -⟩ | ⟨k', l', hk', hvalue', hl'⟩ := Instruction.effect_eq_jump heff
  · rw [hret] at hk
    cases hk
  · obtain rfl : k = k' := Option.some.inj (hk.symm.trans hk')
    rw [hvalue] at hvalue'
    cases hvalue'
    exact hl'

section Bounded

variable (hlabels : ∀ l position, p.label? l = some position → position ≤ p.size)

include hlabels

/-- An instruction leads no further than to the end of the program. -/
theorem Completes.position_le (hc : Completes p e s t) : t.position ≤ p.size := by
  have hlt : s.position < p.size := (Array.getElem?_eq_some_iff.mp hc.fetch).1
  have heff := hc.effect
  rw [hc.result]
  cases he : e.effect with
  | jump position =>
    rw [he] at heff
    obtain ⟨-, rfl⟩ | ⟨k, l, -, -, hl⟩ := Instruction.effect_eq_jump heff
    · exact Nat.le_refl _
    · exact hlabels l position hl
  | _ => exact hlt

theorem Steps.position_le {done : List Event} (h : Steps p done s t) (hs : s.position ≤ p.size) :
    t.position ≤ p.size := by
  induction h with
  | nil => exact hs
  | cons hc _ ih => exact ih (hc.position_le hlabels)

theorem Program.start_le (entry : Option String) : p.start entry ≤ p.size := by
  rw [Program.start]
  cases hl : entry.bind p.label? with
  | none => exact Nat.zero_le _
  | some position =>
    obtain ⟨l, -, hl⟩ := Option.bind_eq_some_iff.mp hl
    exact hlabels l position hl

theorem Ends.position_le {n spent : Nat} {x : Execution ρ} (h : Ends p n spent s x)
    (hs : s.position ≤ p.size) : x.machine.position ≤ p.size := by
  cases h with
  | halted hsteps => exact hsteps.position_le hlabels hs
  | timedOut hsteps => exact hsteps.position_le hlabels hs
  | faulted hsteps _ hf =>
    have := hsteps.position_le hlabels hs
    rwa [← hf.keeps.1] at this

end Bounded

end Runs

/-- What the labels of a script stand for. A label has a position just if some
line has it as its only word. The instructions in front of this position stand
above the last such line `d`, and the others below. So a jump to the label
that is taken, directly or by way of a register, goes on with the first
instruction below that line, or halts if there is none. No run, whatever its
entry, is ever further on than at the end. -/
theorem labels_of_script {source : String} {p : Program} (h : Program.read source = .ok p) :
    (∀ l, (∃ position, p.label? l = some position) ↔ ∃ d, DefinesLabel source l d) ∧
      (∀ l position, p.label? l = some position →
        ∃ d, IsGreatest {d | DefinesLabel source l d} d ∧ p.PartsAt d position) ∧
      ∀ {ρ : Type} [Sampler ρ],
        (∀ e (s t : Machine ρ) l, Completes p e s t → e.JumpsTo s.registers l →
          ∃ d, IsGreatest {d | DefinesLabel source l d} d ∧ t.ContinuesBelow p d) ∧
        ∀ (entry : Option String) (r : Registers) (random : ρ),
          (∀ done t, Steps p done (p.boot entry r random) t → t.position ≤ p.size) ∧
            ∀ limit, (p.execute limit entry r random).machine.position ≤ p.size := by
  have hparts := fun l => (parts_of_read h l).2
  have hlabels : ∀ l position, p.label? l = some position → position ≤ p.size := by
    intro l position hl
    obtain ⟨d, -, hd⟩ := hparts l position hl
    exact hd.le_size
  refine ⟨fun l => (parts_of_read h l).1, hparts, fun {ρ} _ => ⟨?_, ?_⟩⟩
  · intro e s t l hc hjump
    obtain ⟨d, hd, hparts⟩ := hparts l _ (hc.label?_of_jumpsTo hjump)
    exact ⟨d, hd, hparts.continuesBelow⟩
  · intro entry r random
    have hstart := Program.start_le hlabels entry
    exact ⟨fun done t hsteps => hsteps.position_le hlabels hstart, fun limit =>
      (execute_ends p limit entry r random).position_le hlabels hstart⟩

/-- A script that defines a label twice and another at its end, to which it
jumps by way of a register. -/
theorem labels_of_script_twice :
    let source := "@a\nmov @b $x\njmp $x\n@a ; again\nret\n @b"
    let i : Instruction := ⟨.jmp, [.register "$x"], 2⟩
    let p : Program := ⟨#[⟨.mov, [.literal (.label "@b"), .register "$x"], 1⟩, i, ⟨.ret, [], 4⟩],
      (((∅ : NameTable Nat).insert "@a" 0).insert "@a" 2).insert "@b" 3⟩
    let s : Machine SplitMix := ⟨1, (∅ : Registers).set "$x" (.label "@b"), ∅, .ofSeed 7⟩
    Program.read source = .ok p ∧ p.label? "@a" = some 2 ∧
      IsGreatest {d | DefinesLabel source "@a" d} 3 ∧ p.PartsAt 3 2 ∧
      Completes p ⟨i, .jump 3⟩ s { s with position := 3 } ∧
      (∃ d, IsGreatest {d | DefinesLabel source "@b" d} d ∧
        { s with position := 3 }.ContinuesBelow p d) ∧
      (p.execute 9 none ∅ (SplitMix.ofSeed 7)).machine.position ≤ p.size := by
  intro source i p s
  have hread : Program.read source = .ok p := by cbv
  have hlabel : p.label? "@a" = some 2 := by decide
  have hjump : Completes p ⟨i, .jump 3⟩ s { s with position := 3 } := ⟨rfl, rfl, rfl⟩
  obtain ⟨-, hparts, hruns⟩ := labels_of_script hread
  obtain ⟨hjumps, hbounds⟩ := hruns (ρ := SplitMix)
  obtain ⟨d, hd, hparts⟩ := hparts "@a" 2 hlabel
  -- the jump stands on line 2 and the end on line 4
  have hline : d = 3 := by
    have hfront : 2 < d := hparts.above 1 i rfl (by decide)
    have hback : d < 4 := hparts.below 2 ⟨.ret, [], 4⟩ rfl (by decide)
    omega
  subst hline
  exact ⟨hread, hlabel, hd, hparts, hjump,
    hjumps _ _ _ "@b" hjump ⟨⟨3, rfl⟩, 0, _, rfl, rfl, .inr ⟨"$x", rfl, rfl⟩⟩,
    (hbounds none ∅ (.ofSeed 7)).2 9⟩

end CritterScript
