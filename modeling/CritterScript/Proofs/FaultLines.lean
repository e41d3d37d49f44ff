import CritterScript.Proofs.Conformance
import CritterScript.Proofs.Grammar

/-!
# Faults and the lines of a script

A fault names a line. For a program that was read from a script, this is the
line of the script that holds the instruction at fault, whatever labels,
blank lines and comments stand in between and however the run got there:
`fault_of_script` finds the instruction on that line, and its opcode accounts
for the cause.
-/

namespace CritterScript

/-- An instruction stands on the line it was read from, behind a word that
names its opcode. -/
theorem WritesLine.instruction_inv {index : Nat} {words : List String} {i : Instruction}
    (h : WritesLine index words (.instruction i)) :
    i.line = index ∧ ∃ head rest, words = head :: rest ∧ startsWith labelSigil head = false ∧
      EqIgnoringCase head i.opcode.name := by
  cases h with
  | @instruction head rest op operands hl hop ho hc => exact ⟨rfl, head, rest, rfl, hl, hop⟩

/-- The line of an instruction, in the script it was read from. -/
theorem exists_text_of_mem_code {source : String} {p : Program} {i : Instruction}
    (h : Program.read source = .ok p) (hi : i ∈ p.code) :
    ∃ text, (sourceLines source)[i.line]? = some text ∧
      WritesLine i.line ((tokenize text i.line).map Token.text) (.instruction i) := by
  obtain ⟨index, text, htext, hread⟩ := exists_line_of_mem_code h hi
  have hline := readLine_eq_ok_iff.mp hread
  obtain ⟨rfl, -⟩ := hline.instruction_inv
  exact ⟨text, htext, hline⟩

variable {ρ : Type} [Sampler ρ]

/-- A run of a script faults at an instruction `i`, which stands on the line
that the fault names; the first word of that line names the opcode of `i`, and
the cause is one of that opcode. -/
theorem fault_of_script {source : String} {p : Program} (h : Program.read source = .ok p)
    (limit : Nat) (entry : Option String) (r : Registers) (random : ρ) {f : Fault}
    (hf : (p.execute limit entry r random).fault? = some f) :
    ∃ done t i, Steps p done (p.boot entry r random) t ∧
      Fails p i f.cause t (p.execute limit entry r random).machine ∧
      ∃ text head rest, (sourceLines source)[f.line]? = some text ∧
        (tokenize text f.line).map Token.text = head :: rest ∧
        WritesLine f.line (head :: rest) (.instruction i) ∧
        EqIgnoringCase head i.opcode.name ∧ i.opcode.Raises f.cause := by
  obtain ⟨done, t, i, c, hsteps, -, hfails, -, rfl⟩ :=
    (execute_ends p limit entry r random).of_fault hf
  have hmem : i ∈ p.code := Array.mem_of_getElem? hfails.fetch
  obtain ⟨text, htext, hline⟩ := exists_text_of_mem_code h hmem
  obtain ⟨-, head, rest, hwords, -, hop⟩ := hline.instruction_inv
  have hraises : i.opcode.Raises c :=
    (conforms_of_read h i hmem).effect_failsIn p t.registers _ c hfails.effect
  rw [hwords] at hline
  exact ⟨done, t, i, hsteps, hfails, text, head, rest, htext, hwords, hline, hop, hraises⟩

/-- A script with a label, a comment, a blank line and both kinds of line end,
which jumps to its label and faults on its last line. -/
theorem fault_of_script_last_line :
    let source := "mov @b $x ; note\r\njmp $x\n\n@b\r\n jEz null $y"
    let p : Program := ⟨#[⟨.mov, [.literal (.label "@b"), .register "$x"], 0⟩,
      ⟨.jmp, [.register "$x"], 1⟩, ⟨.jez, [.literal .null, .register "$y"], 4⟩],
      (∅ : NameTable Nat).insert "@b" 2⟩
    let x := p.execute 9 none ∅ (SplitMix.ofSeed 7)
    Program.read source = .ok p ∧ x.fault? = some ⟨.badJumpTarget .jez .null, 4⟩ ∧
      ∃ text head rest, (sourceLines source)[4]? = some text ∧
        (tokenize text 4).map Token.text = head :: rest ∧
        EqIgnoringCase head Opcode.jez.name := by
  intro source p x
  have hread : Program.read source = .ok p := by cbv
  have hfault : x.fault? = some ⟨.badJumpTarget .jez .null, 4⟩ := by cbv
  obtain ⟨-, -, i, -, -, text, head, rest, htext, hwords, -, hop, hraises⟩ :=
    fault_of_script hread 9 none ∅ (SplitMix.ofSeed 7) hfault
  obtain ⟨hjez, -⟩ := hraises
  rw [← hjez] at hop
  exact ⟨hread, hfault, text, head, rest, htext, hwords, hop⟩

end CritterScript
