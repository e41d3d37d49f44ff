import CritterScript.Proofs.Answers
import CritterScript.Script.Reading

/-!
# How a script is read

What it means that reading succeeds, from the outside in: a script is read
just if each of its lines is (`read_eq_ok_iff`), the instructions of the
program are those of the lines (`code_ofLines`), and a line is read as an
instruction just if it passes all checks on one (`readInstruction_eq_ok_iff`).
-/

namespace CritterScript

/-! ## Instructions -/

/-- The checks on an instruction: there is an opcode, operands can be read,
they are as many as the opcode takes, and each is written as its slot
wants it. -/
theorem readInstruction_eq_ok_iff {head : Token} {rest : List Token} {i : Instruction} :
    readInstruction head rest = .ok i ↔
      ∃ op operands, Opcode.ofName? head.text = some op ∧ rest.mapM readOperand = .ok operands ∧
        operands.length = op.arity ∧ misfit? op rest operands = none ∧
        i = ⟨op, operands, head.place.line⟩ := by
  rw [readInstruction]
  constructor
  · intro h
    cases hop : Opcode.ofName? head.text with
    | none =>
      rw [hop] at h
      cases h
    | some op =>
      rw [hop] at h
      obtain ⟨operands, ho, h⟩ := bind_eq_ok_iff.mp h
      by_cases hl : operands.length = op.arity
      · rw [if_neg (not_not_intro hl)] at h
        cases hm : misfit? op rest operands with
        | none =>
          rw [hm] at h
          exact ⟨op, operands, rfl, ho, hl, hm, (Except.ok.inj h).symm⟩
        | some e =>
          rw [hm] at h
          cases h
      · rw [if_pos hl] at h
        cases h
  · rintro ⟨op, operands, hop, ho, hl, hm, rfl⟩
    rw [hop]
    refine bind_eq_ok_iff.mpr ⟨operands, ho, ?_⟩
    rw [if_neg (not_not_intro hl), hm]

/-- The slots with their operands, as `misfit?` goes through them. -/
theorem zip_eq_map_zipIdx {op : Opcode} {tokens : List Token} {operands : List Operand}
    (hl : tokens.length = operands.length) :
    op.slots.zip operands =
      ((op.slots.zip (tokens.zip operands)).zipIdx 1).map fun x => (x.1.1, x.1.2.2) := by
  have hsnd : (tokens.zip operands).map Prod.snd = operands :=
    List.map_snd_zip (Nat.le_of_eq hl.symm)
  calc op.slots.zip operands
    _ = (op.slots.zip (tokens.zip operands)).map (Prod.map id Prod.snd) := by
      rw [← List.zip_map_right, hsnd]
    _ = (((op.slots.zip (tokens.zip operands)).zipIdx 1).map Prod.fst).map
          (Prod.map id Prod.snd) := by
      rw [List.zipIdx_map_fst]
    _ = _ := by
      rw [List.map_map]
      rfl

theorem misfit?_eq_none_iff {op : Opcode} {tokens : List Token} {operands : List Operand}
    (hl : tokens.length = operands.length) :
    misfit? op tokens operands = none ↔
      ∀ pair ∈ op.slots.zip operands, pair.1.accepts pair.2.kind = true := by
  rw [misfit?, List.findSome?_eq_none_iff, zip_eq_map_zipIdx hl, List.forall_mem_map]
  refine forall₂_congr fun x _ => ?_
  obtain ⟨⟨slot, t, a⟩, position⟩ := x
  show (if slot.accepts a.kind = true then none else some _) = none ↔ _
  by_cases h : slot.accepts a.kind = true
  · rw [if_pos h]
    exact iff_of_true rfl h
  · rw [if_neg h]
    exact iff_of_false (Option.some_ne_none _) h

/-- What is read as an instruction has the operands its opcode takes. -/
theorem conforms_of_readInstruction {head : Token} {rest : List Token} {i : Instruction}
    (h : readInstruction head rest = .ok i) : i.Conforms := by
  obtain ⟨op, operands, -, ho, hl, hm, rfl⟩ := readInstruction_eq_ok_iff.mp h
  exact ⟨hl, (misfit?_eq_none_iff (mapM_eq_ok_iff.mp ho).length_eq).mp hm⟩

/-! ## Lines -/

theorem readTokens_eq_instruction_iff {tokens : List Token} {i : Instruction} :
    readTokens tokens = .ok (.instruction i) ↔
      ∃ head rest, tokens = head :: rest ∧ head.isLabel = false ∧
        readInstruction head rest = .ok i := by
  constructor
  · intro h
    match tokens with
    | [] => cases h
    | head :: rest =>
      rw [readTokens.eq_def] at h
      by_cases hl : head.isLabel = true
      · simp only [hl, if_true] at h
        cases rest <;> cases h
      · simp only [hl] at h
        obtain ⟨j, hj, he⟩ := map_eq_ok_iff.mp h
        cases he
        exact ⟨head, rest, rfl, Bool.eq_false_iff.mpr hl, hj⟩
  · rintro ⟨head, rest, rfl, hl, hi⟩
    rw [readTokens.eq_def]
    simp only [hl]
    exact map_eq_ok_iff.mpr ⟨i, hi, rfl⟩

/-- The instruction of a line. -/
def Line.instruction? : Line → Option Instruction
  | .instruction i => some i
  | _ => none

theorem code_foldl_add (lines : List Line) (p : Program) :
    (lines.foldl Program.add p).code.toList =
      p.code.toList ++ lines.filterMap Line.instruction? := by
  induction lines generalizing p with
  | nil => rw [List.filterMap_nil, List.append_nil, List.foldl_nil]
  | cons line lines ih =>
    rw [List.foldl_cons, ih]
    cases line with
    | blank => rfl
    | label name => rfl
    | instruction i =>
      show (p.code.push i).toList ++ _ = _
      rw [Array.toList_push, List.append_assoc]
      rfl

/-- The instructions of a program are those of its lines, in order. -/
theorem code_ofLines (lines : List Line) :
    (Program.ofLines lines).code.toList = lines.filterMap Line.instruction? :=
  code_foldl_add lines .empty

/-! ## Scripts -/

/-- A script is read just if each of its lines is. -/
theorem read_eq_ok_iff {source : String} {p : Program} :
    Program.read source = .ok p ↔
      ∃ lines, List.Forall₂ (fun (l : String × Nat) line => readLine l.2 l.1 = .ok line)
        (sourceLines source).zipIdx lines ∧ Program.ofLines lines = p := by
  rw [Program.read, map_eq_ok_iff]
  simp only [mapM_eq_ok_iff]

/-- Every instruction of a script was read from one of its lines. -/
theorem exists_line_of_mem_code {source : String} {p : Program} {i : Instruction}
    (h : Program.read source = .ok p) (hi : i ∈ p.code) :
    ∃ index line, (sourceLines source)[index]? = some line ∧
      readLine index line = .ok (.instruction i) := by
  obtain ⟨lines, hlines, rfl⟩ := read_eq_ok_iff.mp h
  rw [← Array.mem_toList_iff, code_ofLines, List.mem_filterMap] at hi
  obtain ⟨l, hl, hli⟩ := hi
  obtain ⟨k, hk, rfl⟩ := List.mem_iff_getElem.mp hl
  have hk' : k < (sourceLines source).zipIdx.length := hlines.length_eq ▸ hk
  have hr := hlines.get hk' hk
  rw [List.get_eq_getElem, List.get_eq_getElem, List.getElem_zipIdx, Nat.zero_add] at hr
  cases hlk : lines[k] with
  | blank =>
    rw [hlk] at hli
    cases hli
  | label name =>
    rw [hlk] at hli
    cases hli
  | instruction j =>
    rw [hlk] at hli hr
    cases hli
    exact ⟨k, _, List.getElem?_eq_getElem _, hr⟩

end CritterScript
