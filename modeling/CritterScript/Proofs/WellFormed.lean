import CritterScript.Proofs.Labels
import CritterScript.Proofs.Number.ReadBack
import CritterScript.Proofs.Words
import Mathlib

/-!
# What holds of every program that was read

Names in a program carry their sigil and are words, no number in it is `NaN`, and
its instructions stand in the order of their lines. Every line of a script adds
an instruction, or defines a label, or adds nothing, so lines can be counted by
what they add.

`Program.WellFormed` is all this for the lines so far. `WellFormed.add` shows that
a further line keeps it, whatever kind of line it is, if it says something that
can be written (`Line.Written`), and `wellFormed_of_read` is the result for
scripts.
-/

namespace CritterScript

/-! ## What can be written -/

/-- The name starts with a sigil, and it is a word: nothing in it is blank or
starts a comment. -/
def IsName (sigil : Char) (name : String) : Prop :=
  startsWith sigil name = true ∧
    ∀ c ∈ name.toList, Text.isBlank c = false ∧ c ≠ commentMark

/-- A value that a literal can write. -/
def Value.Written : Value → Prop
  | .null => True
  | .number x => x.isNaN = false
  | .label name => IsName labelSigil name
  | .array items => ∀ x ∈ items, x.isNaN = false

/-- An operand that a word can write. -/
def Operand.Written : Operand → Prop
  | .register name => IsName registerSigil name
  | .literal v => v.Written

/-- What line number `index` of a script can say. -/
def Line.Written (index : Nat) : Line → Prop
  | .blank => True
  | .label name => IsName labelSigil name
  | .instruction i => i.line = index ∧ ∀ a ∈ i.operands, a.Written

theorem isName_of_plain {sigil : Char} {name : String} (h : startsWith sigil name = true)
    (hplain : ∀ c ∈ name.toList, isPlain c = true) : IsName sigil name :=
  ⟨h, fun c hc => (isPlain_iff.mp (hplain c hc)).imp id bne_iff_ne.mp⟩

theorem WritesValue.written {s : String} {v : Value} (h : WritesValue s v)
    (hs : ∀ c ∈ s.toList, isPlain c = true) : v.Written := by
  cases h with
  | label hl => exact isName_of_plain hl hs
  | array _ _ hitems =>
    intro x hx
    obtain ⟨item, -, hread⟩ := exists_of_mem_forall₂ hitems hx
    exact Number.isNaN_of_read? hread
  | null => trivial
  | number _ _ hx => exact Number.isNaN_of_read? hx

theorem WritesOperand.written {s : String} {a : Operand} (h : WritesOperand s a)
    (hs : ∀ c ∈ s.toList, isPlain c = true) : a.Written := by
  cases h with
  | register hr => exact isName_of_plain hr hs
  | literal _ hv => exact hv.written hs

/-- What words say can be written. -/
theorem WritesLine.written {index : Nat} {words : List String} {line : Line}
    (h : WritesLine index words line)
    (hwords : ∀ w ∈ words, ∀ c ∈ w.toList, isPlain c = true) : line.Written index := by
  cases h with
  | blank => trivial
  | label hl => exact isName_of_plain hl (hwords _ List.mem_cons_self)
  | @instruction head rest op operands _ _ ho _ =>
    refine ⟨rfl, fun a ha => ?_⟩
    obtain ⟨w, hw, hwa⟩ := exists_of_mem_forall₂ ho ha
    exact hwa.written (hwords w (List.mem_cons_of_mem head hw))

/-! ## Line by line -/

def Line.isBlank : Line → Bool
  | .blank => true
  | _ => false

def Line.isLabel : Line → Bool
  | .label _ => true
  | _ => false

/-- A line adds an instruction, or it defines a label, or it is blank. -/
theorem size_add (p : Program) (line : Line) :
    (p.add line).size + line.isLabel.toNat + line.isBlank.toNat = p.size + 1 := by
  cases line with
  | blank => rfl
  | label name => rfl
  | instruction i => exact Array.size_push i

theorem size_labels_add (p : Program) (line : Line) :
    (p.add line).labels.size ≤ p.labels.size + line.isLabel.toNat := by
  cases line with
  | blank => exact Nat.le_refl _
  | label name => exact Std.ExtTreeMap.size_insert_le
  | instruction i => exact Nat.le_refl _

theorem countP_concat (kind : Line → Bool) (lines : List Line) (line : Line) :
    (lines ++ [line]).countP kind = lines.countP kind + (kind line).toNat := by
  rw [List.countP_append, List.countP_singleton]
  cases kind line <;> rfl

/-- What holds of the program of the lines so far, besides where its labels
are. -/
structure Program.WellFormed (p : Program) (lines : List Line) : Prop extends
    p.Resolved lines where
  increasing : p.code.toList.Pairwise fun i j => i.line < j.line
  operands : ∀ i ∈ p.code, ∀ a ∈ i.operands, a.Written
  names (l : String) (position : Nat) : p.label? l = some position → IsName labelSigil l
  count : p.size + lines.countP Line.isLabel + lines.countP Line.isBlank = lines.length
  labels_le : p.labels.size ≤ lines.countP Line.isLabel

/-- A further line keeps the program well-formed. -/
theorem Program.WellFormed.add {p : Program} {lines : List Line} {line : Line}
    (h : p.WellFormed lines) (hline : line.Written lines.length) :
    (p.add line).WellFormed (lines ++ [line]) := by
  have hresolved : (p.add line).Resolved (lines ++ [line]) := by
    refine h.toResolved.add ?_
    rintro i rfl
    exact hline.1
  have hcount : (p.add line).size + (lines ++ [line]).countP Line.isLabel +
      (lines ++ [line]).countP Line.isBlank = (lines ++ [line]).length := by
    have hsize := size_add p line
    have hbefore := h.count
    rw [countP_concat, countP_concat, List.length_append, List.length_singleton]
    omega
  have hlabels : (p.add line).labels.size ≤ (lines ++ [line]).countP Line.isLabel := by
    have hsize := size_labels_add p line
    have hbefore := h.labels_le
    rw [countP_concat]
    omega
  cases line with
  | blank => exact ⟨hresolved, h.increasing, h.operands, h.names, hcount, hlabels⟩
  | label name =>
    refine ⟨hresolved, h.increasing, h.operands, fun l position hl => ?_, hcount, hlabels⟩
    rw [label?_add] at hl
    by_cases heq : Line.label name = .label l
    · cases heq
      exact hline
    · rw [if_neg heq] at hl
      exact h.names l position hl
  | instruction i =>
    obtain ⟨hi, hoperands⟩ := hline
    refine ⟨hresolved, ?_, ?_, h.names, hcount, hlabels⟩
    · show (p.code.push i).toList.Pairwise _
      rw [Array.toList_push, List.pairwise_append]
      refine ⟨h.increasing, List.pairwise_singleton _ _, fun j hj k hk => ?_⟩
      -- the lines so far have smaller numbers than this one
      rw [List.mem_singleton.mp hk, hi]
      exact h.line_lt j (Array.mem_toList_iff.mp hj)
    · intro j hj
      obtain hj | rfl := Array.mem_push.mp hj
      · exact h.operands j hj
      · exact hoperands

theorem wellFormed_ofLines {lines : List Line}
    (h : ∀ (k : Nat) (line : Line), lines[k]? = some line → line.Written k) :
    (Program.ofLines lines).WellFormed lines := by
  induction lines using List.reverseRecOn with
  | nil =>
    refine ⟨resolved_ofLines fun k i hi => (h k _ hi).1, List.Pairwise.nil, fun i hi => ?_,
      fun l position hl => ?_, rfl, Nat.le_of_eq Std.ExtTreeMap.size_empty⟩
    · simp [Program.ofLines, Program.empty] at hi
    · have hempty : Program.empty.label? l = none := Std.ExtTreeMap.getElem?_empty
      rw [Program.ofLines, List.foldl_nil, hempty] at hl
      cases hl
  | append_singleton lines line ih =>
    rw [Program.ofLines, List.foldl_append, List.foldl_cons, List.foldl_nil]
    refine Program.WellFormed.add (ih fun k l hk => h k l ?_) (h _ _ List.getElem?_concat_length)
    rw [List.getElem?_append_left (List.getElem?_eq_some_iff.mp hk).1, hk]

/-! ## Scripts -/

/-- A line of a script that says nothing. The tokens of a line are the same
wherever it stands, places apart. -/
def isBlankLine (text : String) : Bool :=
  (tokenize text 0).isEmpty

/-- A line of a script that starts with a label, so that it defines it. -/
def isLabelLine (text : String) : Bool :=
  (tokenize text 0).head?.any Token.isLabel

theorem WritesLine.isBlank_eq {index : Nat} {words : List String} {line : Line}
    (h : WritesLine index words line) : line.isBlank = words.isEmpty := by
  cases h <;> rfl

theorem WritesLine.isLabel_eq {index : Nat} {words : List String} {line : Line}
    (h : WritesLine index words line) :
    line.isLabel = words.head?.any (startsWith labelSigil) := by
  cases h with
  | blank => rfl
  | label hl => exact hl.symm
  | instruction hhead => exact hhead.symm

theorem isBlankLine_eq (text : String) (index : Nat) :
    isBlankLine text = ((tokenize text index).map Token.text).isEmpty := by
  rw [map_text_tokenize text index, ← map_text_tokenize text 0, List.isEmpty_map]
  rfl

theorem isLabelLine_eq (text : String) (index : Nat) :
    isLabelLine text = ((tokenize text index).map Token.text).head?.any (startsWith labelSigil) := by
  rw [map_text_tokenize text index, ← map_text_tokenize text 0, List.head?_map, Option.any_map]
  rfl

/-- Lines are counted by what they say as they are by their texts. -/
theorem countP_eq_of_forall₂ {lines : List Line} {texts : List String}
    (hlines : List.Forall₂ (fun (l : String × Nat) line => readLine l.2 l.1 = .ok line)
      texts.zipIdx lines)
    {kind : Line → Bool} {isKind : String → Bool}
    (h : ∀ index text line, WritesLine index ((tokenize text index).map Token.text) line →
      kind line = isKind text) :
    lines.countP kind = texts.countP isKind := by
  have hmap : texts.zipIdx.map (isKind ∘ Prod.fst) = lines.map kind := by
    rw [← List.forall₂_eq_eq_eq, List.forall₂_map_left_iff, List.forall₂_map_right_iff]
    exact hlines.imp fun l line hread => (h l.2 l.1 line (readLine_eq_ok_iff.mp hread)).symm
  rw [← List.map_map, List.zipIdx_map_fst] at hmap
  simpa [List.countP_map] using (congrArg (List.countP id) hmap).symm

/-- The instructions of a script that was read stand in the order of their
lines, which are lines of the script. Names carry their sigil and are words, and
no number is `NaN`. A line that adds no instruction is blank or defines a label,
and several of the latter may define the same one. -/
theorem wellFormed_of_read {source : String} {p : Program} (h : Program.read source = .ok p) :
    p.code.toList.Pairwise (fun i j => i.line < j.line) ∧
      (∀ i ∈ p.code, i.line < (sourceLines source).length ∧ ∀ a ∈ i.operands, a.Written) ∧
      (∀ l position, p.label? l = some position → IsName labelSigil l) ∧
      p.size + (sourceLines source).countP isLabelLine + (sourceLines source).countP isBlankLine =
        (sourceLines source).length ∧
      p.labels.size ≤ (sourceLines source).countP isLabelLine := by
  obtain ⟨lines, hlines, rfl⟩ := read_eq_ok_iff.mp h
  have hwellFormed : (Program.ofLines lines).WellFormed lines := by
    refine wellFormed_ofLines fun k line hk => ?_
    obtain ⟨⟨text, index⟩, htext, hread⟩ := exists_getElem?_of_forall₂ hlines.flip hk
    simp only [List.getElem?_zipIdx, Option.map_eq_some_iff, Prod.mk.injEq, Nat.zero_add] at htext
    obtain ⟨_, -, rfl, rfl⟩ := htext
    exact (readLine_eq_ok_iff.mp hread).written fun w hw => (plain_of_mem_words _ _ w hw).2
  have hlength : lines.length = (sourceLines source).length := by
    rw [← hlines.length_eq, List.length_zipIdx]
  have hlabels : lines.countP Line.isLabel = (sourceLines source).countP isLabelLine :=
    countP_eq_of_forall₂ hlines fun index text line hline =>
      hline.isLabel_eq.trans (isLabelLine_eq text index).symm
  have hblanks : lines.countP Line.isBlank = (sourceLines source).countP isBlankLine :=
    countP_eq_of_forall₂ hlines fun index text line hline =>
      hline.isBlank_eq.trans (isBlankLine_eq text index).symm
  rw [← hlabels, ← hblanks, ← hlength]
  exact ⟨hwellFormed.increasing,
    fun i hi => ⟨hwellFormed.line_lt i hi, hwellFormed.operands i hi⟩,
    hwellFormed.names, hwellFormed.count, hwellFormed.labels_le⟩

/-- Two of these lines define the one label, and one has a comment only. -/
theorem wellFormed_of_read_five_lines :
    let source := "@a\nadd 1,-0.5 null $x\n ; $y\n@a\njmp @a"
    ∃ p, Program.read source = .ok p ∧
      p.code.toList.Pairwise (fun i j => i.line < j.line) ∧
      (∀ i ∈ p.code, i.line < 5 ∧ ∀ a ∈ i.operands, a.Written) ∧
      (∀ l position, p.label? l = some position → IsName labelSigil l) ∧
      p.size + 2 + 1 = 5 ∧ p.labels.size ≤ 2 := by
  intro source
  have hsome : (Program.read source).toOption.isSome = true := by decide +kernel
  obtain ⟨p, hp⟩ := Option.isSome_iff_exists.mp hsome
  have hread : Program.read source = .ok p := by
    cases h : Program.read source with
    | error e => simp [h, Except.toOption] at hp
    | ok q => simpa [h, Except.toOption] using hp
  have hlength : (sourceLines source).length = 5 := by decide +kernel
  have hlabels : (sourceLines source).countP isLabelLine = 2 := by decide +kernel
  have hblanks : (sourceLines source).countP isBlankLine = 1 := by decide +kernel
  have hp := wellFormed_of_read hread
  rw [hlength, hlabels, hblanks] at hp
  exact ⟨p, hread, hp⟩

end CritterScript
