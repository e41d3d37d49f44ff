import CritterScript.Proofs.Answers
import CritterScript.Proofs.Conformance
import CritterScript.Proofs.FaultLines
import CritterScript.Proofs.Number.ReadBack
import CritterScript.Proofs.Words
import Mathlib

/-!
# Instructions written and read back

The text of an instruction is a line of a script. It reads as that
instruction again, up to the equality that scripts see, just if the text of
each of its literals says which value it is (`Value.Legible`): an array is
written with a comma only if it has two items, and no text reads as an
infinity. `Instruction.Spelled.readLine_text` and `Instruction.Spelled.legible`
are the two directions for a line, and `read_text_iff_legible` is the statement
for scripts.
-/

namespace CritterScript

/-- Equality of operands as scripts see it. -/
inductive Operand.Agrees : Operand → Operand → Prop
  | register (name : String) : Agrees (.register name) (.register name)
  | literal {v w : Value} : (v == w) = true → Agrees (.literal v) (.literal w)

/-- Two instructions say the same, on whatever lines. -/
structure Instruction.Agrees (i j : Instruction) : Prop where
  opcode : i.opcode = j.opcode
  operands : List.Forall₂ Operand.Agrees i.operands j.operands

/-- The text of a value says which value it is. A `NaN` is no concern, since
no literal reads as one. -/
def Value.Legible : Value → Prop
  | .null => True
  | .number x => x.isInf = false
  | .label _ => True
  | .array items => 2 ≤ items.length ∧ ∀ x ∈ items, x.isInf = false

instance : (v : Value) → Decidable v.Legible
  | .null => .isTrue trivial
  | .number x => inferInstanceAs (Decidable (x.isInf = false))
  | .label _ => .isTrue trivial
  | .array items => inferInstanceAs (Decidable (2 ≤ items.length ∧ ∀ x ∈ items, x.isInf = false))

def Operand.Legible : Operand → Prop
  | .register _ => True
  | .literal v => v.Legible

instance : (a : Operand) → Decidable a.Legible
  | .register _ => .isTrue trivial
  | .literal v => inferInstanceAs (Decidable v.Legible)

/-- All literals of the instruction are legible. -/
def Instruction.Legible (i : Instruction) : Prop :=
  ∀ a ∈ i.operands, a.Legible

instance (i : Instruction) : Decidable i.Legible :=
  inferInstanceAs (Decidable (∀ a ∈ i.operands, a.Legible))

/-! ## Characters -/

theorem isBlank_of_isTextChar {c : Char} (h : Number.isTextChar c = true) :
    Text.isBlank c = false := by
  have hcode : 45 ≤ c.toNat ∧ c.toNat ≤ 122 := by
    simp only [Number.isTextChar, Char.isAlphanum, Char.isAlpha, Char.isUpper, Char.isLower,
      Char.isDigit, Bool.or_eq_true, Bool.and_eq_true, decide_eq_true_eq, beq_iff_eq, ge_iff_le,
      UInt32.le_iff_toNat_le] at h
    change ((((65 ≤ c.toNat ∧ c.toNat ≤ 90) ∨ (97 ≤ c.toNat ∧ c.toNat ≤ 122)) ∨
      (48 ≤ c.toNat ∧ c.toNat ≤ 57)) ∨ c = '.') ∨ c = '-' at h
    obtain (h | rfl) | rfl := h
    · omega
    · decide
    · decide
  simp only [Text.isBlank, Text.blankRanges, List.any_cons, List.any_nil, Bool.or_eq_false_iff,
    Bool.and_eq_false_iff, decide_eq_false_iff_not, and_true]
  omega

/-- A character of the text of a number has no other meaning in a script. -/
theorem plain_of_isTextChar {c : Char} (h : Number.isTextChar c = true) :
    isPlain c = true ∧ c ≠ itemSeparator ∧ c ≠ labelSigil ∧ c ≠ registerSigil := by
  have hne : ∀ d : Char, Number.isTextChar d = false → c ≠ d := by
    rintro d hd rfl
    rw [h] at hd
    cases hd
  refine ⟨?_, hne _ rfl, hne _ rfl, hne _ rfl⟩
  rw [isPlain, isBlank_of_isTextChar h]
  exact bne_iff_ne.mpr (hne _ rfl)

theorem mem_of_mem_intercalate {sep : List Char} {parts : List (List Char)} {c : Char}
    (h : c ∈ sep.intercalate parts) : c ∈ sep ∨ ∃ part ∈ parts, c ∈ part := by
  induction parts with
  | nil => cases h
  | cons part parts ih =>
    cases parts with
    | nil =>
      rw [List.intercalate_singleton] at h
      exact .inr ⟨part, List.mem_cons_self, h⟩
    | cons next parts =>
      rw [List.intercalate_cons_cons, List.mem_append, List.mem_append] at h
      obtain (h | h) | h := h
      · exact .inr ⟨part, List.mem_cons_self, h⟩
      · exact .inl h
      · refine (ih h).imp_right ?_
        rintro ⟨other, hother, hc⟩
        exact ⟨other, List.mem_cons_of_mem part hother, hc⟩

/-! ## Literals -/

theorem isTextChar_of_mem_text {x : Float} {c : Char} (h : c ∈ Number.text x) :
    Number.isTextChar c = true :=
  List.all_eq_true.mp (Number.all_text x).2 c h

theorem separator_notMem_text (x : Float) : itemSeparator ∉ Number.text x := by
  intro h
  exact (plain_of_isTextChar (isTextChar_of_mem_text h)).2.1 rfl

theorem toList_text_array (items : List Float) :
    (Value.array items).text.toList = [itemSeparator].intercalate (items.map Number.text) := by
  rw [Value.text, String.toList_intercalate, List.map_map]
  congr 1
  exact List.map_congr_left fun x _ => String.toList_ofList

/-- The texts of the items of an array are found again between its commas. -/
theorem splitOn_text_array {items : List Float} (h : 2 ≤ items.length) :
    (((Value.array items).text.toList.splitOn itemSeparator).filter fun item => !item.isEmpty) =
      items.map Number.text := by
  have hmem : ∀ item ∈ items.map Number.text, itemSeparator ∉ item ∧ item ≠ [] := by
    intro item hitem
    obtain ⟨x, -, rfl⟩ := List.mem_map.mp hitem
    exact ⟨separator_notMem_text x, (Number.all_text x).1⟩
  have hne : items.map Number.text ≠ [] := by
    rw [← List.length_pos_iff, List.length_map]
    omega
  rw [toList_text_array, List.splitOn_intercalate _ (fun item hitem => (hmem item hitem).1) hne,
    List.filter_eq_self]
  intro item hitem
  rw [Bool.not_eq_true', List.isEmpty_eq_false_iff]
  exact (hmem item hitem).2

/-- An array is written with a comma just if it has two items. -/
theorem separator_mem_text_array_iff (items : List Float) :
    itemSeparator ∈ (Value.array items).text.toList ↔ 2 ≤ items.length := by
  rw [toList_text_array]
  cases items with
  | nil => simp
  | cons x items =>
    cases items with
    | nil =>
      rw [List.map_singleton, List.intercalate_singleton]
      exact iff_of_false (separator_notMem_text x) (by simp)
    | cons y items =>
      rw [List.map_cons, List.map_cons, List.intercalate_cons_cons]
      exact iff_of_true (by simp) (by simp)

theorem startsWith_eq_false {c : Char} {s : String} (h : c ∉ s.toList) : startsWith c s = false := by
  rw [startsWith, beq_eq_false_iff_ne]
  intro hhead
  exact h (List.mem_of_head? hhead)

/-- The text is a word, and neither a label nor a register. -/
structure LiteralWord (s : String) : Prop where
  plain : ∀ c ∈ s.toList, isPlain c = true
  not_label : startsWith labelSigil s = false
  not_register : startsWith registerSigil s = false

/-- A text made of commas and of the characters of numbers is such a word. -/
theorem literalWord_of_isTextChar {s : String}
    (h : ∀ c ∈ s.toList, c = itemSeparator ∨ Number.isTextChar c = true) : LiteralWord s := by
  refine ⟨?_, startsWith_eq_false ?_, startsWith_eq_false ?_⟩
  · intro c hc
    obtain rfl | hc := h c hc
    · rfl
    · exact (plain_of_isTextChar hc).1
  · intro hmem
    obtain hc | hc := h _ hmem
    · cases hc
    · exact (plain_of_isTextChar hc).2.2.1 rfl
  · intro hmem
    obtain hc | hc := h _ hmem
    · cases hc
    · exact (plain_of_isTextChar hc).2.2.2 rfl

theorem literalWord_number (x : Float) : LiteralWord (Value.number x).text := by
  refine literalWord_of_isTextChar fun c hc => ?_
  rw [Value.text, String.toList_ofList] at hc
  exact .inr (isTextChar_of_mem_text hc)

theorem literalWord_array (items : List Float) : LiteralWord (Value.array items).text := by
  refine literalWord_of_isTextChar fun c hc => ?_
  rw [toList_text_array] at hc
  obtain hc | ⟨item, hitem, hc⟩ := mem_of_mem_intercalate hc
  · exact .inl (List.mem_singleton.mp hc)
  · obtain ⟨x, -, rfl⟩ := List.mem_map.mp hitem
    exact .inr (isTextChar_of_mem_text hc)

/-- The text of a literal that was read is free of blanks and comments. -/
theorem WritesOperand.plain_text {s : String} {a : Operand} (h : WritesOperand s a)
    (hs : ∀ c ∈ s.toList, isPlain c = true) : ∀ c ∈ a.text.toList, isPlain c = true := by
  cases h with
  | register => exact hs
  | literal _ hv =>
    cases hv with
    | label => exact hs
    | @array _ xs => exact (literalWord_array xs).plain
    | null =>
      rw [← List.all_eq_true]
      decide
    | @number _ x => exact (literalWord_number x).plain

theorem Value.beq_array {xs ys : List Float} (h : List.Forall₂ (fun x y => (x == y) = true) xs ys) :
    (Value.array xs == Value.array ys) = true := by
  show (xs == ys) = true
  induction h with
  | nil => rfl
  | cons hxy _ ih => rw [List.cons_beq_cons, hxy, ih, Bool.and_self]

/-- The text of a finite number is a literal for an equal number. -/
theorem exists_writesValue_number {x : Float} (hnan : x.isNaN = false) (hinf : x.isInf = false) :
    ∃ y, WritesValue (Value.number x).text (.number y) ∧ (x == y) = true := by
  obtain ⟨⟨y, hy, hxy⟩, -⟩ := Number.exists_read?_text hnan hinf
  refine ⟨y, .number (literalWord_number x).not_label ?_ ?_, hxy⟩
  · rw [Value.text, String.toList_ofList]
    exact separator_notMem_text x
  · rw [Value.text, String.toList_ofList]
    exact hy

/-- The text of two or more finite numbers is a literal for an equal array. -/
theorem exists_writesValue_array {xs : List Float} (hlen : 2 ≤ xs.length)
    (hnan : ∀ x ∈ xs, x.isNaN = false) (hinf : ∀ x ∈ xs, x.isInf = false) :
    ∃ ys, WritesValue (Value.array xs).text (.array ys) ∧
      (Value.array xs == Value.array ys) = true := by
  obtain ⟨ys, hys⟩ := exists_forall₂ fun x hx =>
    (Number.exists_read?_text (hnan x hx) (hinf x hx)).1
  refine ⟨ys, .array (literalWord_array xs).not_label ?_ ?_,
    Value.beq_array (hys.imp fun _ _ h => h.2)⟩
  · exact (separator_mem_text_array_iff xs).mpr hlen
  · rw [splitOn_text_array hlen, List.forall₂_map_left_iff]
    exact hys.imp fun _ _ h => h.1

/-- A legible literal is written as a literal for an equal value. -/
theorem WritesValue.reread {s : String} {v : Value} (h : WritesValue s v)
    (hs : startsWith registerSigil s = false) (hv : v.Legible) :
    ∃ w, WritesOperand v.text (.literal w) ∧ (v == w) = true := by
  cases h with
  | label hl => exact ⟨_, .literal hs (.label hl), beq_self_eq_true s⟩
  | null => exact ⟨_, .literal rfl .null, rfl⟩
  | @number _ x hl hc hx =>
    obtain ⟨y, hy, hxy⟩ := exists_writesValue_number (Number.isNaN_of_read? hx) hv
    exact ⟨.number y, .literal (literalWord_number x).not_register hy, hxy⟩
  | @array _ xs hl hc hxs =>
    have hnan : ∀ x ∈ xs, x.isNaN = false := by
      intro x hx
      obtain ⟨item, -, hitem⟩ := exists_of_mem_forall₂ hxs hx
      exact Number.isNaN_of_read? hitem
    obtain ⟨ys, hys, hxys⟩ := exists_writesValue_array hv.1 hnan hv.2
    exact ⟨.array ys, .literal (literalWord_array xs).not_register hys, hxys⟩

theorem isInf_eq_false_of_read? {x y : Float} (h : Number.read? (Number.text x) = some y) :
    x.isInf = false := by
  rw [Bool.eq_false_iff]
  intro hinf
  rw [Number.read?_text_of_isInf hinf] at h
  cases h

/-- Only a legible literal is written as a literal for an equal value. -/
theorem WritesValue.legible {s : String} {v w : Value} (h : WritesValue s w) (hs : s = v.text)
    (hvw : (v == w) = true) : v.Legible := by
  cases v with
  | null => trivial
  | label name => trivial
  | number x =>
    cases h with
    | @number _ y hl hc hy =>
      rw [hs, Value.text, String.toList_ofList] at hy
      exact isInf_eq_false_of_read? hy
    | _ => cases hvw
  | array xs =>
    cases h with
    | @array _ ys hl hc hys =>
      rw [hs] at hc hys
      have hlen := (separator_mem_text_array_iff xs).mp hc
      rw [splitOn_text_array hlen, List.forall₂_map_left_iff] at hys
      refine ⟨hlen, fun x hx => ?_⟩
      obtain ⟨y, -, hy⟩ := exists_of_mem_forall₂ hys.flip hx
      exact isInf_eq_false_of_read? hy
    | _ => cases hvw

/-! ## Operands -/

theorem Operand.Agrees.kind_eq {a b : Operand} (h : a.Agrees b) : a.kind = b.kind := by
  cases h <;> rfl

/-- A legible operand is written as an equal operand. -/
theorem WritesOperand.reread {s : String} {a : Operand} (h : WritesOperand s a)
    (ha : a.Legible) : ∃ b, WritesOperand a.text b ∧ a.Agrees b := by
  cases h with
  | register hs => exact ⟨_, .register hs, .register s⟩
  | literal hs hv =>
    obtain ⟨w, hw, hvw⟩ := hv.reread hs ha
    exact ⟨_, hw, .literal hvw⟩

theorem WritesOperand.legible {a b : Operand} (h : WritesOperand a.text b) (hab : a.Agrees b) :
    a.Legible := by
  cases hab with
  | register name => trivial
  | literal hvw =>
    cases h with
    | literal _ hw => exact hw.legible rfl hvw

theorem not_writesOperand_empty (a : Operand) : ¬ WritesOperand "" a := by
  intro h
  cases h with
  | register hs => cases hs
  | literal hs hv =>
    generalize hempty : "" = s at hv
    cases hv with
    | label hl =>
      subst hempty
      cases hl
    | array _ hc _ =>
      subst hempty
      cases hc
    | null => exact absurd hempty (by decide)
    | number _ _ hx =>
      subst hempty
      cases hx

/-! ## Instructions -/

/-- An instruction with operands as words of a script write them, and as its
opcode takes them. -/
structure Instruction.Spelled (i : Instruction) (words : List String) : Prop where
  plain : ∀ w ∈ words, ∀ c ∈ w.toList, isPlain c = true
  operands : List.Forall₂ WritesOperand words i.operands
  conforms : i.Conforms

theorem exists_spelled_of_mem_code {source : String} {p : Program} {i : Instruction}
    (h : Program.read source = .ok p) (hi : i ∈ p.code) : ∃ words, i.Spelled words := by
  obtain ⟨index, text, -, hread⟩ := exists_line_of_mem_code h hi
  have hline := readLine_eq_ok_iff.mp hread
  have hplain := plain_of_mem_words text index
  generalize (tokenize text index).map Token.text = words at hline hplain
  cases hline with
  | @instruction head rest op operands hl hop ho hc =>
    exact ⟨rest, fun w hw => (hplain w (List.mem_cons_of_mem head hw)).2, ho, hc⟩

theorem startsWith_name (op : Opcode) : startsWith labelSigil op.name = false := by
  cases op <;> rfl

namespace Instruction

theorem Conforms.of_kinds {i j : Instruction} (h : i.Conforms) (hop : i.opcode = j.opcode)
    (hk : i.operands.map Operand.kind = j.operands.map Operand.kind) : j.Conforms := by
  have hzip : ∀ k : Instruction,
      (∀ pair ∈ k.opcode.slots.zip k.operands, pair.1.accepts pair.2.kind = true) ↔
        ∀ pair ∈ k.opcode.slots.zip (k.operands.map Operand.kind),
          pair.1.accepts pair.2 = true := by
    intro k
    rw [List.zip_map_right, List.forall_mem_map]
    rfl
  obtain ⟨hlen, hkinds⟩ := h
  rw [hzip, hop, hk, ← hzip] at hkinds
  have hlen' := congrArg List.length hk
  rw [List.length_map, List.length_map] at hlen'
  exact ⟨by rw [← hlen', hlen, hop], hkinds⟩

variable {i : Instruction} {words : List String}

theorem Spelled.plain_text (h : i.Spelled words) :
    ∀ a ∈ i.operands, ∀ c ∈ a.text.toList, isPlain c = true := by
  intro a ha
  obtain ⟨w, hw, hwa⟩ := exists_of_mem_forall₂ h.operands ha
  exact hwa.plain_text (h.plain w hw)

/-- The text of an instruction is a single line. -/
theorem Spelled.notMem_text (h : i.Spelled words) {c : Char} (hc : Text.isBlank c = true)
    (hspace : c ≠ ' ') : c ∉ i.text.toList := by
  have hname : ∀ c ∈ i.opcode.name.toList, isPlain c = true :=
    List.all_eq_true.mp (plain_name i.opcode).2
  refine notMem_words (toList_text_words i) hname ?_ hc hspace
  intro s hs
  obtain ⟨a, ha, rfl⟩ := List.mem_map.mp hs
  exact h.plain_text a ha

/-- A legible instruction is read back from its line. -/
theorem Spelled.readLine_text (h : i.Spelled words) (hi : i.Legible) (index : Nat) :
    ∃ j, readLine index i.text = .ok (.instruction j) ∧ i.Agrees j ∧ j.line = index := by
  have hreread : ∀ a ∈ i.operands, ∃ b, WritesOperand a.text b ∧ a.Agrees b := by
    intro a ha
    obtain ⟨w, -, hwa⟩ := exists_of_mem_forall₂ h.operands ha
    exact hwa.reread (hi a ha)
  obtain ⟨operands, hoperands⟩ := exists_forall₂ hreread
  have hagrees : List.Forall₂ Operand.Agrees i.operands operands := hoperands.imp fun _ _ h => h.2
  have hkinds : i.operands.map Operand.kind = operands.map Operand.kind := by
    rw [← List.forall₂_eq_eq_eq, List.forall₂_map_left_iff, List.forall₂_map_right_iff]
    exact hagrees.imp fun _ _ h => h.kind_eq
  have hwords : (tokenize i.text index).map Token.text =
      i.opcode.name :: i.operands.map Operand.text := by
    rw [tokenize_text h.plain_text, List.filter_eq_self.mpr]
    intro w hw
    obtain ⟨a, ha, rfl⟩ := List.mem_map.mp hw
    obtain ⟨b, hb, -⟩ := hreread a ha
    refine bne_iff_ne.mpr fun hempty => not_writesOperand_empty b ?_
    rwa [hempty] at hb
  refine ⟨⟨i.opcode, operands, index⟩, ?_, ⟨rfl, hagrees⟩, rfl⟩
  rw [readLine_eq_ok_iff, hwords]
  refine .instruction (startsWith_name i.opcode) rfl ?_ (h.conforms.of_kinds rfl hkinds)
  rw [List.forall₂_map_left_iff]
  exact hoperands.imp fun _ _ h => h.1

/-- Only a legible instruction is read back from its line. -/
theorem Spelled.legible (h : i.Spelled words) {index : Nat} {j : Instruction}
    (hread : readLine index i.text = .ok (.instruction j)) (hij : i.Agrees j) : i.Legible := by
  have hline := readLine_eq_ok_iff.mp hread
  rw [tokenize_text h.plain_text] at hline
  generalize hrest : (i.operands.map Operand.text).filter (· != "") = rest at hline
  cases hline with
  | @instruction _ _ op operands _ _ ho _ =>
    subst hrest
    -- no operand was dropped for its empty text, since none is missing
    have hlen := ho.length_eq
    have hlen' := hij.operands.length_eq
    have hall : (i.operands.map Operand.text).filter (· != "") = i.operands.map Operand.text := by
      rw [List.filter_eq_self, ← List.length_filter_eq_length_iff, hlen, List.length_map, hlen']
    rw [hall, List.forall₂_map_left_iff] at ho
    have hlegible : List.Forall₂ (fun a _ => a.Legible) i.operands operands :=
      List.Forall₂.mp (fun _ _ ha hab => ha.legible hab) ho hij.operands
    intro a ha
    obtain ⟨b, -, hb⟩ := exists_of_mem_forall₂ hlegible.flip ha
    exact hb

end Instruction

/-! ## Scripts -/

theorem sourceLines_intercalate {texts : List String} (hne : texts ≠ [])
    (h : ∀ s ∈ texts, '\n' ∉ s.toList ∧ '\r' ∉ s.toList) :
    sourceLines (String.intercalate "\n" texts) = texts := by
  have hsplit : (String.intercalate "\n" texts).toList.splitOn '\n' = texts.map String.toList := by
    rw [String.toList_intercalate]
    refine List.splitOn_intercalate '\n' ?_ (by simpa using hne)
    intro cs hcs
    obtain ⟨s, hs, rfl⟩ := List.mem_map.mp hcs
    exact (h s hs).1
  rw [sourceLines, hsplit, List.map_map, List.map_congr_left, List.map_id]
  intro s hs
  have hreturn : s.toList.reverse.dropWhile (· == '\r') = s.toList.reverse := by
    rw [List.dropWhile_eq_self_iff]
    intro hl hc
    apply (h s hs).2
    rw [← beq_iff_eq.mp hc]
    exact List.mem_reverse.mp (List.getElem_mem hl)
  rw [Function.comp_apply, hreturn, List.reverse_reverse, String.ofList_toList]
  rfl

/-- A text without line ends is a script of one line. -/
theorem sourceLines_singleton {s : String} (hn : '\n' ∉ s.toList) (hr : '\r' ∉ s.toList) :
    sourceLines s = [s] := by
  have h := @sourceLines_intercalate [s] (List.cons_ne_nil _ _) fun t ht => by
    rw [List.mem_singleton.mp ht]
    exact ⟨hn, hr⟩
  rwa [String.intercalate_singleton] at h

theorem sourceLines_words {line head : String} {texts : List String}
    (hline : line.toList =
      head.toList ++ (texts.map String.toList).flatMap fun w => ' ' :: w)
    (hhead : ∀ c ∈ head.toList, isPlain c = true)
    (htexts : ∀ s ∈ texts, ∀ c ∈ s.toList, isPlain c = true) : sourceLines line = [line] :=
  sourceLines_singleton (notMem_words hline hhead htexts rfl (by decide))
    (notMem_words hline hhead htexts rfl (by decide))

theorem ofLines_map_instruction (is : List Instruction) :
    Program.ofLines (is.map .instruction) = ⟨is.toArray, ∅⟩ := by
  have hfold : ∀ p : Program,
      (is.map Line.instruction).foldl Program.add p = ⟨p.code ++ is.toArray, p.labels⟩ := by
    induction is with
    | nil =>
      intro p
      rw [List.map_nil, List.foldl_nil, Array.append_empty]
    | cons i is ih =>
      intro p
      rw [List.map_cons, List.foldl_cons, ih]
      simp [Program.add]
  have hempty := hfold .empty
  rwa [Program.empty, Array.empty_append] at hempty

/-- The lines of legible instructions, from line `n` on, are read back. -/
theorem readLines_texts {is : List Instruction}
    (h : ∀ i ∈ is, (∃ words, i.Spelled words) ∧ i.Legible) (n : Nat) :
    ∃ js, List.Forall₂ (fun (l : String × Nat) line => readLine l.2 l.1 = .ok line)
        ((is.map Instruction.text).zipIdx n) (js.map .instruction) ∧
      List.Forall₂ Instruction.Agrees is js ∧
      js.map Instruction.line = List.range' n is.length := by
  induction is generalizing n with
  | nil => exact ⟨[], .nil, .nil, rfl⟩
  | cons i is ih =>
    obtain ⟨⟨words, hwords⟩, hlegible⟩ := h i List.mem_cons_self
    obtain ⟨j, hread, hij, hline⟩ := hwords.readLine_text hlegible n
    obtain ⟨js, hreads, hagrees, hlines⟩ := ih (fun k hk => h k (List.mem_cons_of_mem i hk)) (n + 1)
    refine ⟨j :: js, .cons hread hreads, .cons hij hagrees, ?_⟩
    rw [List.map_cons, hline, hlines, List.length_cons, List.range'_succ]

/-- The texts of legible instructions, one a line, are read back. -/
theorem read_texts {is : List Instruction}
    (h : ∀ i ∈ is, (∃ words, i.Spelled words) ∧ i.Legible) :
    ∃ js, Program.read (String.intercalate "\n" (is.map Instruction.text)) =
        .ok ⟨js.toArray, ∅⟩ ∧
      List.Forall₂ Instruction.Agrees is js ∧ js.map Instruction.line = List.range is.length := by
  by_cases hne : is = []
  · subst hne
    -- the text of no instruction is still one line, a blank one
    have hread : Program.read "" = .ok ⟨#[], ∅⟩ := by cbv
    exact ⟨[], hread, .nil, rfl⟩
  have hlines : sourceLines (String.intercalate "\n" (is.map Instruction.text)) =
      is.map Instruction.text := by
    refine sourceLines_intercalate (by simpa using hne) fun s hs => ?_
    obtain ⟨i, hi, rfl⟩ := List.mem_map.mp hs
    obtain ⟨⟨words, hwords⟩, -⟩ := h i hi
    exact ⟨hwords.notMem_text rfl (by decide), hwords.notMem_text rfl (by decide)⟩
  obtain ⟨js, hreads, hagrees, hnumbers⟩ := readLines_texts h 0
  refine ⟨js, read_eq_ok_iff.mpr ⟨_, ?_, ofLines_map_instruction js⟩, hagrees, ?_⟩
  · rw [hlines]
    exact hreads
  · rw [hnumbers, List.range_eq_range']

/-- An instruction of a script that is read back from its text is legible. -/
theorem Instruction.Spelled.legible_of_read {i j : Instruction} {words : List String}
    (h : i.Spelled words) {p : Program} (hread : Program.read i.text = .ok p) (hj : j ∈ p.code)
    (hij : i.Agrees j) : i.Legible := by
  obtain ⟨index, line, hline, hreadLine⟩ := exists_line_of_mem_code hread hj
  have hlines : sourceLines i.text = [i.text] :=
    sourceLines_singleton (h.notMem_text rfl (by decide)) (h.notMem_text rfl (by decide))
  have hmem := List.mem_of_getElem? hline
  rw [hlines, List.mem_singleton] at hmem
  rw [hmem] at hreadLine
  exact h.legible hreadLine hij

/-- An instruction of a script is read back from its text, alone and without
labels, just if it is legible. Any legible instructions of scripts, written
one a line, are read back in their order. -/
theorem read_text_iff_legible :
    (∀ source p, Program.read source = .ok p → ∀ i ∈ p.code,
      ((∃ j, Program.read i.text = .ok ⟨#[j], ∅⟩ ∧ i.Agrees j) ↔ i.Legible)) ∧
    ∀ is : List Instruction,
      (∀ i ∈ is, (∃ source p, Program.read source = .ok p ∧ i ∈ p.code) ∧ i.Legible) →
      ∃ js, Program.read (String.intercalate "\n" (is.map Instruction.text)) =
          .ok ⟨js.toArray, ∅⟩ ∧
        List.Forall₂ Instruction.Agrees is js ∧
        js.map Instruction.line = List.range is.length := by
  constructor
  · intro source p hread i hi
    obtain ⟨words, hwords⟩ := exists_spelled_of_mem_code hread hi
    constructor
    · rintro ⟨j, hj, hij⟩
      exact hwords.legible_of_read hj (by simp) hij
    · intro hlegible
      obtain ⟨js, hjs, hagrees, -⟩ := @read_texts [i] fun k hk => by
        rw [List.mem_singleton.mp hk]
        exact ⟨⟨words, hwords⟩, hlegible⟩
      rw [List.map_singleton, String.intercalate_singleton] at hjs
      cases hagrees with
      | cons hij hnil =>
        cases hnil
        exact ⟨_, hjs, hij⟩
  · intro is his
    refine read_texts fun i hi => ?_
    obtain ⟨⟨source, p, hread, hmem⟩, hlegible⟩ := his i hi
    exact ⟨exists_spelled_of_mem_code hread hmem, hlegible⟩

/-- The empty array is not legible, and an instruction with it is not read
back; two others of the same script are, in either order. -/
theorem read_text_iff_legible_three :
    let i : Instruction := ⟨.mov, [.literal (.label "@a,b"), .register "$x,"], 0⟩
    let j : Instruction := ⟨.push, [.literal (.array []), .literal .null, .register "$x,"], 1⟩
    let k : Instruction := ⟨.jmp, [.literal .null], 2⟩
    Program.read "mov @a,b $x, ; note\npush ,, null $x,\njmp null" = .ok ⟨#[i, j, k], ∅⟩ ∧
      i.Legible ∧ ¬ j.Legible ∧ k.Legible ∧
      (¬ ∃ j', Program.read j.text = .ok ⟨#[j'], ∅⟩ ∧ j.Agrees j') ∧
      ∃ k' i', Program.read "JMP null\nMOV @a,b $x," = .ok ⟨#[k', i'], ∅⟩ ∧ k.Agrees k' ∧
        i.Agrees i' ∧ k'.line = 0 ∧ i'.line = 1 := by
  intro i j k
  have hread : Program.read "mov @a,b $x, ; note\npush ,, null $x,\njmp null" =
      .ok ⟨#[i, j, k], ∅⟩ := by cbv
  have hi : i.Legible := by decide
  have hj : ¬ j.Legible := by decide
  have hk : k.Legible := by decide
  obtain ⟨hone, hmany⟩ := read_text_iff_legible
  have hfrom : ∀ l ∈ [k, i], (∃ source p, Program.read source = .ok p ∧ l ∈ p.code) ∧
      l.Legible := by
    intro l hl
    obtain rfl | hl := List.mem_cons.mp hl
    · exact ⟨⟨_, _, hread, by simp⟩, hk⟩
    · rw [List.mem_singleton.mp hl]
      exact ⟨⟨_, _, hread, by simp⟩, hi⟩
  obtain ⟨js, hjs, hagrees, hlines⟩ := hmany [k, i] hfrom
  refine ⟨hread, hi, hj, hk, fun h => hj ((hone _ _ hread j (by simp)).mp h), ?_⟩
  cases hagrees with
  | @cons _ k' _ js hk' hrest =>
    cases hrest with
    | @cons _ i' _ js hi' hnil =>
      cases hnil
      obtain ⟨hzero, hone⟩ : k'.line = 0 ∧ i'.line = 1 := by simpa [List.range_succ] using hlines
      exact ⟨k', i', hjs, hk', hi', hzero, hone⟩

end CritterScript
