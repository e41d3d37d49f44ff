import CritterScript.Proofs.Reading
import Mathlib

/-!
# The grammar of scripts

What the words of a line may be, said without reading them. `WritesValue`,
`WritesOperand` and `WritesLine` say what literals, operands and lines mean,
whatever place they stand at; `SpoilsOperand` and `SpoilsLine` say which
check is the first to fail where they mean nothing, and at which place.

The reader finds exactly that: `readTokens_eq_ok_iff` and
`readTokens_eq_error_iff` for a line, and `read_by_grammar` for a script, of
which the first line with a mistake is reported.
-/

namespace CritterScript

/-! ## Words -/

/-- Two texts differ at most in the case of their ASCII letters. -/
def EqIgnoringCase (s t : String) : Prop :=
  s.toList.map Char.toLower = t.toList.map Char.toLower

theorem EqIgnoringCase.symm {s t : String} (h : EqIgnoringCase s t) : EqIgnoringCase t s :=
  Eq.symm h

theorem EqIgnoringCase.trans {s t u : String} (h : EqIgnoringCase s t) (k : EqIgnoringCase t u) :
    EqIgnoringCase s u :=
  Eq.trans h k

theorem eqIgnoringCase_iff_toUpper {s t : String} :
    EqIgnoringCase s t ↔ s.toList.map Char.toUpper = t.toList.map Char.toUpper := by
  have hupper : ∀ cs : List Char, cs.map Char.toUpper = (cs.map Char.toLower).map Char.toUpper :=
    fun cs => by simp only [List.map_map, Function.comp_def, Char.toUpper_toLower_eq_toUpper]
  have hlower : ∀ cs : List Char, cs.map Char.toLower = (cs.map Char.toUpper).map Char.toLower :=
    fun cs => by simp only [List.map_map, Function.comp_def, Char.toLower_toUpper_eq_toLower]
  constructor
  · intro h
    rw [hupper s.toList, hupper t.toList, h]
  · intro h
    rw [EqIgnoringCase, hlower s.toList, hlower t.toList, h]

namespace Opcode

/-- The names of the opcodes are in upper case. -/
theorem map_toUpper_name (op : Opcode) : op.name.toList.map Char.toUpper = op.name.toList := by
  cases op <;> decide

theorem name_injective {op op' : Opcode} (h : op.name.toList = op'.name.toList) : op = op' := by
  revert h
  cases op <;> cases op' <;> decide

/-- A word names an opcode just if it is the opcode's name, whatever the case
of its letters. -/
theorem ofName?_eq_some_iff {s : String} {op : Opcode} :
    ofName? s = some op ↔ EqIgnoringCase s op.name := by
  rw [eqIgnoringCase_iff_toUpper, map_toUpper_name]
  constructor
  · intro h
    have hname := List.find?_some h
    exact (beq_iff_eq.mp hname).symm
  · intro h
    rw [ofName?, h]
    cases hfind : all.find? fun op' => op'.name.toList == op.name.toList with
    | none => exact absurd (beq_self_eq_true _) (List.find?_eq_none.mp hfind op (mem_all op))
    | some op' =>
      have hname := List.find?_some hfind
      rw [name_injective (beq_iff_eq.mp hname)]

theorem ofName?_eq_none_iff {s : String} :
    ofName? s = none ↔ ∀ op : Opcode, ¬ EqIgnoringCase s op.name := by
  rw [Option.eq_none_iff_forall_ne_some]
  exact forall_congr' fun op => not_congr ofName?_eq_some_iff

end Opcode

/-! ## What a script says -/

/-- The word is a literal for a value. -/
inductive WritesValue : String → Value → Prop
  | label {s : String} : startsWith labelSigil s = true → WritesValue s (.label s)
  | array {s : String} {xs : List Float} :
    startsWith labelSigil s = false → itemSeparator ∈ s.toList →
    List.Forall₂ (fun item x => Number.read? item = some x)
      ((s.toList.splitOn itemSeparator).filter fun item => !item.isEmpty) xs →
    WritesValue s (.array xs)
  | null : WritesValue "null" .null
  | number {s : String} {x : Float} :
    startsWith labelSigil s = false → itemSeparator ∉ s.toList →
    Number.read? s.toList = some x → WritesValue s (.number x)

/-- The word is an operand: a register, or a literal. -/
inductive WritesOperand : String → Operand → Prop
  | register {s : String} : startsWith registerSigil s = true → WritesOperand s (.register s)
  | literal {s : String} {v : Value} :
    startsWith registerSigil s = false → WritesValue s v → WritesOperand s (.literal v)

/-- The words of line number `index` are none, or a label, or an instruction:
a word that names an opcode, and then operands as that opcode takes them. -/
inductive WritesLine (index : Nat) : List String → Line → Prop
  | blank : WritesLine index [] .blank
  | label {s : String} : startsWith labelSigil s = true → WritesLine index [s] (.label s)
  | instruction {head : String} {rest : List String} {op : Opcode} {operands : List Operand} :
    startsWith labelSigil head = false → EqIgnoringCase head op.name →
    List.Forall₂ WritesOperand rest operands →
    (⟨op, operands, index⟩ : Instruction).Conforms →
    WritesLine index (head :: rest) (.instruction ⟨op, operands, index⟩)

/-- The words of line number `index` say something. -/
def WellWritten (index : Nat) (words : List String) : Prop :=
  ∃ line, WritesLine index words line

/-- The token is no operand, for want of a number: it is none itself, or its
first item that is not empty and no number is. -/
inductive SpoilsOperand : Token → SyntaxError → Prop
  | literal {t : Token} :
    t.isRegister = false → t.isLabel = false → itemSeparator ∉ t.text.toList →
    t.text ≠ "null" → Number.read? t.text.toList = none →
    SpoilsOperand t ⟨.badLiteral t.text, t.place⟩
  | item {t : Token} {before : List (List Char)} {item : List Char} :
    t.isRegister = false → t.isLabel = false → itemSeparator ∈ t.text.toList →
    FirstFailing (fun i => i = [] ∨ ∃ x, Number.read? i = some x)
      (t.text.toList.splitOn itemSeparator) before item →
    SpoilsOperand t ⟨.badItem (String.ofList item),
      t.place.shift (Text.byteSize (before.flatMap (· ++ [itemSeparator])))⟩

/-- The first check that the tokens of a line fail, and where. -/
inductive SpoilsLine : List Token → SyntaxError → Prop
  | codeAfterLabel {head next : Token} {rest : List Token} :
    head.isLabel = true → SpoilsLine (head :: next :: rest) ⟨.codeAfterLabel, next.place⟩
  | badInstruction {head : Token} {rest : List Token} :
    head.isLabel = false → (∀ op : Opcode, ¬ EqIgnoringCase head.text op.name) →
    SpoilsLine (head :: rest) ⟨.badInstruction head.text, head.place⟩
  | badOperand {head t : Token} {rest before : List Token} {op : Opcode} {e : SyntaxError} :
    head.isLabel = false → EqIgnoringCase head.text op.name →
    FirstFailing (fun u => ∃ a, WritesOperand u.text a) rest before t → SpoilsOperand t e →
    SpoilsLine (head :: rest) e
  | wrongCount {head : Token} {rest : List Token} {op : Opcode} {operands : List Operand} :
    head.isLabel = false → EqIgnoringCase head.text op.name →
    List.Forall₂ WritesOperand (rest.map Token.text) operands → rest.length ≠ op.arity →
    SpoilsLine (head :: rest) ⟨.wrongCount op rest.length, head.place⟩
  | wrongKind {head t : Token} {rest : List Token} {op : Opcode} {operands : List Operand}
    {slot : Slot} {a : Operand} {before : List (Slot × Token × Operand)} :
    head.isLabel = false → EqIgnoringCase head.text op.name →
    List.Forall₂ WritesOperand (rest.map Token.text) operands → rest.length = op.arity →
    FirstFailing (fun x => x.1.accepts x.2.2.kind = true) (op.slots.zip (rest.zip operands))
      before (slot, t, a) →
    SpoilsLine (head :: rest) ⟨.wrongKind op (before.length + 1) slot a.kind, t.place⟩

/-! ## Reading literals and operands -/

theorem Place.shift_shift (p : Place) (m n : Nat) : (p.shift m).shift n = p.shift (m + n) := by
  simp only [Place.shift, Nat.add_assoc]

theorem readItems_eq_ok_iff {place : Place} {items : List (List Char)} {xs : List Float} :
    readItems place items = .ok xs ↔
      List.Forall₂ (fun item x => Number.read? item = some x)
        (items.filter fun item => !item.isEmpty) xs := by
  induction items generalizing place xs with
  | nil =>
    rw [readItems, List.filter_nil, List.forall₂_nil_left_iff, Except.ok.injEq]
    exact eq_comm
  | cons item items ih =>
    rw [readItems]
    cases item with
    | nil => exact ih
    | cons c cs =>
      rw [List.filter_cons_of_pos rfl, List.forall₂_cons_left_iff]
      dsimp only [List.isEmpty_cons]
      cases hx : Number.read? (c :: cs) with
      | none =>
        refine iff_of_false (fun h => by cases h) ?_
        rintro ⟨x, -, hnone, -⟩
        cases hnone
      | some x =>
        simp only [Bool.false_eq_true, if_false, map_eq_ok_iff, ih, Option.some.injEq]
        constructor
        · rintro ⟨ys, hys, rfl⟩
          exact ⟨x, ys, rfl, hys, rfl⟩
        · rintro ⟨y, ys, rfl, hys, rfl⟩
          exact ⟨ys, hys, rfl⟩

/-- The place of the item at fault is as many bytes along as the items in
front of it and their separators take. -/
theorem readItems_eq_error_iff {place : Place} {items : List (List Char)} {e : SyntaxError} :
    readItems place items = .error e ↔
      ∃ before item,
        FirstFailing (fun i => i = [] ∨ ∃ x, Number.read? i = some x) items before item ∧
          e = ⟨.badItem (String.ofList item),
            place.shift (Text.byteSize (before.flatMap (· ++ [itemSeparator])))⟩ := by
  induction items generalizing place with
  | nil =>
    refine iff_of_false (fun h => by cases h) ?_
    rintro ⟨before, item, h, -⟩
    exact not_firstFailing_nil h
  | cons item items ih =>
    have hskip : ∀ before : List (List Char),
        (place.shift (Text.byteSize item + itemSeparator.utf8Size)).shift
          (Text.byteSize (before.flatMap (· ++ [itemSeparator]))) =
        place.shift (Text.byteSize ((item :: before).flatMap (· ++ [itemSeparator]))) := by
      intro before
      rw [Place.shift_shift, List.flatMap_cons, Text.byteSize_append, Text.byteSize_append]
      rfl
    cases item with
    | nil =>
      rw [exists_firstFailing_cons_of_passed
        (P := fun i => i = [] ∨ ∃ x, Number.read? i = some x) (.inl rfl)]
      simp only [← hskip, ← ih]
      rfl
    | cons c cs =>
      rw [readItems]
      dsimp only [List.isEmpty_cons]
      cases hx : Number.read? (c :: cs) with
      | none =>
        have hfail : ¬ (c :: cs = [] ∨ ∃ x, Number.read? (c :: cs) = some x) := by
          rw [hx]
          simp
        rw [exists_firstFailing_cons_of_failed
          (P := fun i => i = [] ∨ ∃ x, Number.read? i = some x) hfail]
        exact ⟨fun h => (Except.error.inj h).symm, fun h => congrArg Except.error h.symm⟩
      | some x =>
        rw [exists_firstFailing_cons_of_passed
          (P := fun i => i = [] ∨ ∃ x, Number.read? i = some x) (.inr ⟨x, hx⟩)]
        simp only [← hskip, ← ih]
        exact map_eq_error_iff

section Literal

variable {t : Token}

theorem readLiteral_of_label (hl : t.isLabel = true) : readLiteral t = .ok (.label t.text) := by
  rw [readLiteral, if_pos hl]

theorem readLiteral_of_separator (hl : t.isLabel = false) (hs : itemSeparator ∈ t.text.toList) :
    readLiteral t =
      (readItems t.place (t.text.toList.splitOn itemSeparator)).map .array := by
  rw [readLiteral, if_neg (Bool.eq_false_iff.mp hl), if_pos (List.contains_iff_mem.mpr hs)]

theorem readLiteral_of_null (hn : t.text = "null") : readLiteral t = .ok .null := by
  have hl : t.isLabel = false := by
    rw [Token.isLabel, hn]
    rfl
  have hs : ¬ t.text.toList.contains itemSeparator = true := by
    rw [hn]
    decide
  rw [readLiteral, if_neg (Bool.eq_false_iff.mp hl), if_neg hs, if_pos hn]

theorem readLiteral_of_number {x : Float} (hl : t.isLabel = false)
    (hs : itemSeparator ∉ t.text.toList) (hx : Number.read? t.text.toList = some x) :
    readLiteral t = .ok (.number x) := by
  have hn : t.text ≠ "null" := by
    intro hn
    rw [hn, show Number.read? "null".toList = none from rfl] at hx
    cases hx
  rw [readLiteral, if_neg (Bool.eq_false_iff.mp hl), if_neg (mt List.contains_iff_mem.mp hs),
    if_neg hn]
  simp only [hx]

theorem readLiteral_of_word (hl : t.isLabel = false) (hs : itemSeparator ∉ t.text.toList)
    (hn : t.text ≠ "null") (hx : Number.read? t.text.toList = none) :
    readLiteral t = .error ⟨.badLiteral t.text, t.place⟩ := by
  rw [readLiteral, if_neg (Bool.eq_false_iff.mp hl), if_neg (mt List.contains_iff_mem.mp hs),
    if_neg hn]
  simp only [hx]

theorem WritesValue.readLiteral_eq {v : Value} (h : WritesValue t.text v) :
    readLiteral t = .ok v := by
  generalize htext : t.text = s at h
  cases h with
  | label hl =>
    rw [← htext] at hl ⊢
    exact readLiteral_of_label hl
  | array hl hs hxs =>
    rw [← htext] at hl hs hxs
    rw [readLiteral_of_separator hl hs, readItems_eq_ok_iff.mpr hxs]
    rfl
  | null => exact readLiteral_of_null htext
  | number hl hs hx =>
    rw [← htext] at hl hs hx
    exact readLiteral_of_number hl hs hx

theorem SpoilsOperand.readOperand_eq {e : SyntaxError} (h : SpoilsOperand t e) :
    readOperand t = .error e := by
  cases h with
  | literal hr hl hs hn hx =>
    rw [readOperand, if_neg (Bool.eq_false_iff.mp hr), readLiteral_of_word hl hs hn hx]
    rfl
  | @item before item hr hl hs hfirst =>
    rw [readOperand, if_neg (Bool.eq_false_iff.mp hr), readLiteral_of_separator hl hs,
      readItems_eq_error_iff.mpr ⟨before, item, hfirst, rfl⟩]
    rfl

theorem WritesOperand.readOperand_eq {a : Operand} (h : WritesOperand t.text a) :
    readOperand t = .ok a := by
  generalize htext : t.text = s at h
  cases h with
  | register hr =>
    rw [← htext] at hr ⊢
    rw [readOperand, Token.isRegister, if_pos hr]
  | literal hr hv =>
    rw [← htext] at hr hv
    rw [readOperand, Token.isRegister, if_neg (Bool.eq_false_iff.mp hr), hv.readLiteral_eq]
    rfl

/-- A token is an operand, or there is a mistake in it. -/
theorem writes_or_spoils_operand (t : Token) :
    (∃ a, WritesOperand t.text a) ∨ ∃ e, SpoilsOperand t e := by
  cases hr : t.isRegister with
  | true => exact .inl ⟨_, .register hr⟩
  | false =>
    cases hl : t.isLabel with
    | true => exact .inl ⟨_, .literal hr (.label hl)⟩
    | false =>
      by_cases hs : itemSeparator ∈ t.text.toList
      · cases hitems : readItems t.place (t.text.toList.splitOn itemSeparator) with
        | ok xs => exact .inl ⟨_, .literal hr (.array hl hs (readItems_eq_ok_iff.mp hitems))⟩
        | error e =>
          obtain ⟨before, item, hfirst, -⟩ := readItems_eq_error_iff.mp hitems
          exact .inr ⟨_, .item hr hl hs hfirst⟩
      by_cases hn : t.text = "null"
      · exact .inl ⟨.literal .null, .literal hr (hn ▸ .null)⟩
      cases hx : Number.read? t.text.toList with
      | some x => exact .inl ⟨_, .literal hr (.number hl hs hx)⟩
      | none => exact .inr ⟨_, .literal hr hl hs hn hx⟩

theorem readOperand_eq_ok_iff {a : Operand} : readOperand t = .ok a ↔ WritesOperand t.text a :=
  (eq_iff_of_covered (fun _ => WritesOperand.readOperand_eq)
    (fun _ => SpoilsOperand.readOperand_eq) (writes_or_spoils_operand t)).1 a

theorem readOperand_eq_error_iff {e : SyntaxError} :
    readOperand t = .error e ↔ SpoilsOperand t e :=
  (eq_iff_of_covered (fun _ => WritesOperand.readOperand_eq)
    (fun _ => SpoilsOperand.readOperand_eq) (writes_or_spoils_operand t)).2 e

end Literal

theorem mapM_readOperand_eq_ok_iff {tokens : List Token} {operands : List Operand} :
    tokens.mapM readOperand = .ok operands ↔
      List.Forall₂ WritesOperand (tokens.map Token.text) operands := by
  simp only [mapM_eq_ok_iff, readOperand_eq_ok_iff, List.forall₂_map_left_iff]

theorem mapM_readOperand_eq_error_iff {tokens : List Token} {e : SyntaxError} :
    tokens.mapM readOperand = .error e ↔
      ∃ before t, FirstFailing (fun u => ∃ a, WritesOperand u.text a) tokens before t ∧
        SpoilsOperand t e := by
  simp only [mapM_eq_error_iff, readOperand_eq_ok_iff, readOperand_eq_error_iff]

/-! ## Reading lines -/

theorem misfit?_eq_some_iff {op : Opcode} {tokens : List Token} {operands : List Operand}
    {e : SyntaxError} :
    misfit? op tokens operands = some e ↔
      ∃ before x, FirstFailing (fun y => y.1.accepts y.2.2.kind = true)
          (op.slots.zip (tokens.zip operands)) before x ∧
        ⟨.wrongKind op (1 + before.length) x.1 x.2.2.kind, x.2.1.place⟩ = e :=
  @findSome?_zipIdx_eq_some_iff (Slot × Token × Operand) SyntaxError _
    (fun y => y.1.accepts y.2.2.kind)
    (fun x position => ⟨.wrongKind op position x.1 x.2.2.kind, x.2.1.place⟩) 1 e

section Line

variable {index : Nat} {head : Token} {rest tokens : List Token}

theorem length_eq_of_writesOperand {operands : List Operand}
    (h : List.Forall₂ WritesOperand (rest.map Token.text) operands) :
    rest.length = operands.length := by
  rw [← h.length_eq, List.length_map]

theorem readTokens_of_instruction (hl : head.isLabel = false) :
    readTokens (head :: rest) = (readInstruction head rest).map .instruction := by
  simp only [readTokens, hl, Bool.false_eq_true, if_false]

/-- What is left to check once the operands are read. -/
theorem readInstruction_of_operands {op : Opcode} {operands : List Operand}
    (hop : EqIgnoringCase head.text op.name)
    (ho : List.Forall₂ WritesOperand (rest.map Token.text) operands) :
    readInstruction head rest =
      if operands.length ≠ op.arity then .error ⟨.wrongCount op operands.length, head.place⟩
      else match misfit? op rest operands with
        | some e => .error e
        | none => .ok ⟨op, operands, head.place.line⟩ := by
  rw [readInstruction, Opcode.ofName?_eq_some_iff.mpr hop, mapM_readOperand_eq_ok_iff.mpr ho]
  rfl

theorem WritesLine.readTokens_eq {line : Line} (h : WritesLine index (tokens.map Token.text) line)
    (hindex : ∀ t ∈ tokens, t.place.line = index) : readTokens tokens = .ok line := by
  generalize hwords : tokens.map Token.text = words at h
  cases h with
  | blank =>
    rw [List.map_eq_nil_iff.mp hwords]
    rfl
  | label hl =>
    obtain ⟨t, rfl, rfl⟩ := List.map_eq_singleton_iff.mp hwords
    simp only [readTokens, Token.isLabel, hl, if_true]
  | @instruction _ _ op operands hl hop ho hc =>
    obtain ⟨head, rest, rfl, rfl, rfl⟩ := List.map_eq_cons_iff.mp hwords
    have hlen := length_eq_of_writesOperand ho
    rw [readTokens_of_instruction hl, readInstruction_of_operands hop ho,
      if_neg (not_not_intro hc.1), (misfit?_eq_none_iff hlen).mpr hc.2,
      hindex head List.mem_cons_self]
    rfl

theorem SpoilsLine.readTokens_eq {e : SyntaxError} (h : SpoilsLine tokens e) :
    readTokens tokens = .error e := by
  cases h with
  | codeAfterLabel hl => simp only [readTokens, hl, if_true]
  | badInstruction hl hop =>
    rw [readTokens_of_instruction hl, readInstruction, Opcode.ofName?_eq_none_iff.mpr hop]
    rfl
  | badOperand hl hop hfirst hspoils =>
    rw [readTokens_of_instruction hl, readInstruction, Opcode.ofName?_eq_some_iff.mpr hop,
      mapM_readOperand_eq_error_iff.mpr ⟨_, _, hfirst, hspoils⟩]
    rfl
  | wrongCount hl hop ho hc =>
    rw [length_eq_of_writesOperand ho] at hc ⊢
    rw [readTokens_of_instruction hl, readInstruction_of_operands hop ho, if_pos hc]
    rfl
  | @wrongKind head t rest op operands slot a before hl hop ho hc hfirst =>
    rw [length_eq_of_writesOperand ho] at hc
    rw [readTokens_of_instruction hl, readInstruction_of_operands hop ho,
      if_neg (not_not_intro hc), misfit?_eq_some_iff.mpr ⟨before, (slot, t, a), hfirst, rfl⟩,
      Nat.add_comm 1]
    rfl

/-- A line says something, or there is a first mistake in it. -/
theorem writes_or_spoils_line (index : Nat) (tokens : List Token) :
    WellWritten index (tokens.map Token.text) ∨ ∃ e, SpoilsLine tokens e := by
  match tokens with
  | [] => exact .inl ⟨_, .blank⟩
  | head :: rest =>
    cases hl : head.isLabel with
    | true =>
      match rest with
      | [] => exact .inl ⟨_, .label hl⟩
      | next :: rest => exact .inr ⟨_, .codeAfterLabel hl⟩
    | false =>
      by_cases hop : ∀ op : Opcode, ¬ EqIgnoringCase head.text op.name
      · exact .inr ⟨_, .badInstruction hl hop⟩
      obtain ⟨op, hop⟩ := not_forall_not.mp hop
      cases ho : rest.mapM readOperand with
      | error e =>
        obtain ⟨before, t, hfirst, hspoils⟩ := mapM_readOperand_eq_error_iff.mp ho
        exact .inr ⟨e, .badOperand hl hop hfirst hspoils⟩
      | ok operands =>
        rw [mapM_readOperand_eq_ok_iff] at ho
        have hlen := length_eq_of_writesOperand ho
        by_cases hc : rest.length = op.arity
        · cases hm : misfit? op rest operands with
          | some e =>
            obtain ⟨before, ⟨slot, t, a⟩, hfirst, -⟩ := misfit?_eq_some_iff.mp hm
            exact .inr ⟨_, .wrongKind hl hop ho hc hfirst⟩
          | none =>
            have hfit := (misfit?_eq_none_iff hlen).mp hm
            exact .inl ⟨_, .instruction hl hop ho ⟨hlen ▸ hc, hfit⟩⟩
        · exact .inr ⟨_, .wrongCount hl hop ho hc⟩

theorem readTokens_eq_ok_iff (hindex : ∀ t ∈ tokens, t.place.line = index) {line : Line} :
    readTokens tokens = .ok line ↔ WritesLine index (tokens.map Token.text) line :=
  (eq_iff_of_covered (fun _ h => h.readTokens_eq hindex) (fun _ => SpoilsLine.readTokens_eq)
    (writes_or_spoils_line index tokens)).1 line

theorem readTokens_eq_error_iff (hindex : ∀ t ∈ tokens, t.place.line = index) {e : SyntaxError} :
    readTokens tokens = .error e ↔ SpoilsLine tokens e :=
  (eq_iff_of_covered (fun _ h => h.readTokens_eq hindex) (fun _ => SpoilsLine.readTokens_eq)
    (writes_or_spoils_line index tokens)).2 e

theorem SpoilsOperand.place_line {t : Token} {e : SyntaxError} (h : SpoilsOperand t e) :
    e.place.line = t.place.line := by
  cases h <;> rfl

/-- A mistake in a line is on that line. -/
theorem SpoilsLine.place_line {e : SyntaxError} (h : SpoilsLine tokens e)
    (hindex : ∀ t ∈ tokens, t.place.line = index) : e.place.line = index := by
  cases h with
  | @codeAfterLabel head next rest =>
    exact hindex next (List.mem_cons_of_mem head List.mem_cons_self)
  | @badInstruction head => exact hindex head List.mem_cons_self
  | @badOperand head t rest before op e hl hop hfirst hspoils =>
    rw [hspoils.place_line]
    exact hindex t (List.mem_cons_of_mem head hfirst.mem)
  | @wrongCount head => exact hindex head List.mem_cons_self
  | @wrongKind head t rest op operands slot a before hl hop ho hc hfirst =>
    have hzip : (t, a) ∈ rest.zip operands := (List.of_mem_zip hfirst.mem).2
    exact hindex t (List.mem_cons_of_mem head (List.of_mem_zip hzip).1)

end Line

/-! ## Reading scripts -/

theorem place_line_of_mem_tokenize {text : String} {index : Nat} :
    ∀ t ∈ tokenize text index, t.place.line = index := by
  intro t ht
  obtain ⟨word, -, rfl⟩ := List.mem_map.mp ht
  rfl

theorem readLine_eq_ok_iff {index : Nat} {text : String} {line : Line} :
    readLine index text = .ok line ↔
      WritesLine index ((tokenize text index).map Token.text) line :=
  readTokens_eq_ok_iff place_line_of_mem_tokenize

theorem readLine_eq_error_iff {index : Nat} {text : String} {e : SyntaxError} :
    readLine index text = .error e ↔ SpoilsLine (tokenize text index) e :=
  readTokens_eq_error_iff place_line_of_mem_tokenize

theorem wellWritten_iff_readLine {index : Nat} {text : String} :
    WellWritten index ((tokenize text index).map Token.text) ↔
      ∃ line, readLine index text = .ok line :=
  exists_congr fun _ => readLine_eq_ok_iff.symm

theorem SpoilsLine.not_wellWritten {index : Nat} {text : String} {e : SyntaxError}
    (h : SpoilsLine (tokenize text index) e) :
    ¬ WellWritten index ((tokenize text index).map Token.text) := by
  rw [wellWritten_iff_readLine, readLine_eq_error_iff.mpr h]
  rintro ⟨line, hline⟩
  cases hline

theorem writesLine_of_read {source : String} {p : Program} (h : Program.read source = .ok p) :
    ∃ lines, List.Forall₂
        (fun (l : String × Nat) line => WritesLine l.2 ((tokenize l.1 l.2).map Token.text) line)
        (sourceLines source).zipIdx lines ∧ Program.ofLines lines = p := by
  obtain ⟨lines, hlines, hp⟩ := read_eq_ok_iff.mp h
  exact ⟨lines, hlines.imp fun _ _ => readLine_eq_ok_iff.mp, hp⟩

/-- The mistake that is reported is that of the first line with one. -/
theorem spoilsLine_of_read {source : String} {e : SyntaxError}
    (h : Program.read source = .error e) :
    ∃ text, (sourceLines source)[e.place.line]? = some text ∧
      SpoilsLine (tokenize text e.place.line) e ∧
      ∀ k < e.place.line, ∀ text', (sourceLines source)[k]? = some text' →
        WellWritten k ((tokenize text' k).map Token.text) := by
  rw [Program.read, map_eq_error_iff, mapM_eq_error_iff] at h
  obtain ⟨before, ⟨text, index⟩, hfirst, hread⟩ := h
  have hspoils := readLine_eq_error_iff.mp hread
  obtain ⟨hget, hbefore⟩ := hfirst.getElem?
  -- the number that a line goes by is its position among the lines
  rw [List.getElem?_zipIdx, Option.map_eq_some_iff] at hget
  obtain ⟨_, hget, hpair⟩ := hget
  obtain ⟨rfl, rfl⟩ := Prod.mk.inj hpair
  rw [Nat.zero_add] at hspoils
  rw [hspoils.place_line place_line_of_mem_tokenize]
  refine ⟨_, hget, hspoils, ?_⟩
  intro k hk text' htext'
  exact wellWritten_iff_readLine.mpr (hbefore k hk _ (getElem?_zipIdx_of_getElem? htext'))

/-- A script is read just if all of its lines say something, and then its
instructions are those that its lines write, in order. Otherwise the answer
is the first mistake in the first line that has one. -/
theorem read_by_grammar (source : String) :
    ((∃ p, Program.read source = .ok p) ↔
        ∀ k text, (sourceLines source)[k]? = some text →
          WellWritten k ((tokenize text k).map Token.text)) ∧
      match Program.read source with
      | .ok p =>
        ∃ lines, List.Forall₂
            (fun (l : String × Nat) line =>
              WritesLine l.2 ((tokenize l.1 l.2).map Token.text) line)
            (sourceLines source).zipIdx lines ∧
          p.code.toList = lines.filterMap Line.instruction?
      | .error e =>
        IsLeast {k | ∃ text, (sourceLines source)[k]? = some text ∧
            ¬ WellWritten k ((tokenize text k).map Token.text)} e.place.line ∧
          ∃ text, (sourceLines source)[e.place.line]? = some text ∧
            SpoilsLine (tokenize text e.place.line) e := by
  cases hread : Program.read source with
  | ok p =>
    obtain ⟨lines, hlines, rfl⟩ := writesLine_of_read hread
    refine ⟨iff_of_true ⟨_, rfl⟩ ?_, lines, hlines, code_ofLines lines⟩
    intro k text htext
    obtain ⟨line, -, hline⟩ :=
      exists_getElem?_of_forall₂ hlines (getElem?_zipIdx_of_getElem? htext)
    exact ⟨line, hline⟩
  | error e =>
    obtain ⟨text, htext, hspoils, hbefore⟩ := spoilsLine_of_read hread
    have hbad := hspoils.not_wellWritten
    refine ⟨iff_of_false ?_ ?_, ⟨⟨text, htext, hbad⟩, ?_⟩, text, htext, hspoils⟩
    · rintro ⟨p, hp⟩
      cases hp
    · intro h
      exact hbad (h _ text htext)
    · rintro k ⟨text', htext', hk⟩
      exact Nat.le_of_not_lt fun hlt => hk (hbefore k hlt text' htext')

/-- Of all that is wrong with the second line, the item is found first. -/
example : Program.read "ret\nMov ,x $a null" = .error ⟨.badItem "x", ⟨1, 5⟩⟩ := by
  cbv

end CritterScript
