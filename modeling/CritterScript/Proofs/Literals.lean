import CritterScript.Proofs.Grammar
import CritterScript.Proofs.Number.Spelling
import Mathlib

/-!
# The grammar of literals

`LiteralAnswer` says what a token is answered with, in terms of how numbers are
spelled: a label, an array, `null` or a number, and otherwise a mistake in the
whole text or in one of its items. There is one answer to every token, and the
reader gives it (`readLiteral_by_grammar`).

An item that is empty is left out, wherever it stands. So the items of an array
that count are fewer than those left between its first and its last number
(`readLiteral_array`), if nothing stands between two separators there
(`gap_accepted`).
-/

namespace CritterScript

open Number (NumberText)

/-! ## Items -/

/-- The items of a text: what stands between its separators. -/
def Token.items (t : Token) : List (List Char) :=
  t.text.toList.splitOn itemSeparator

/-- A list that is joined, with one of its members in the middle. -/
theorem intercalate_append_cons (a : Char) (before after : List (List Char)) (x : List Char) :
    [a].intercalate (before ++ x :: after) =
      before.flatMap (· ++ [a]) ++ x ++ after.flatMap (a :: ·) := by
  induction before with
  | nil =>
    induction after generalizing x with
    | nil => simp
    | cons next after ih =>
      rw [List.nil_append, List.intercalate_cons_cons, ← List.nil_append (next :: after), ih]
      simp
  | cons first before ih =>
    rw [List.cons_append, List.intercalate_cons_of_ne_nil (by simp), List.flatMap_cons, ih]
    simp only [List.append_assoc]

theorem toList_text_of_items {t : Token} {before after : List (List Char)} {item : List Char}
    (h : t.items = before ++ item :: after) :
    t.text.toList =
      before.flatMap (· ++ [itemSeparator]) ++ item ++ after.flatMap (itemSeparator :: ·) := by
  have htext : [itemSeparator].intercalate t.items = t.text.toList :=
    List.intercalate_splitOn itemSeparator
  rw [← htext, h, intercalate_append_cons]

/-- The items up to one, with their separators, are a start of the text. -/
theorem items_isPrefix {t : Token} {before : List (List Char)} {item : List Char}
    (h : before ++ [item] <+: t.items) :
    before.flatMap (· ++ [itemSeparator]) ++ item <+: t.text.toList := by
  obtain ⟨after, hitems⟩ := h
  rw [List.append_assoc] at hitems
  exact ⟨_, (toList_text_of_items hitems.symm).symm⟩

/-! ## Answers -/

/-- What a literal is read as, and which mistake is found at which place if it
is none. An item counts unless it is empty. -/
inductive LiteralAnswer (t : Token) : Except SyntaxError Value → Prop
  | label : t.isLabel = true → LiteralAnswer t (.ok (.label t.text))
  | array {xs : List Float} :
    t.isLabel = false → itemSeparator ∈ t.text.toList →
    List.Forall₂ NumberText (t.items.filter fun item => !item.isEmpty) xs →
    LiteralAnswer t (.ok (.array xs))
  | badItem {before : List (List Char)} {item : List Char} :
    t.isLabel = false → itemSeparator ∈ t.text.toList →
    FirstFailing (fun i => i = [] ∨ ∃ x, NumberText i x) t.items before item →
    LiteralAnswer t (.error ⟨.badItem (String.ofList item),
      t.place.shift (Text.byteSize (before.flatMap (· ++ [itemSeparator])))⟩)
  | null : t.text = "null" → LiteralAnswer t (.ok .null)
  | number {x : Float} :
    t.isLabel = false → itemSeparator ∉ t.text.toList → NumberText t.text.toList x →
    LiteralAnswer t (.ok (.number x))
  | badLiteral :
    t.isLabel = false → itemSeparator ∉ t.text.toList → t.text ≠ "null" →
    (∀ x, ¬ NumberText t.text.toList x) →
    LiteralAnswer t (.error ⟨.badLiteral t.text, t.place⟩)

section Answers

variable {t : Token}

theorem readLiteral_items (hl : t.isLabel = false) (hs : itemSeparator ∈ t.text.toList) :
    readLiteral t = (readItems t.place t.items).map .array :=
  readLiteral_of_separator hl hs

theorem LiteralAnswer.readLiteral_eq {answer : Except SyntaxError Value}
    (h : LiteralAnswer t answer) : readLiteral t = answer := by
  cases h with
  | label hl => exact readLiteral_of_label hl
  | array hl hs hxs =>
    have hread := hxs.imp fun _ _ => NumberText.read?_eq
    rw [readLiteral_items hl hs, readItems_eq_ok_iff.mpr hread]
    rfl
  | @badItem before item hl hs hfirst =>
    simp only [← Number.read?_eq_some_iff] at hfirst
    rw [readLiteral_items hl hs, readItems_eq_error_iff.mpr ⟨before, item, hfirst, rfl⟩]
    rfl
  | null hn => exact readLiteral_of_null hn
  | number hl hs hx => exact readLiteral_of_number hl hs hx.read?_eq
  | badLiteral hl hs hn hx => exact readLiteral_of_word hl hs hn (Number.read?_eq_none_iff.mpr hx)

theorem exists_literalAnswer (t : Token) : ∃ answer, LiteralAnswer t answer := by
  cases hl : t.isLabel with
  | true => exact ⟨_, .label hl⟩
  | false =>
    by_cases hs : itemSeparator ∈ t.text.toList
    · cases hitems : readItems t.place t.items with
      | ok xs =>
        have hxs := readItems_eq_ok_iff.mp hitems
        exact ⟨_, .array hl hs (hxs.imp fun _ _ => Number.numberText_of_read?)⟩
      | error e =>
        obtain ⟨before, item, hfirst, -⟩ := readItems_eq_error_iff.mp hitems
        simp only [Number.read?_eq_some_iff] at hfirst
        exact ⟨_, .badItem hl hs hfirst⟩
    by_cases hn : t.text = "null"
    · exact ⟨_, .null hn⟩
    by_cases hx : ∃ x, NumberText t.text.toList x
    · obtain ⟨x, hx⟩ := hx
      exact ⟨_, .number hl hs hx⟩
    · exact ⟨_, .badLiteral hl hs hn (not_exists.mp hx)⟩

theorem readLiteral_eq_iff {answer : Except SyntaxError Value} :
    readLiteral t = answer ↔ LiteralAnswer t answer := by
  refine ⟨?_, LiteralAnswer.readLiteral_eq⟩
  rintro rfl
  obtain ⟨answer, h⟩ := exists_literalAnswer t
  rw [h.readLiteral_eq]
  exact h

end Answers

/-- The numbers in a value. -/
def Value.numbers : Value → List Float
  | .number x => [x]
  | .array xs => xs
  | _ => []

/-- The numbers in a literal are those of texts that spell one. -/
theorem exists_numberText_of_mem_numbers {t : Token} {v : Value} {x : Float}
    (h : readLiteral t = .ok v) (hx : x ∈ v.numbers) : ∃ cs, NumberText cs x := by
  cases readLiteral_eq_iff.mp h with
  | label => cases hx
  | array hl hs hxs =>
    obtain ⟨item, -, hitem⟩ := exists_of_mem_forall₂ hxs hx
    exact ⟨item, hitem⟩
  | null => cases hx
  | number hl hs hnumber =>
    rw [List.mem_singleton.mp hx]
    exact ⟨_, hnumber⟩

theorem not_numberText {cs : List Char}
    (h : cs.all Number.isNumberChar = false ∨
      ∃ c ∈ cs.getLast?, c.isDigit = false ∧ c ≠ '.') (x : Float) : ¬ NumberText cs x := by
  intro hx
  obtain h | ⟨c, hc, hdigit, hpoint⟩ := h
  · rw [hx.all] at h
    cases h
  · obtain h | h := hx.getLast? c hc
    · rw [h] at hdigit
      cases hdigit
    · exact hpoint h

/-- A token is answered with what the grammar says. A mistake in an item is at
the byte where the item starts, and its message quotes the item; other mistakes
are those of the whole text. There is no `NaN` in a literal. A text is refused if
there is a character in it that no number has, or if it ends with neither a digit
nor a point, as where an exponent breaks off. -/
theorem readLiteral_by_grammar (t : Token) :
    (∀ answer, readLiteral t = answer ↔ LiteralAnswer t answer) ∧
      (∀ before item, before ++ [item] <+: t.items →
        before.flatMap (· ++ [itemSeparator]) ++ item <+: t.text.toList) ∧
      (∀ s, (Mistake.badItem s).message = "Unexpected array element '" ++ s ++ "'" ∧
        (Mistake.badLiteral s).message = "Unexpected literal '" ++ s ++ "'") ∧
      (∀ v, readLiteral t = .ok v → ∀ x ∈ v.numbers, x.isNaN = false) ∧
      (t.isLabel = false → itemSeparator ∉ t.text.toList → t.text ≠ "null" →
        t.text.toList.all Number.isNumberChar = false ∨
          (∃ c ∈ t.text.toList.getLast?, c.isDigit = false ∧ c ≠ '.') →
        readLiteral t = .error ⟨.badLiteral t.text, t.place⟩) := by
  refine ⟨fun answer => readLiteral_eq_iff, fun before item => items_isPrefix,
    fun s => ⟨rfl, rfl⟩, fun v hv x hx => ?_, fun hl hs hn h => ?_⟩
  · obtain ⟨cs, hcs⟩ := exists_numberText_of_mem_numbers hv hx
    exact Number.isNaN_of_read? hcs.read?_eq
  · exact readLiteral_eq_iff.mpr (.badLiteral hl hs hn (not_numberText h))

example : ∀ s ∈ ["inf", "-Infinity", "nan", "1e", "2E+", ".", "1.2.3"],
    readLiteral ⟨s, ⟨0, 0⟩⟩ = .error ⟨.badLiteral s, ⟨0, 0⟩⟩ := by
  decide +kernel

/-! ## Arrays -/

/-- The items of a text but for the empty ones at its two ends. -/
def Token.innerItems (t : Token) : List (List Char) :=
  (t.items.dropWhile List.isEmpty).rdropWhile List.isEmpty

theorem exists_items_eq (t : Token) :
    ∃ front back, t.items = front ++ t.innerItems ++ back ∧
      (∀ item ∈ front, item.isEmpty = true) ∧ ∀ item ∈ back, item.isEmpty = true := by
  refine ⟨t.items.takeWhile List.isEmpty, (t.items.dropWhile List.isEmpty).rtakeWhile List.isEmpty,
    ?_, fun item => List.mem_takeWhile_imp, fun item => List.mem_rtakeWhile_imp⟩
  rw [Token.innerItems, List.append_assoc, List.rdropWhile_append_rtakeWhile,
    List.takeWhile_append_dropWhile]

/-- The items that count are all between the two ends. -/
theorem filter_innerItems (t : Token) :
    (t.innerItems.filter fun item => !item.isEmpty) = t.items.filter fun item => !item.isEmpty := by
  obtain ⟨front, back, hitems, hfront, hback⟩ := exists_items_eq t
  have hnone : ∀ {items : List (List Char)}, (∀ item ∈ items, item.isEmpty = true) →
      (items.filter fun item => !item.isEmpty) = [] := by
    intro items h
    rw [List.filter_eq_nil_iff]
    intro item hitem
    simp [h item hitem]
  rw [hitems, List.filter_append, List.filter_append, hnone hfront, hnone hback, List.nil_append,
    List.append_nil]

section Arrays

variable {t : Token}

theorem readLiteral_eq_ok_iff_of_separator (hl : t.isLabel = false)
    (hs : itemSeparator ∈ t.text.toList) {v : Value} :
    readLiteral t = .ok v ↔
      ∃ xs, List.Forall₂ NumberText (t.innerItems.filter fun item => !item.isEmpty) xs ∧
        .array xs = v := by
  rw [readLiteral_items hl hs, map_eq_ok_iff]
  simp only [readItems_eq_ok_iff, Number.read?_eq_some_iff, filter_innerItems]

theorem exists_forall₂_numberText_iff {items : List (List Char)} :
    (∃ xs, List.Forall₂ NumberText (items.filter fun item => !item.isEmpty) xs) ↔
      ∀ item ∈ items, item ≠ [] → ∃ x, NumberText item x := by
  have hmem : ∀ item, item ∈ (items.filter fun item => !item.isEmpty) ↔
      item ∈ items ∧ item ≠ [] := by
    intro item
    rw [List.mem_filter, Bool.not_eq_true', List.isEmpty_eq_false_iff]
  constructor
  · rintro ⟨xs, hxs⟩ item hitem hne
    obtain ⟨x, -, hx⟩ := exists_of_mem_forall₂ hxs.flip ((hmem item).mpr ⟨hitem, hne⟩)
    exact ⟨x, hx⟩
  · intro h
    refine exists_forall₂ fun item hitem => ?_
    obtain ⟨hitem, hne⟩ := (hmem item).mp hitem
    exact h item hitem hne

theorem not_numberText_nil (x : Float) : ¬ NumberText [] x := by
  intro h
  cases h.read?_eq

theorem length_filter_add_count (items : List (List Char)) :
    (items.filter fun item => !item.isEmpty).length + items.count [] = items.length := by
  induction items with
  | nil => rfl
  | cons item items ih =>
    cases item with
    | nil =>
      rw [List.filter_cons_of_neg (by decide), List.count_cons_self, List.length_cons]
      omega
    | cons c cs =>
      rw [List.filter_cons_of_pos rfl, List.count_cons_of_ne (List.cons_ne_nil c cs),
        List.length_cons, List.length_cons]
      omega

/-- An array is read just if each item between the empty ones at its two ends is
a number, or empty as well; and its numbers are those of the items that are not.
So it takes for all of these items to be numbers that none of them is empty. -/
theorem readLiteral_array (hl : t.isLabel = false) (hs : itemSeparator ∈ t.text.toList) :
    ((∃ v, readLiteral t = .ok v) ↔
        ∀ item ∈ t.innerItems, item ≠ [] → ∃ x, NumberText item x) ∧
      (∀ v, readLiteral t = .ok v → ∃ xs, v = .array xs ∧
        List.Forall₂ NumberText (t.innerItems.filter fun item => !item.isEmpty) xs ∧
        xs.length + t.innerItems.count [] = t.innerItems.length) ∧
      ((∀ item ∈ t.innerItems, ∃ x, NumberText item x) ↔
        (∃ v, readLiteral t = .ok v) ∧ [] ∉ t.innerItems) := by
  have hread : (∃ v, readLiteral t = .ok v) ↔
      ∀ item ∈ t.innerItems, item ≠ [] → ∃ x, NumberText item x := by
    rw [← exists_forall₂_numberText_iff]
    simp only [readLiteral_eq_ok_iff_of_separator hl hs]
    constructor
    · rintro ⟨v, xs, hxs, -⟩
      exact ⟨xs, hxs⟩
    · rintro ⟨xs, hxs⟩
      exact ⟨_, xs, hxs, rfl⟩
  refine ⟨hread, fun v hv => ?_, ?_⟩
  · obtain ⟨xs, hxs, rfl⟩ := (readLiteral_eq_ok_iff_of_separator hl hs).mp hv
    refine ⟨xs, rfl, hxs, ?_⟩
    rw [← hxs.length_eq, length_filter_add_count]
  · rw [hread]
    -- to ask for a number of every item is to ask in addition that none is empty
    constructor
    · intro h
      refine ⟨fun item hitem _ => h item hitem, fun hnil => ?_⟩
      obtain ⟨x, hx⟩ := h [] hnil
      exact not_numberText_nil x hx
    · rintro ⟨h, hnil⟩ item hitem
      refine h item hitem ?_
      rintro rfl
      exact hnil hitem

end Arrays

theorem readLiteral_array_trimmed :
    (Token.mk ",5,-2," ⟨0, 0⟩).isLabel = false ∧ itemSeparator ∈ ",5,-2,".toList ∧
      ∃ xs, readLiteral ⟨",5,-2,", ⟨0, 0⟩⟩ = .ok (.array xs) ∧ xs.length = 2 := by
  have hinner : (Token.mk ",5,-2," ⟨0, 0⟩).innerItems = [['5'], ['-', '2']] := by
    decide
  obtain ⟨hread, hlength, -⟩ := @readLiteral_array ⟨",5,-2,", ⟨0, 0⟩⟩ (by decide) (by decide)
  rw [hinner] at hread hlength
  obtain ⟨v, hv⟩ := hread.mpr fun item hitem _ => by
    obtain rfl | rfl := List.mem_pair.mp hitem
    · exact ⟨_, Number.numberText_of_read? rfl⟩
    · exact ⟨_, Number.numberText_of_read? rfl⟩
  obtain ⟨xs, rfl, -, hxs⟩ := hlength v hv
  exact ⟨by decide, by decide, xs, hv, hxs⟩

/-- Nothing between two separators is passed over, though it spells no number. -/
theorem gap_accepted :
    (Token.mk "1,,2" ⟨0, 0⟩).isLabel = false ∧ itemSeparator ∈ "1,,2".toList ∧
      ¬ ((∃ v, readLiteral ⟨"1,,2", ⟨0, 0⟩⟩ = .ok v) ↔
        ∀ item ∈ (Token.mk "1,,2" ⟨0, 0⟩).innerItems, ∃ x, NumberText item x) := by
  refine ⟨by decide, by decide, fun h => ?_⟩
  have hread : readLiteral ⟨"1,,2", ⟨0, 0⟩⟩ = .ok (.array [1, 2]) := by
    decide +kernel
  obtain ⟨x, hx⟩ := h.mp ⟨_, hread⟩ [] (by decide)
  exact not_numberText_nil x hx

end CritterScript
