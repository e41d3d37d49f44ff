import CritterScript.Program
import CritterScript.Script.Token
import Mathlib

/-!
# The words of a line

A line falls into its words, and words written one behind the other with a
space in front of each are found again (`words_flatMap_space`,
`tokenize_words`). An instruction is written like that, so the tokens of its
text are the name of its opcode and the texts of its operands, as far as these
are not empty (`tokenize_text`). A token is never empty, and no character of it is blank or
starts a comment (`plain_of_mem_tokenize`).
-/

namespace CritterScript

namespace Text

theorem words_of_dropWhile_nil {cs : List Char} (h : cs.dropWhile isBlank = []) (column : Nat) :
    words column cs = [] := by
  rw [words]
  split
  · rfl
  · next h' => rw [h] at h'; cases h'

theorem words_of_dropWhile_cons {cs rest : List Char} {c : Char}
    (h : cs.dropWhile isBlank = c :: rest) (column : Nat) :
    words column cs =
      (column + byteSize (cs.takeWhile isBlank), c :: rest.takeWhile fun d => !isBlank d) ::
        words (column + byteSize (cs.takeWhile isBlank) +
          byteSize (c :: rest.takeWhile fun d => !isBlank d))
          (rest.dropWhile fun d => !isBlank d) := by
  rw [words]
  split
  · next h' => rw [h] at h'; cases h'
  · next h' => rw [h] at h'; cases h'; rfl

@[simp] theorem words_nil (column : Nat) : words column [] = [] :=
  words_of_dropWhile_nil rfl column

theorem words_cons_of_isBlank {c : Char} (hc : isBlank c = true) (cs : List Char) (column : Nat) :
    words column (c :: cs) = words (column + c.utf8Size) cs := by
  have hdrop : (c :: cs).dropWhile isBlank = cs.dropWhile isBlank := List.dropWhile_cons_of_pos hc
  have htake : (c :: cs).takeWhile isBlank = c :: cs.takeWhile isBlank :=
    List.takeWhile_cons_of_pos hc
  cases hcs : cs.dropWhile isBlank with
  | nil => rw [words_of_dropWhile_nil (hdrop.trans hcs), words_of_dropWhile_nil hcs]
  | cons d rest =>
    rw [words_of_dropWhile_cons (hdrop.trans hcs), words_of_dropWhile_cons hcs, htake,
      byteSize_cons, ← Nat.add_assoc column]

/-- A word ends where something blank follows. -/
theorem words_append {w rest : List Char} (hne : w ≠ []) (hw : ∀ c ∈ w, isBlank c = false)
    (hrest : ∀ c ∈ rest.head?, isBlank c = true) (column : Nat) :
    words column (w ++ rest) = (column, w) :: words (column + byteSize w) rest := by
  obtain ⟨c, cs, rfl⟩ := List.exists_cons_of_ne_nil hne
  have hc : isBlank c = false := hw c List.mem_cons_self
  have hcs : ∀ d ∈ cs, (!isBlank d) = true := by
    intro d hd
    rw [hw d (List.mem_cons_of_mem c hd)]
    rfl
  have htake : (cs ++ rest).takeWhile (fun d => !isBlank d) = cs := by
    rw [List.takeWhile_append_of_pos hcs]
    cases rest with
    | nil => rw [List.takeWhile_nil, List.append_nil]
    | cons b rest =>
      rw [List.takeWhile_cons_of_neg (by rw [hrest b rfl]; decide), List.append_nil]
  have hdrop : (cs ++ rest).dropWhile (fun d => !isBlank d) = rest := by
    rw [List.dropWhile_append_of_pos hcs]
    cases rest with
    | nil => rfl
    | cons b rest => rw [List.dropWhile_cons_of_neg (by rw [hrest b rfl]; decide)]
  have hstart : ¬ isBlank c = true := by
    rw [hc]
    decide
  rw [List.cons_append, words_of_dropWhile_cons (List.dropWhile_cons_of_neg hstart), htake, hdrop,
    List.takeWhile_cons_of_neg hstart, byteSize_nil, Nat.add_zero]

theorem mem_words {column : Nat} {cs : List Char} {w : Nat × List Char} (h : w ∈ words column cs) :
    w.2 ≠ [] ∧ ∀ c ∈ w.2, c ∈ cs ∧ isBlank c = false := by
  induction column, cs using words.induct with
  | case1 column cs hcs =>
    rw [words_of_dropWhile_nil hcs] at h
    cases h
  | case2 column cs c rest hcs _ start word ih =>
    have hsub : ∀ d ∈ c :: rest, d ∈ cs := fun d hd =>
      (List.dropWhile_sublist isBlank).subset (hcs ▸ hd)
    rw [words_of_dropWhile_cons hcs, List.mem_cons] at h
    obtain rfl | h := h
    · refine ⟨List.cons_ne_nil _ _, ?_⟩
      rintro d (_ | ⟨_, hd⟩)
      · have hhead := List.head?_dropWhile_not isBlank cs
        rw [hcs] at hhead
        exact ⟨hsub c List.mem_cons_self, by simpa using hhead⟩
      · have hblank := List.mem_takeWhile_imp hd
        refine ⟨hsub d (List.mem_cons_of_mem c ((List.takeWhile_sublist _).subset hd)), ?_⟩
        simpa using hblank
    · obtain ⟨hne, hmem⟩ := ih h
      refine ⟨hne, fun d hd => ⟨?_, (hmem d hd).2⟩⟩
      exact hsub d (List.mem_cons_of_mem c ((List.dropWhile_sublist _).subset (hmem d hd).1))

end Text

/-- The character may stand inside a word: it is not blank, and it does not
start a comment. -/
def isPlain (c : Char) : Bool :=
  !Text.isBlank c && c != commentMark

theorem isPlain_iff {c : Char} :
    isPlain c = true ↔ Text.isBlank c = false ∧ (c != commentMark) = true := by
  rw [isPlain, Bool.and_eq_true, Bool.not_eq_true']

theorem map_text_tokenize (line : String) (index : Nat) :
    (tokenize line index).map Token.text =
      ((Text.words 0 (codePart line.toList)).map Prod.snd).map String.ofList := by
  rw [tokenize, List.map_map, List.map_map]
  rfl

/-- A token is a word, and stands in front of the comment. -/
theorem plain_of_mem_tokenize {line : String} {index : Nat} {t : Token}
    (ht : t ∈ tokenize line index) : t.text ≠ "" ∧ ∀ c ∈ t.text.toList, isPlain c = true := by
  obtain ⟨w, hw, rfl⟩ := List.mem_map.mp ht
  obtain ⟨hne, hmem⟩ := Text.mem_words hw
  constructor
  · intro hempty
    apply hne
    rw [← String.toList_ofList (l := w.2)]
    exact congrArg String.toList hempty
  · intro c hc
    rw [String.toList_ofList] at hc
    obtain ⟨hcode, hblank⟩ := hmem c hc
    have hmark := @List.mem_takeWhile_imp _ (· != commentMark) _ _ hcode
    exact isPlain_iff.mpr ⟨hblank, hmark⟩

theorem plain_of_mem_words (line : String) (index : Nat) :
    ∀ w ∈ (tokenize line index).map Token.text, w ≠ "" ∧ ∀ c ∈ w.toList, isPlain c = true := by
  intro w hw
  obtain ⟨t, ht, rfl⟩ := List.mem_map.mp hw
  exact plain_of_mem_tokenize ht

theorem isBlank_head_flatMap_space (ws : List (List Char)) :
    ∀ c ∈ (ws.flatMap fun w => ' ' :: w).head?, Text.isBlank c = true := by
  intro c hc
  cases ws with
  | nil => cases hc
  | cons w ws =>
    cases hc
    rfl

/-- Words with a space in front of each are the words of the text, but for
those that are empty. -/
theorem words_flatMap_space {ws : List (List Char)}
    (h : ∀ w ∈ ws, ∀ c ∈ w, Text.isBlank c = false) (column : Nat) :
    (Text.words column (ws.flatMap fun w => ' ' :: w)).map Prod.snd =
      ws.filter fun w => !w.isEmpty := by
  induction ws generalizing column with
  | nil =>
    rw [List.flatMap_nil, Text.words_nil]
    rfl
  | cons w ws ih =>
    have hws : ∀ column, _ := ih fun v hv => h v (List.mem_cons_of_mem w hv)
    rw [List.flatMap_cons, List.cons_append, Text.words_cons_of_isBlank rfl]
    cases w with
    | nil => exact hws _
    | cons c cs =>
      rw [Text.words_append (List.cons_ne_nil c cs) (h _ List.mem_cons_self)
        (isBlank_head_flatMap_space ws), List.map_cons, hws, List.filter_cons_of_pos rfl]

theorem toList_text (i : Instruction) :
    i.text.toList =
      i.opcode.name.toList ++ (i.operands.map fun a => a.text.toList).flatMap fun w => ' ' :: w := by
  have hfold : ∀ (operands : List Operand) (s : String),
      (operands.foldl (fun s a => s ++ " " ++ a.text) s).toList =
        s.toList ++ (operands.map fun a => a.text.toList).flatMap fun w => ' ' :: w := by
    intro operands
    induction operands with
    | nil =>
      intro s
      exact (List.append_nil _).symm
    | cons a operands ih =>
      intro s
      rw [List.foldl_cons, ih, List.map_cons, List.flatMap_cons, String.toList_append,
        String.toList_append, List.append_assoc, List.append_assoc]
      rfl
  exact hfold i.operands i.opcode.name

theorem plain_name (op : Opcode) :
    op.name.toList ≠ [] ∧ op.name.toList.all isPlain = true := by
  cases op <;> decide

theorem filter_map_toList (texts : List String) :
    ((texts.map String.toList).filter fun w => !w.isEmpty).map String.ofList =
      texts.filter (· != "") := by
  have hid : String.ofList ∘ String.toList = id := funext fun s => String.ofList_toList
  rw [List.filter_map, List.map_map, hid, List.map_id]
  refine List.filter_congr fun s _ => ?_
  by_cases hs : s = ""
  · subst hs
    rfl
  · rw [Function.comp_apply, bne_iff_ne.mpr hs, Bool.not_eq_true', List.isEmpty_eq_false_iff]
    simpa using hs

/-- The tokens of a line that is written as words with a space between
them. -/
theorem tokenize_words {line head : String} {texts : List String}
    (hline : line.toList =
      head.toList ++ (texts.map String.toList).flatMap fun w => ' ' :: w)
    (hne : head.toList ≠ []) (hhead : ∀ c ∈ head.toList, isPlain c = true)
    (htexts : ∀ s ∈ texts, ∀ c ∈ s.toList, isPlain c = true) (index : Nat) :
    (tokenize line index).map Token.text = head :: texts.filter (· != "") := by
  have hwords : ∀ w ∈ texts.map String.toList, ∀ c ∈ w, isPlain c = true := by
    intro w hw
    obtain ⟨s, hs, rfl⟩ := List.mem_map.mp hw
    exact htexts s hs
  have hcode : codePart line.toList = line.toList := by
    rw [codePart, List.takeWhile_eq_self_iff, hline]
    intro c hc
    obtain hc | hc := List.mem_append.mp hc
    · exact (isPlain_iff.mp (hhead c hc)).2
    · obtain ⟨w, hw, _ | ⟨_, hc⟩⟩ := List.mem_flatMap.mp hc
      · rfl
      · exact (isPlain_iff.mp (hwords w hw c hc)).2
  rw [map_text_tokenize, hcode, hline,
    Text.words_append hne (fun c hc => (isPlain_iff.mp (hhead c hc)).1)
      (isBlank_head_flatMap_space _),
    List.map_cons, words_flatMap_space fun w hw c hc => (isPlain_iff.mp (hwords w hw c hc)).1,
    List.map_cons, String.ofList_toList, filter_map_toList]

/-- There is nothing blank in a line of words but the spaces between them. -/
theorem notMem_words {line head : String} {texts : List String}
    (hline : line.toList =
      head.toList ++ (texts.map String.toList).flatMap fun w => ' ' :: w)
    (hhead : ∀ c ∈ head.toList, isPlain c = true)
    (htexts : ∀ s ∈ texts, ∀ c ∈ s.toList, isPlain c = true) {c : Char}
    (hc : Text.isBlank c = true) (hspace : c ≠ ' ') : c ∉ line.toList := by
  have hplain : isPlain c ≠ true := by simp [isPlain, hc]
  rw [hline, List.mem_append]
  rintro (hmem | hmem)
  · exact hplain (hhead c hmem)
  · obtain ⟨w, hw, hmem⟩ := List.mem_flatMap.mp hmem
    obtain ⟨s, hs, rfl⟩ := List.mem_map.mp hw
    obtain hmem | hmem := List.mem_cons.mp hmem
    · exact hspace hmem
    · exact hplain (htexts s hs c hmem)

theorem toList_text_words (i : Instruction) :
    i.text.toList = i.opcode.name.toList ++
      ((i.operands.map Operand.text).map String.toList).flatMap fun w => ' ' :: w := by
  rw [toList_text, List.map_map]
  rfl

/-- The tokens of an instruction's text, if its operands are written without
blanks and comments. -/
theorem tokenize_text {i : Instruction}
    (h : ∀ a ∈ i.operands, ∀ c ∈ a.text.toList, isPlain c = true) (index : Nat) :
    (tokenize i.text index).map Token.text =
      i.opcode.name :: (i.operands.map Operand.text).filter (· != "") := by
  obtain ⟨hne, hname⟩ := plain_name i.opcode
  refine tokenize_words (toList_text_words i) hne (List.all_eq_true.mp hname) ?_ index
  intro s hs
  obtain ⟨a, ha, rfl⟩ := List.mem_map.mp hs
  exact h a ha

end CritterScript
