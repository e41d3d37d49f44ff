import CritterScript.Proofs.Tokens
import Mathlib

/-!
# Spaced out lines

A line is made of words by putting blank space in front of them, and at its end
more of it and a comment (`SpacedLine`). However that is done, the tokens of the
line are those words, and the column of each is the number of bytes that were
put in front of it; and every line is made like that (`tokenize_spaced`).
-/

namespace CritterScript

/-- A word of a line and the blank space in front of it. -/
structure SpacedWord where
  gap : String
  word : String
  blank : ∀ c ∈ gap.toList, Text.isBlank c = true
  ne_empty : word ≠ ""
  plain : ∀ c ∈ word.toList, isPlain c = true

/-- A line by its words: the first of them may stand at its start, and there is
something blank in front of each of the others. -/
structure SpacedLine where
  words : List SpacedWord
  apart : ∀ w ∈ words.tail, w.gap ≠ ""
  trail : String
  blank : ∀ c ∈ trail.toList, Text.isBlank c = true
  comment : Option String

/-- Words one behind the other, with the space in front of each. -/
def spacedText (ws : List SpacedWord) : String :=
  String.join (ws.map fun w => w.gap ++ w.word)

namespace SpacedLine

def text (l : SpacedLine) : String :=
  spacedText l.words ++ l.trail ++ l.comment.elim "" (commentMark.toString ++ ·)

/-- The words of a line that is line number `index` of its script, each at the
column where the text in front of it ends. -/
def tokens (l : SpacedLine) (index : Nat) : List Token :=
  l.words.mapIdx fun k w =>
    ⟨w.word, ⟨index, (spacedText (l.words.take k) ++ w.gap).utf8ByteSize⟩⟩

end SpacedLine

theorem toList_spacedText_cons (w : SpacedWord) (ws : List SpacedWord) :
    (spacedText (w :: ws)).toList = w.gap.toList ++ w.word.toList ++ (spacedText ws).toList := by
  rw [spacedText, List.map_cons, String.join_cons, String.toList_append, String.toList_append]
  rfl

theorem isBlank_commentMark : Text.isBlank commentMark = false := by
  decide

theorem commentMark_notMem_of_isBlank {cs : List Char} (h : ∀ c ∈ cs, Text.isBlank c = true) :
    commentMark ∉ cs := by
  intro hmem
  have hblank := h commentMark hmem
  rw [isBlank_commentMark] at hblank
  cases hblank

theorem commentMark_notMem_spacedText (ws : List SpacedWord) :
    commentMark ∉ (spacedText ws).toList := by
  induction ws with
  | nil => exact List.not_mem_nil
  | cons w ws ih =>
    rw [toList_spacedText_cons, List.mem_append, List.mem_append]
    rintro ((hmem | hmem) | hmem)
    · exact commentMark_notMem_of_isBlank w.blank hmem
    · have hplain := isPlain_iff.mp (w.plain commentMark hmem)
      exact absurd rfl (bne_iff_ne.mp hplain.2)
    · exact ih hmem

theorem SpacedLine.isCode_text (l : SpacedLine) :
    IsCode l.text.toList (spacedText l.words ++ l.trail).toList := by
  constructor
  · rw [String.toList_append, List.mem_append]
    rintro (hmem | hmem)
    · exact commentMark_notMem_spacedText l.words hmem
    · exact commentMark_notMem_of_isBlank l.blank hmem
  · cases hcomment : l.comment with
    | none =>
      left
      rw [text, hcomment, Option.elim_none, String.append_empty]
    | some c =>
      right
      refine ⟨c.toList, ?_⟩
      rw [text, hcomment, Option.elim_some, List.append_assoc]
      simp only [String.toList_append, List.append_assoc]
      rfl

theorem SpacedWord.maximalRun (w : SpacedWord) {rest : List Char}
    (hrest : ∀ c ∈ rest.head?, Text.isBlank c = true) :
    Text.MaximalRun w.gap.toList w.word.toList rest where
  ne_nil := by simpa using w.ne_empty
  solid c hc := (isPlain_iff.mp (w.plain c hc)).1
  starts c hc := w.blank c (List.mem_of_getLast? hc)
  ends := hrest

/-- Behind a word comes the space in front of the next one, or that at the end
of the line. -/
theorem isBlank_head_spacedText {ws : List SpacedWord} (hws : ∀ w ∈ ws, w.gap ≠ "")
    {trail : List Char} (htrail : ∀ c ∈ trail, Text.isBlank c = true) :
    ∀ c ∈ ((spacedText ws).toList ++ trail).head?, Text.isBlank c = true := by
  intro c hc
  cases ws with
  | nil => exact htrail c (List.mem_of_head? hc)
  | cons w ws =>
    have hgap : w.gap.toList ≠ [] := by simpa using hws w List.mem_cons_self
    rw [toList_spacedText_cons, List.append_assoc, List.append_assoc,
      List.head?_append_of_ne_nil _ hgap] at hc
    exact w.blank c (List.mem_of_head? hc)

theorem words_spacedText {ws : List SpacedWord} (hws : ∀ w ∈ ws.tail, w.gap ≠ "")
    {trail : List Char} (htrail : ∀ c ∈ trail, Text.isBlank c = true) (column : Nat) :
    Text.words column ((spacedText ws).toList ++ trail) =
      ws.mapIdx fun k w =>
        (column + (spacedText (ws.take k) ++ w.gap).utf8ByteSize, w.word.toList) := by
  induction ws generalizing column with
  | nil => exact Text.words_of_isBlank htrail column
  | cons w ws ih =>
    have hrun := w.maximalRun (@isBlank_head_spacedText ws hws trail htrail)
    rw [toList_spacedText_cons, List.append_assoc, Text.words_first w.blank hrun,
      ih fun v hv => hws v (List.mem_of_mem_tail hv), List.mapIdx_cons]
    congr 1
    · rw [Text.byteSize_toList]
      rfl
    · congr 1
      funext k v
      -- the text in front of a later word starts with the first word
      simp only [List.take_succ_cons, ← Text.byteSize_toList, String.toList_append,
        toList_spacedText_cons, Text.byteSize_append, Nat.add_assoc]

theorem SpacedLine.tokenize_text (l : SpacedLine) (index : Nat) :
    tokenize l.text index = l.tokens index := by
  rw [tokenize, l.isCode_text.eq, String.toList_append, words_spacedText l.apart l.blank]
  symm
  rw [tokens, List.mapIdx_eq_iff]
  intro k
  simp only [List.getElem?_map, List.getElem?_mapIdx, Option.map_map, Function.comp_def,
    String.ofList_toList, Nat.zero_add]

/-- The space in front of the first word takes three bytes, and the accented
letter two. -/
example : tokenize "\u3000add\t@é x;1 ;2" 4 =
    [⟨"add", ⟨4, 3⟩⟩, ⟨"@é", ⟨4, 7⟩⟩, ⟨"x", ⟨4, 11⟩⟩] := by
  cbv

/-- A run of a text with the space in front of it. -/
def SpacedWord.ofRun {gap word rest : List Char} (hgap : ∀ c ∈ gap, Text.isBlank c = true)
    (hrun : Text.MaximalRun gap word rest) (hmark : commentMark ∉ word) : SpacedWord where
  gap := String.ofList gap
  word := String.ofList word
  blank := by simpa using hgap
  ne_empty := by simpa using hrun.ne_nil
  plain := by
    intro c hc
    rw [String.toList_ofList] at hc
    refine isPlain_iff.mpr ⟨hrun.solid c hc, bne_iff_ne.mpr ?_⟩
    rintro rfl
    exact hmark hc

theorem SpacedWord.gap_ne_empty {w : SpacedWord} {ws : List SpacedWord} {trail : List Char}
    (h : ∀ c ∈ ((spacedText (w :: ws)).toList ++ trail).head?, Text.isBlank c = true) :
    w.gap ≠ "" := by
  intro hgap
  have hne : w.word.toList ≠ [] := by simpa using w.ne_empty
  obtain ⟨c, cs, hword⟩ := List.exists_cons_of_ne_nil hne
  have hblank := h c (by rw [toList_spacedText_cons, hgap, hword]; rfl)
  have hplain := isPlain_iff.mp (w.plain c (hword ▸ List.mem_cons_self))
  rw [hplain.1] at hblank
  cases hblank

/-- A text without comments is made of words and the space around them. -/
theorem exists_spacedText {code : List Char} (hcode : commentMark ∉ code) :
    ∃ (ws : List SpacedWord) (trail : List Char), (∀ w ∈ ws.tail, w.gap ≠ "") ∧
      (∀ c ∈ trail, Text.isBlank c = true) ∧ (spacedText ws).toList ++ trail = code := by
  induction code using Text.word_induction with
  | blank cs hblank => exact ⟨[], cs, fun w hw => absurd hw List.not_mem_nil, hblank, rfl⟩
  | word gap w rest hgap hrun ih =>
    rw [List.mem_append, List.mem_append, not_or, not_or] at hcode
    obtain ⟨⟨-, hmark⟩, hrest⟩ := hcode
    obtain ⟨ws, trail, hws, htrail, rfl⟩ := ih hrest
    refine ⟨.ofRun hgap hrun hmark :: ws, trail, fun v hv => ?_, htrail, ?_⟩
    · cases ws with
      | nil => cases hv
      | cons next ws =>
        -- a run ends in front of something blank, which the next word starts with
        obtain rfl | hv := List.mem_cons.mp hv
        · exact SpacedWord.gap_ne_empty hrun.ends
        · exact hws v hv
    · simp only [toList_spacedText_cons, SpacedWord.ofRun, String.toList_ofList, List.append_assoc]

theorem exists_spacedLine (line : String) : ∃ l : SpacedLine, l.text = line := by
  obtain ⟨hmark, hline⟩ := isCode_codePart line.toList
  obtain ⟨ws, trail, hws, htrail, hcode⟩ := exists_spacedText hmark
  have htext : spacedText ws ++ String.ofList trail = String.ofList (codePart line.toList) := by
    rw [← hcode, String.ofList_append, String.ofList_toList]
  obtain hline | ⟨comment, hline⟩ := hline
  · refine ⟨⟨ws, hws, String.ofList trail, by simpa using htrail, none⟩, ?_⟩
    rw [SpacedLine.text, htext, hline, String.ofList_toList]
    exact String.append_empty
  · refine ⟨⟨ws, hws, String.ofList trail, by simpa using htrail, some (String.ofList comment)⟩, ?_⟩
    calc
      _ = String.ofList (codePart line.toList) ++
          (commentMark.toString ++ String.ofList comment) := by
        rw [SpacedLine.text, htext]
        rfl
      _ = String.ofList (codePart line.toList ++ [commentMark] ++ comment) := by
        rw [List.append_assoc, String.ofList_append, String.ofList_append]
        rfl
      _ = line := by rw [hline, String.ofList_toList]

theorem toList_intercalate_space (head : String) (texts : List String) :
    (String.intercalate " " (head :: texts)).toList =
      head.toList ++ (texts.map String.toList).flatMap fun w => ' ' :: w := by
  induction texts generalizing head with
  | nil => rw [String.intercalate_singleton, List.map_nil, List.flatMap_nil, List.append_nil]
  | cons next texts ih =>
    rw [String.intercalate_cons_cons, String.toList_append, String.toList_append, ih,
      List.map_cons, List.flatMap_cons, List.append_assoc]
    rfl

theorem tokenize_intercalate_space {ws : List String}
    (hws : ∀ w ∈ ws, w ≠ "" ∧ ∀ c ∈ w.toList, isPlain c = true) (index : Nat) :
    (tokenize (String.intercalate " " ws) index).map Token.text = ws := by
  cases ws with
  | nil =>
    rw [String.intercalate_nil, map_text_tokenize, show codePart "".toList = [] from rfl,
      Text.words_nil]
    rfl
  | cons head texts =>
    have htexts : ∀ s ∈ texts, s ≠ "" ∧ ∀ c ∈ s.toList, isPlain c = true :=
      fun s hs => hws s (List.mem_cons_of_mem head hs)
    obtain ⟨hne, hhead⟩ := hws head List.mem_cons_self
    rw [tokenize_words (toList_intercalate_space head texts) (by simpa using hne) hhead
      (fun s hs => (htexts s hs).2), List.filter_eq_self.mpr]
    exact fun s hs => bne_iff_ne.mpr (htexts s hs).1

/-- Spacing out words and cutting the line into tokens gives the words, at the
columns where they were put, and every line can be spaced out from words. So the
texts of a line's tokens, with a space between them, make a line with the same
tokens but for their places. -/
theorem tokenize_spaced :
    (∀ (l : SpacedLine) (index : Nat), tokenize l.text index = l.tokens index) ∧
      (∀ line : String, ∃ l : SpacedLine, l.text = line) ∧
      ∀ (line : String) (index index' : Nat),
        (tokenize (String.intercalate " " ((tokenize line index).map Token.text)) index').map
            Token.text =
          (tokenize line index).map Token.text := by
  refine ⟨SpacedLine.tokenize_text, exists_spacedLine, fun line index index' => ?_⟩
  exact tokenize_intercalate_space (plain_of_mem_words line index) index'

end CritterScript
