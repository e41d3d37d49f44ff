import CritterScript.Proofs.Words
import Mathlib

/-!
# Runs and characters of a text

A word of a text is a maximal run of characters that are not blank
(`MaximalRun`): the text is cut in three, and at both cuts there is something
blank or the end of the text. `mem_words_iff` says that `words` gives these runs
and nothing else, each with the number of bytes in front of it, and
`pairwise_words` that it gives them from left to right.

Inside a text, bytes belong to characters. `CharAt` says which character starts
at a byte: each byte belongs to one (`exists_charAt`), and no two overlap
(`CharAt.add_le`, `CharAt.eq`).
-/

namespace CritterScript.Text

theorem byteSize_pos {cs : List Char} (h : cs ≠ []) : 0 < byteSize cs := by
  obtain ⟨c, cs, rfl⟩ := List.exists_cons_of_ne_nil h
  have hc := c.utf8Size_pos
  rw [byteSize_cons]
  omega

theorem byteSize_toList (s : String) : byteSize s.toList = s.utf8ByteSize := by
  have hlist : ∀ cs : List Char, byteSize cs = (String.ofList cs).utf8ByteSize := by
    intro cs
    induction cs with
    | nil => rfl
    | cons c cs ih =>
      rw [byteSize_cons, ih, String.utf8ByteSize_ofList, String.utf8ByteSize_ofList,
        String.utf8Len_cons, Nat.add_comm]
  rw [hlist, String.ofList_toList]

/-! ## Runs -/

/-- The middle of `before ++ word ++ after` is a maximal run of characters that
are not blank. -/
structure MaximalRun (before word after : List Char) : Prop where
  ne_nil : word ≠ []
  solid : ∀ c ∈ word, isBlank c = false
  starts : ∀ c ∈ before.getLast?, isBlank c = true
  ends : ∀ c ∈ after.head?, isBlank c = true

theorem words_append_of_isBlank {gap : List Char} (hgap : ∀ c ∈ gap, isBlank c = true)
    (cs : List Char) (column : Nat) :
    words column (gap ++ cs) = words (column + byteSize gap) cs := by
  induction gap generalizing column with
  | nil => rw [List.nil_append, byteSize_nil, Nat.add_zero]
  | cons c gap ih =>
    rw [List.cons_append, words_cons_of_isBlank (hgap c List.mem_cons_self),
      ih fun d hd => hgap d (List.mem_cons_of_mem c hd), byteSize_cons, Nat.add_assoc]

/-- A text is blank, or it is blank space and a first word, and behind that word
something blank or nothing. -/
theorem blank_or_exists_word (cs : List Char) :
    (∀ c ∈ cs, isBlank c = true) ∨
      ∃ gap w rest, cs = gap ++ w ++ rest ∧ (∀ c ∈ gap, isBlank c = true) ∧
        MaximalRun gap w rest := by
  cases hcs : cs.dropWhile isBlank with
  | nil => exact .inl (List.dropWhile_eq_nil_iff.mp hcs)
  | cons c rest =>
    have hc : isBlank c = false := by
      have hhead := List.head?_dropWhile_not isBlank cs
      rw [hcs] at hhead
      simpa using hhead
    have hgap : ∀ d ∈ cs.takeWhile isBlank, isBlank d = true := fun d => List.mem_takeWhile_imp
    refine .inr ⟨cs.takeWhile isBlank, c :: rest.takeWhile fun d => !isBlank d,
      rest.dropWhile fun d => !isBlank d, ?_, hgap, List.cons_ne_nil _ _, ?_, ?_, ?_⟩
    · rw [List.append_assoc, List.cons_append, List.takeWhile_append_dropWhile, ← hcs,
        List.takeWhile_append_dropWhile]
    · rintro d (_ | ⟨_, hd⟩)
      · exact hc
      · simpa using List.mem_takeWhile_imp hd
    · exact fun d hd => hgap d (List.mem_of_getLast? hd)
    · intro d hd
      have hhead := List.head?_dropWhile_not (fun d => !isBlank d) rest
      rw [hd] at hhead
      simpa using hhead

theorem words_of_isBlank {cs : List Char} (h : ∀ c ∈ cs, isBlank c = true) (column : Nat) :
    words column cs = [] :=
  words_of_dropWhile_nil (List.dropWhile_eq_nil_iff.mpr h) column

theorem words_first {gap w rest : List Char} (hgap : ∀ c ∈ gap, isBlank c = true)
    (hrun : MaximalRun gap w rest) (column : Nat) :
    words column (gap ++ w ++ rest) =
      (column + byteSize gap, w) :: words (column + byteSize gap + byteSize w) rest := by
  rw [List.append_assoc, words_append_of_isBlank hgap,
    words_append hrun.ne_nil hrun.solid hrun.ends]

/-- Induction on a text, word by word. -/
@[elab_as_elim]
theorem word_induction {motive : List Char → Prop}
    (blank : ∀ cs, (∀ c ∈ cs, isBlank c = true) → motive cs)
    (word : ∀ gap w rest, (∀ c ∈ gap, isBlank c = true) → MaximalRun gap w rest → motive rest →
      motive (gap ++ w ++ rest)) (cs : List Char) : motive cs := by
  induction hn : cs.length using Nat.strong_induction_on generalizing cs with
  | _ n ih =>
    obtain hblank | ⟨gap, w, rest, rfl, hgap, hrun⟩ := blank_or_exists_word cs
    · exact blank cs hblank
    · have hshort : rest.length < n := by
        have hw := List.length_pos_iff.mpr hrun.ne_nil
        simp only [List.length_append] at hn
        omega
      exact word gap w rest hgap hrun (ih rest.length hshort rest rfl)

/-- The words of a text whose first part is blank at its end are those of its
two parts. -/
theorem words_append_of_getLast? {front : List Char}
    (hfront : ∀ c ∈ front.getLast?, isBlank c = true) (cs : List Char) (column : Nat) :
    words column (front ++ cs) = words column front ++ words (column + byteSize front) cs := by
  induction front using word_induction generalizing column with
  | blank front hblank =>
    rw [words_append_of_isBlank hblank, words_of_isBlank hblank, List.nil_append]
  | word gap w rest hgap hrun ih =>
    -- the first word is not the end of the first part, as that is blank
    have hrest : rest ≠ [] := by
      rintro rfl
      obtain ⟨w, c, rfl⟩ := (List.eq_nil_or_concat' w).resolve_left hrun.ne_nil
      have hc := hfront c (by simp)
      rw [hrun.solid c (by simp)] at hc
      cases hc
    have hlast : ∀ c ∈ rest.getLast?, isBlank c = true := by
      intro c hc
      rw [← List.getLast?_append_of_ne_nil (gap ++ w) hrest] at hc
      exact hfront c hc
    have hrun' : MaximalRun gap w (rest ++ cs) := by
      refine ⟨hrun.ne_nil, hrun.solid, hrun.starts, fun c hc => hrun.ends c ?_⟩
      rwa [List.head?_append_of_ne_nil rest hrest] at hc
    rw [List.append_assoc (gap ++ w), words_first hgap hrun', words_first hgap hrun, ih hlast]
    simp only [byteSize_append, Nat.add_assoc, List.cons_append]

/-- A maximal run is a word, and the other words are those in front of it and
those behind it. -/
theorem MaximalRun.words_eq {before word after : List Char} (h : MaximalRun before word after)
    (column : Nat) :
    words column (before ++ word ++ after) =
      words column before ++ (column + byteSize before, word) ::
        words (column + byteSize before + byteSize word) after := by
  rw [List.append_assoc, words_append_of_getLast? h.starts, words_append h.ne_nil h.solid h.ends]

/-- A run of what follows the first word of a text is a run of the text. -/
theorem MaximalRun.prepend {gap w before word after : List Char}
    (hfirst : MaximalRun gap w (before ++ word ++ after)) (h : MaximalRun before word after) :
    before ≠ [] ∧ MaximalRun (gap ++ w ++ before) word after := by
  have hne : before ≠ [] := by
    rintro rfl
    obtain ⟨c, word, rfl⟩ := List.exists_cons_of_ne_nil h.ne_nil
    have hc := hfirst.ends c rfl
    rw [h.solid c List.mem_cons_self] at hc
    cases hc
  refine ⟨hne, h.ne_nil, h.solid, fun c hc => h.starts c ?_, h.ends⟩
  rwa [List.getLast?_append_of_ne_nil _ hne] at hc

theorem exists_run_of_mem_words {column : Nat} {cs : List Char} {x : Nat × List Char}
    (h : x ∈ words column cs) :
    ∃ before after, cs = before ++ x.2 ++ after ∧ MaximalRun before x.2 after ∧
      x.1 = column + byteSize before := by
  induction cs using word_induction generalizing column with
  | blank cs hblank =>
    rw [words_of_isBlank hblank] at h
    cases h
  | word gap w rest hgap hrun ih =>
    rw [words_first hgap hrun, List.mem_cons] at h
    obtain rfl | h := h
    · exact ⟨gap, rest, rfl, hrun, rfl⟩
    · obtain ⟨before, after, rfl, hrun', hx⟩ := ih h
      refine ⟨gap ++ w ++ before, after, ?_, (hrun.prepend hrun').2, ?_⟩
      · simp only [List.append_assoc]
      · simp only [byteSize_append, hx]
        omega

/-- The words of a text are its maximal runs, with the number of bytes in front
of them. -/
theorem mem_words_iff {column : Nat} {cs : List Char} {x : Nat × List Char} :
    x ∈ words column cs ↔
      ∃ before after, cs = before ++ x.2 ++ after ∧ MaximalRun before x.2 after ∧
        x.1 = column + byteSize before := by
  refine ⟨exists_run_of_mem_words, ?_⟩
  rintro ⟨before, after, rfl, hrun, hx⟩
  rw [hrun.words_eq, ← hx]
  exact List.mem_append_right _ List.mem_cons_self

/-- The words of a text come from left to right, with room between them. -/
theorem pairwise_words (column : Nat) (cs : List Char) :
    (words column cs).Pairwise fun x y => x.1 + byteSize x.2 < y.1 := by
  induction cs using word_induction generalizing column with
  | blank cs hblank =>
    rw [words_of_isBlank hblank]
    exact .nil
  | word gap w rest hgap hrun ih =>
    rw [words_first hgap hrun, List.pairwise_cons]
    refine ⟨fun y hy => ?_, ih _⟩
    obtain ⟨before, after, rfl, hrun', hy⟩ := exists_run_of_mem_words hy
    have hroom := byteSize_pos (hrun.prepend hrun').1
    simp only [hy]
    omega

/-! ## Characters -/

/-- The character `c` starts at byte `offset` of a text. -/
def CharAt (cs : List Char) (offset : Nat) (c : Char) : Prop :=
  ∃ before after, cs = before ++ c :: after ∧ byteSize before = offset

theorem not_charAt_nil {offset : Nat} {c : Char} : ¬ CharAt [] offset c := by
  rintro ⟨before, after, h, -⟩
  exact List.append_ne_nil_of_right_ne_nil before (List.cons_ne_nil c after) h.symm

theorem charAt_cons_iff {d : Char} {cs : List Char} {offset : Nat} {c : Char} :
    CharAt (d :: cs) offset c ↔
      (offset = 0 ∧ c = d) ∨ ∃ n, offset = d.utf8Size + n ∧ CharAt cs n c := by
  constructor
  · rintro ⟨before, after, h, rfl⟩
    cases before with
    | nil =>
      cases h
      exact .inl ⟨rfl, rfl⟩
    | cons e before =>
      cases h
      exact .inr ⟨_, rfl, before, after, rfl, rfl⟩
  · rintro (⟨rfl, rfl⟩ | ⟨_, rfl, before, after, rfl, rfl⟩)
    · exact ⟨[], cs, rfl, rfl⟩
    · exact ⟨d :: before, after, rfl, byteSize_cons d before⟩

section CharAt

variable {cs : List Char} {m n : Nat} {c d : Char}

theorem CharAt.mem (h : CharAt cs n c) : c ∈ cs := by
  obtain ⟨before, after, rfl, -⟩ := h
  exact List.mem_append_right before List.mem_cons_self

theorem CharAt.append_left (h : CharAt cs n c) (front : List Char) :
    CharAt (front ++ cs) (byteSize front + n) c := by
  obtain ⟨before, after, rfl, rfl⟩ := h
  exact ⟨front ++ before, after, (List.append_assoc ..).symm, byteSize_append front before⟩

theorem CharAt.append_right (h : CharAt cs n c) (back : List Char) : CharAt (cs ++ back) n c := by
  obtain ⟨before, after, rfl, rfl⟩ := h
  exact ⟨before, after ++ back, List.append_assoc .., rfl⟩

theorem CharAt.mono {ds : List Char} (h : CharAt cs n c) (hstart : cs <+: ds) :
    CharAt ds n c := by
  obtain ⟨back, rfl⟩ := hstart
  exact h.append_right back

/-- A character ends where the next starts, or before. -/
theorem CharAt.add_le (hm : CharAt cs m c) (hn : CharAt cs n d) (h : m < n) :
    m + c.utf8Size ≤ n := by
  induction cs generalizing m n with
  | nil => exact absurd hm not_charAt_nil
  | cons e cs ih =>
    obtain ⟨rfl, rfl⟩ | ⟨m, rfl, hm'⟩ := charAt_cons_iff.mp hm
    · obtain ⟨rfl, -⟩ | ⟨n, rfl, -⟩ := charAt_cons_iff.mp hn
      · omega
      · omega
    · obtain ⟨rfl, -⟩ | ⟨n, rfl, hn'⟩ := charAt_cons_iff.mp hn
      · omega
      · have hle := ih hm' hn' (by omega)
        omega

theorem CharAt.eq (hc : CharAt cs n c) (hd : CharAt cs n d) : c = d := by
  induction cs generalizing n with
  | nil => exact absurd hc not_charAt_nil
  | cons e cs ih =>
    have he := e.utf8Size_pos
    obtain ⟨rfl, rfl⟩ | ⟨m, rfl, hc'⟩ := charAt_cons_iff.mp hc
    · obtain ⟨-, rfl⟩ | ⟨n, hn, -⟩ := charAt_cons_iff.mp hd
      · rfl
      · omega
    · obtain ⟨hn, -⟩ | ⟨n, hn, hd'⟩ := charAt_cons_iff.mp hd
      · omega
      · obtain rfl : m = n := by omega
        exact ih hc' hd'

/-- A byte belongs to one character only. -/
theorem CharAt.eq_of_le_of_lt (hc : CharAt cs m c) (hd : CharAt cs n d) (hle : n ≤ m)
    (hlt : m < n + d.utf8Size) : c = d := by
  obtain rfl | h := Nat.eq_or_lt_of_le hle
  · exact hc.eq hd
  · have hbeyond := hd.add_le hc h
    omega

/-- Every byte of a text belongs to a character. -/
theorem exists_charAt (h : n < byteSize cs) :
    ∃ m c, CharAt cs m c ∧ m ≤ n ∧ n < m + c.utf8Size := by
  induction cs generalizing n with
  | nil => cases h
  | cons e cs ih =>
    by_cases hn : n < e.utf8Size
    · exact ⟨0, e, ⟨[], cs, rfl, rfl⟩, Nat.zero_le n, by omega⟩
    · rw [byteSize_cons] at h
      obtain ⟨m, c, hc, hle, hlt⟩ := ih (n := n - e.utf8Size) (by omega)
      exact ⟨e.utf8Size + m, c, charAt_cons_iff.mpr (.inr ⟨m, rfl, hc⟩), by omega, by omega⟩

/-- Every byte of a text is inside a word, or belongs to a blank character. -/
theorem exists_word_or_blank (column : Nat) (h : n < byteSize cs) :
    (∃ x ∈ words column cs, x.1 ≤ column + n ∧ column + n < x.1 + byteSize x.2) ∨
      ∃ m c, CharAt cs m c ∧ isBlank c = true ∧ m ≤ n ∧ n < m + c.utf8Size := by
  induction cs using word_induction generalizing column n with
  | blank cs hblank =>
    obtain ⟨m, c, hc, hle, hlt⟩ := exists_charAt h
    exact .inr ⟨m, c, hc, hblank c hc.mem, hle, hlt⟩
  | word gap w rest hgap hrun ih =>
    rw [words_first hgap hrun]
    rw [byteSize_append, byteSize_append] at h
    by_cases hn : n < byteSize gap
    · obtain ⟨m, c, hc, hle, hlt⟩ := exists_charAt hn
      exact .inr ⟨m, c, (hc.append_right w).append_right rest, hgap c hc.mem, hle, hlt⟩
    by_cases hw : n < byteSize gap + byteSize w
    · refine .inl ⟨_, List.mem_cons_self, ?_, ?_⟩
      · omega
      · show column + n < column + byteSize gap + byteSize w
        omega
    · obtain ⟨k, rfl⟩ := Nat.exists_eq_add_of_le (Nat.le_of_not_lt hw)
      obtain ⟨x, hx, hle, hlt⟩ | ⟨m, c, hc, hblank, hle, hlt⟩ :=
        ih (column + byteSize gap + byteSize w) (n := k) (by omega)
      · exact .inl ⟨x, List.mem_cons_of_mem _ hx, by omega, by omega⟩
      · have hc := hc.append_left (gap ++ w)
        rw [byteSize_append] at hc
        exact .inr ⟨_, c, hc, hblank, by omega, by omega⟩

end CharAt

end CritterScript.Text
