import CritterScript.Proofs.Places
import Mathlib

/-!
# Spans and tokens

The span of an excerpt goes on to the next blank character or separator of its
line, whether that stands in the code of the line or in its comment. So it ends
with the token that it starts in, or inside it, but for one case: a comment mark
right behind a token with no separator left in it (`span_inside_iff`). There the
span goes on into the comment (`span_reaches_comment`).
-/

namespace CritterScript

/-- Byte `n` of a line is one of the token's. -/
def Token.Holds (t : Token) (n : Nat) : Prop :=
  t.place.column ≤ n ∧ n < t.stop

/-- Byte `n` of the joined lines is one of those that the excerpt marks. -/
def Excerpt.Marks (x : Excerpt) (n : Nat) : Prop :=
  x.diagnostic.offset ≤ n ∧ n < x.diagnostic.offset + x.diagnostic.length

/-- Byte `n` of the joined lines is one of those of a token of the excerpt's line. -/
def Excerpt.InToken (x : Excerpt) (t : Token) (n : Nat) : Prop :=
  Text.byteSize x.front + t.place.column ≤ n ∧ n < Text.byteSize x.front + t.stop

/-! ## Tokens cut in two -/

/-- A line with a token in it, and a cut that leaves some of the token behind it. -/
structure Cut (line : String) (t : Token) (before front rest tail : List Char) : Prop where
  line_eq : line.toList = before ++ front ++ (rest ++ tail)
  text_eq : t.text.toList = front ++ rest
  column_eq : t.place.column = Text.byteSize before
  ne_nil : rest ≠ []
  solid : ∀ c ∈ rest, Text.isBlank c = false
  next : ∀ c ∈ tail.head?, Text.isBlank c = true ∨ c = commentMark
  unmarked : commentMark ∉ before ++ front ++ rest

theorem exists_cut {line : String} {index : Nat} {t : Token} {front rest : List Char}
    (ht : t ∈ tokenize line index) (htext : t.text.toList = front ++ rest) (hne : rest ≠ []) :
    ∃ before tail, Cut line t before front rest tail := by
  obtain ⟨before, after, hcode, hrun, hplace⟩ := mem_tokenize_iff.mp ht
  obtain ⟨hmark, hline⟩ := isCode_codePart line.toList
  rw [htext] at hcode hrun
  have hsolid : ∀ c ∈ rest, Text.isBlank c = false :=
    fun c hc => hrun.solid c (List.mem_append_right front hc)
  have hunmarked : commentMark ∉ before ++ front ++ rest := by
    intro hmem
    rw [hcode, ← List.append_assoc before] at hmark
    exact hmark (List.mem_append_left after hmem)
  -- behind the token there is the rest of the code, and then the comment
  obtain hall | ⟨comment, hcomment⟩ := hline
  · refine ⟨before, after, ?_, htext, by rw [hplace], hne, hsolid,
      fun c hc => .inl (hrun.ends c hc), hunmarked⟩
    rw [← hall, hcode]
    simp only [List.append_assoc]
  · refine ⟨before, after ++ commentMark :: comment, ?_, htext, by rw [hplace], hne, hsolid, ?_,
      hunmarked⟩
    · rw [← hcomment, hcode]
      simp only [List.append_assoc, List.cons_append, List.nil_append]
    · intro c hc
      cases after with
      | nil => exact .inr (Option.some.inj hc).symm
      | cons d after => exact .inl (hrun.ends c hc)

section Cut

variable {line : String} {t : Token} {before front rest tail : List Char}

theorem Cut.stop_eq (h : Cut line t before front rest tail) :
    t.stop = Text.byteSize (before ++ front) + Text.byteSize rest := by
  rw [Token.stop_eq, h.column_eq, h.text_eq, Text.byteSize_append, Text.byteSize_append,
    Nat.add_assoc]

theorem Cut.stop_eq_append (h : Cut line t before front rest tail) :
    t.stop = Text.byteSize (before ++ front ++ rest) := by
  rw [h.stop_eq, Text.byteSize_append (before ++ front)]

/-- The comment mark right behind a token. -/
theorem Cut.mark_iff (h : Cut line t before front rest tail) :
    Text.CharAt line.toList t.stop commentMark ↔ tail.head? = some commentMark := by
  have hline : line.toList = before ++ front ++ rest ++ tail := by
    rw [h.line_eq, List.append_assoc (before ++ front)]
  cases tail with
  | nil =>
    refine iff_of_false ?_ (fun hmark => by cases hmark)
    rintro ⟨front', back, hcut, hsize⟩
    rw [hline, List.append_nil] at hcut
    have hlen := h.stop_eq_append
    rw [hcut, Text.byteSize_append, Text.byteSize_cons] at hlen
    have hpos := commentMark.utf8Size_pos
    omega
  | cons c tail =>
    have hc : Text.CharAt line.toList t.stop c :=
      ⟨before ++ front ++ rest, tail, hline, h.stop_eq_append.symm⟩
    rw [List.head?_cons, Option.some_inj]
    constructor
    · exact fun hmark => hc.eq hmark
    · rintro rfl
      exact hc

/-- The separators of a token from the cut on. -/
theorem Cut.separator_iff (h : Cut line t before front rest tail) :
    (∃ n, Text.byteSize (before ++ front) ≤ n ∧ n < t.stop ∧
      Text.CharAt line.toList n itemSeparator) ↔ itemSeparator ∈ rest := by
  have hchar : ∀ {n c}, Text.CharAt rest n c →
      Text.CharAt line.toList (Text.byteSize (before ++ front) + n) c := by
    intro n c hc
    rw [h.line_eq]
    exact (hc.append_right tail).append_left (before ++ front)
  have hstop := h.stop_eq
  constructor
  · rintro ⟨n, hle, hlt, hsep⟩
    obtain ⟨m, c, hc, hmn, hnm⟩ :=
      @Text.exists_charAt rest (n - Text.byteSize (before ++ front)) (by omega)
    obtain rfl : itemSeparator = c := hsep.eq_of_le_of_lt (hchar hc) (by omega) (by omega)
    exact hc.mem
  · intro hmem
    obtain ⟨xs, ys, hrest⟩ := List.append_of_mem hmem
    have hat := hchar ⟨xs, ys, hrest, rfl⟩
    refine ⟨_, Nat.le_add_right _ _, ?_, hat⟩
    have hsize := congrArg Text.byteSize hrest
    rw [Text.byteSize_append, Text.byteSize_cons] at hsize
    have hpos := itemSeparator.utf8Size_pos
    omega

/-- The code of a line ends with a token that has a comment mark right behind it. -/
theorem Cut.codePart_eq (h : Cut line t before front rest tail)
    (hmark : tail.head? = some commentMark) :
    Text.byteSize (codePart line.toList) = t.stop := by
  obtain ⟨comment, rfl⟩ := List.head?_eq_some_iff.mp hmark
  have hcode : IsCode line.toList (before ++ front ++ rest) := by
    refine ⟨h.unmarked, .inr ⟨comment, ?_⟩⟩
    rw [h.line_eq]
    simp only [List.append_assoc, List.cons_append, List.nil_append]
  rw [hcode.eq, h.stop_eq_append]

end Cut

/-! ## Where spans end -/

theorem spanText_append_of_mem {rest : List Char} (h : itemSeparator ∈ rest) (tail : List Char) :
    spanText (rest ++ tail) <+: rest := by
  obtain ⟨c, cs, rfl⟩ := List.exists_cons_of_ne_nil (List.ne_nil_of_mem h)
  rw [List.cons_append, spanText]
  by_cases hc : c = itemSeparator
  · rw [if_pos hc]
    exact ⟨cs, rfl⟩
  · have hmem : itemSeparator ∈ cs := (List.mem_cons.mp h).resolve_left (Ne.symm hc)
    -- the separator is in the way, so the characters taken are not all of `cs`
    have hshort : ¬ (cs.takeWhile fun d => !Text.isBlank d && d != itemSeparator).length =
        cs.length := by
      intro hlen
      have hall := List.takeWhile_eq_self_iff.mp ((List.takeWhile_prefix _).eq_of_length hlen)
      exact absurd (hall itemSeparator hmem) (by decide)
    rw [if_neg hc, List.takeWhile_append, if_neg hshort]
    exact List.cons_prefix_cons.mpr ⟨rfl, List.takeWhile_prefix _⟩

theorem spanText_append_of_notMem {rest : List Char} (hne : rest ≠ [])
    (hsep : itemSeparator ∉ rest) (hsolid : ∀ c ∈ rest, Text.isBlank c = false)
    (tail : List Char) :
    spanText (rest ++ tail) =
      rest ++ tail.takeWhile fun d => !Text.isBlank d && d != itemSeparator := by
  have hother : ∀ c ∈ rest, c ≠ itemSeparator := fun c hc heq => hsep (heq ▸ hc)
  have hmore : ∀ c ∈ rest, (!Text.isBlank c && c != itemSeparator) = true :=
    fun c hc => spans_of_ne (hsolid c hc) (hother c hc)
  obtain ⟨c, cs, rfl⟩ := List.exists_cons_of_ne_nil hne
  have hc := hother c List.mem_cons_self
  rw [List.cons_append, spanText, if_neg hc,
    List.takeWhile_append_of_pos fun d hd => hmore d (List.mem_cons_of_mem c hd)]
  rfl

/-- A span that starts at a cut ends with the token or before, unless a comment
mark is what comes next. -/
theorem Cut.span_le_iff {line : String} {t : Token} {before front rest tail : List Char}
    (h : Cut line t before front rest tail) :
    Text.byteSize (spanText (rest ++ tail)) ≤ Text.byteSize rest ↔
      itemSeparator ∈ rest ∨ ¬ tail.head? = some commentMark := by
  by_cases hsep : itemSeparator ∈ rest
  · refine iff_of_true ?_ (.inl hsep)
    obtain ⟨behind, hrest⟩ := spanText_append_of_mem hsep tail
    have hsize := congrArg Text.byteSize hrest
    rw [Text.byteSize_append] at hsize
    omega
  · rw [spanText_append_of_notMem h.ne_nil hsep h.solid, Text.byteSize_append]
    cases tail with
    | nil => simp
    | cons c tail =>
      obtain hblank | rfl := h.next c rfl
      · have hc : c ≠ commentMark := by
          rintro rfl
          exact absurd hblank (by decide)
        simp [hblank, hc]
      · have hpos := commentMark.utf8Size_pos
        rw [List.takeWhile_cons, if_pos (spans_of_ne (by decide) (by decide)), Text.byteSize_cons]
        simp only [hsep, List.head?_cons, not_true, or_false, iff_false]
        omega

section Excerpt

variable {x : Excerpt} {t : Token} {before front rest tail : List Char}

theorem Cut.length_eq (h : Cut x.sourceLine t before front rest tail)
    (hcolumn : Text.byteSize (before ++ front) = x.place.column) :
    x.diagnostic.length = Text.byteSize (spanText (rest ++ tail)) :=
  Excerpt.spanLength_eq h.line_eq hcolumn h.ne_nil h.solid

theorem Cut.holds (h : Cut x.sourceLine t before front rest tail)
    (hcolumn : Text.byteSize (before ++ front) = x.place.column) : t.Holds x.place.column := by
  have hpos := Text.byteSize_pos h.ne_nil
  have hstop := h.stop_eq
  have hstart := h.column_eq
  rw [Text.byteSize_append] at hcolumn hstop
  constructor <;> omega

/-- The bytes that are marked are all in the token if the last of them is. -/
theorem Cut.inside_iff (h : Cut x.sourceLine t before front rest tail)
    (hcolumn : Text.byteSize (before ++ front) = x.place.column) :
    (∀ n, x.Marks n → x.InToken t n) ↔
      (∃ n, x.place.column ≤ n ∧ n < t.stop ∧
        Text.CharAt x.sourceLine.toList n itemSeparator) ∨
      ¬ Text.CharAt x.sourceLine.toList t.stop commentMark := by
  rw [← hcolumn, h.separator_iff, h.mark_iff, ← h.span_le_iff]
  have hlength := h.length_eq hcolumn
  have hoffset := x.diagnostic_offset
  have hstop := h.stop_eq
  have hstart := (h.holds hcolumn).1
  have hpos : 0 < Text.byteSize (spanText (rest ++ tail)) :=
    Text.byteSize_pos (spanText_ne_nil (List.append_ne_nil_of_left_ne_nil h.ne_nil tail))
  constructor
  · intro hinside
    have hlast := (hinside (x.diagnostic.offset + x.diagnostic.length - 1)
      ⟨by omega, by omega⟩).2
    omega
  · rintro hle n ⟨hn, hlt⟩
    constructor <;> omega

end Excerpt

/-! ## Spans of mistakes -/

/-- No two tokens of a line hold the same byte. -/
theorem eq_of_holds {line : String} {index n : Nat} {t u : Token}
    (ht : t ∈ tokenize line index) (hu : u ∈ tokenize line index) (htn : t.Holds n)
    (hun : u.Holds n) : t = u := by
  by_contra hne
  obtain ⟨htl, htr⟩ := htn
  obtain ⟨hul, hur⟩ := hun
  obtain hapart | hapart := (tiling_tokenize line index).apart ht hu hne
  · have hlt := hapart.lt
    omega
  · have hlt := hapart.lt
    omega

/-- The span of a mistake starts in a token. It has no byte outside of that token,
unless there is no separator left in the token and a comment mark right behind it.
A byte that it has outside of the token is one of the comment. -/
theorem span_inside_iff {source : String} {e : SyntaxError}
    (h : Program.read source = .error e) :
    let x := e.excerpt (sourceLines source)
    ∃ t ∈ tokenize x.sourceLine x.place.line, t.Holds x.place.column ∧
      (∀ u ∈ tokenize x.sourceLine x.place.line, u.Holds x.place.column → u = t) ∧
      ((∀ n, x.Marks n → x.InToken t n) ↔
        (∃ n, x.place.column ≤ n ∧ n < t.stop ∧
          Text.CharAt x.sourceLine.toList n itemSeparator) ∨
        ¬ Text.CharAt x.sourceLine.toList t.stop commentMark) ∧
      ∀ n, x.Marks n →
        x.InToken t n ∨ Text.byteSize (x.front ++ codePart x.sourceLine.toList) ≤ n := by
  intro x
  obtain ⟨-, piece, habout⟩ := exists_about_of_read h
  obtain ⟨t, ht, front, after, htext, hplace, -⟩ := habout.exists_token
  rw [List.append_assoc] at htext
  obtain ⟨before, tail, hcut⟩ :=
    exists_cut ht htext (List.append_ne_nil_of_left_ne_nil habout.ne_nil after)
  have hcolumn : Text.byteSize (before ++ front) = x.place.column := by
    rw [Text.byteSize_append, ← hcut.column_eq]
    exact (congrArg Place.column hplace).symm
  have hholds := hcut.holds hcolumn
  refine ⟨t, ht, hholds, fun u hu hun => eq_of_holds hu ht hun hholds, hcut.inside_iff hcolumn,
    fun n hn => ?_⟩
  by_cases hmark : tail.head? = some commentMark
  · have hcode := hcut.codePart_eq hmark
    have hoffset := x.diagnostic_offset
    rw [Text.byteSize_append, hcode]
    obtain ⟨hle, -⟩ := hn
    have hstart : t.place.column ≤ x.place.column := hholds.1
    by_cases hlt : n < Text.byteSize x.front + t.stop
    · exact .inl ⟨by omega, hlt⟩
    · exact .inr (Nat.le_of_not_lt hlt)
  · refine .inl ((hcut.inside_iff hcolumn).mpr (.inr ?_) n hn)
    rwa [hcut.mark_iff]

theorem span_inside_iff_item :
    let source := " mov é,y;z"
    let e : SyntaxError := ⟨.badItem "é", ⟨0, 5⟩⟩
    let x := e.excerpt (sourceLines source)
    let t : Token := ⟨"é,y", ⟨0, 5⟩⟩
    Program.read source = .error e ∧ t ∈ tokenize x.sourceLine 0 ∧ t.Holds x.place.column ∧
      Text.CharAt x.sourceLine.toList t.stop commentMark ∧ ∀ n, x.Marks n → x.InToken t n := by
  intro source e x t
  have hread : Program.read source = .error e := by cbv
  have hline : x.sourceLine.toList = " mov é,y".toList ++ commentMark :: ['z'] := by cbv
  have htokens : tokenize x.sourceLine 0 = [⟨"mov", ⟨0, 1⟩⟩, t] := by cbv
  have ht : t ∈ tokenize x.sourceLine 0 := by
    rw [htokens]
    exact List.mem_cons_of_mem _ List.mem_cons_self
  have hholds : t.Holds x.place.column := ⟨by decide, by decide⟩
  obtain ⟨u, -, -, hunique, hinside, -⟩ := span_inside_iff hread
  obtain rfl := hunique t ht hholds
  have hsep : Text.CharAt x.sourceLine.toList 7 itemSeparator :=
    ⟨" mov é".toList, "y;z".toList, hline, by decide⟩
  exact ⟨hread, ht, hholds, ⟨_, _, hline, by decide⟩,
    hinside.mpr (.inl ⟨7, by decide, by decide, hsep⟩)⟩

/-- The span of the only token in front of this comment has two bytes of the comment
as well. -/
theorem span_reaches_comment :
    let source := "mov;1 $a"
    let e : SyntaxError := ⟨.wrongCount .mov 0, ⟨0, 0⟩⟩
    let x := e.excerpt (sourceLines source)
    Program.read source = .error e ∧ tokenize x.sourceLine 0 = [⟨"mov", ⟨0, 0⟩⟩] ∧
      x.diagnostic.length = 5 ∧
      ¬ ∃ t ∈ tokenize x.sourceLine 0, t.Holds x.place.column ∧
        ∀ n, x.Marks n → x.InToken t n := by
  intro source e x
  have hread : Program.read source = .error e := by cbv
  have htokens : tokenize x.sourceLine 0 = [⟨"mov", ⟨0, 0⟩⟩] := by cbv
  have hlength : x.diagnostic.length = 5 := by decide +kernel
  refine ⟨hread, htokens, hlength, ?_⟩
  rintro ⟨t, ht, -, hinside⟩
  rw [htokens, List.mem_singleton] at ht
  subst ht
  exact absurd (hinside 3 ⟨by decide +kernel, by decide +kernel⟩).2 (by decide +kernel)

end CritterScript
