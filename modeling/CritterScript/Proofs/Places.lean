import CritterScript.Proofs.Literals
import CritterScript.Proofs.Tokens
import Mathlib

/-!
# The places of mistakes

A mistake in a script comes with a place, and an excerpt turns the place into
bytes of the joined lines. `Mistake.About` says which token of a line a mistake is
about, or which item of a token, and where that starts. Every mistake that is
found is reported at the place of what it is about (`SpoilsLine.about`).

`Excerpt.Shows` says that an excerpt points at some text: its line is one of the
lines, the text stands at its column, and its span is a part of that line and of
nothing else, made of whole characters. `mistake_shown` says that the excerpt of
a mistake shows what the mistake is about.
-/

namespace CritterScript

/-! ## Parts of a text -/

namespace Text

/-- A part of a text stands at byte `n` of it. -/
def StandsAt (cs : List Char) (n : Nat) (part : List Char) : Prop :=
  ∃ before after, cs = before ++ part ++ after ∧ byteSize before = n

/-- Byte `n` of a text is where a character starts, or the end of the text. -/
def Boundary (cs : List Char) (n : Nat) : Prop :=
  ∃ before after, cs = before ++ after ∧ byteSize before = n

section StandsAt

variable {cs part mid : List Char} {m n : Nat}

theorem StandsAt.start (h : StandsAt cs n part) : Boundary cs n := by
  obtain ⟨before, after, rfl, hn⟩ := h
  exact ⟨before, part ++ after, List.append_assoc .., hn⟩

theorem StandsAt.stop (h : StandsAt cs n part) : Boundary cs (n + byteSize part) := by
  obtain ⟨before, after, rfl, rfl⟩ := h
  exact ⟨before ++ part, after, rfl, byteSize_append before part⟩

theorem StandsAt.add_le (h : StandsAt cs n part) : n + byteSize part ≤ byteSize cs := by
  obtain ⟨before, after, rfl, rfl⟩ := h
  simp only [byteSize_append]
  omega

theorem StandsAt.trans (h : StandsAt cs m mid) (h' : StandsAt mid n part) :
    StandsAt cs (m + n) part := by
  obtain ⟨before, after, rfl, rfl⟩ := h
  obtain ⟨before', after', rfl, rfl⟩ := h'
  refine ⟨before ++ before', after' ++ after, ?_, byteSize_append before before'⟩
  simp only [List.append_assoc]

end StandsAt

theorem dropBytes?_append (before rest : List Char) :
    dropBytes? (byteSize before) (before ++ rest) = some rest := by
  induction before with
  | nil => cases rest <;> rfl
  | cons c before ih =>
    obtain ⟨n, hn⟩ := Nat.exists_eq_add_of_lt c.utf8Size_pos
    have hsize : byteSize (c :: before) = n + byteSize before + 1 := by
      rw [byteSize_cons, hn]
      omega
    rw [hsize, List.cons_append, dropBytes?, if_pos (by omega),
      show n + byteSize before + 1 - c.utf8Size = byteSize before by omega, ih]

/-- A part of a text between two cuts has none of the characters it is cut at. -/
theorem notMem_of_mem_splitOn {a : Char} {cs part : List Char} (h : part ∈ cs.splitOn a) :
    a ∉ part := by
  induction cs generalizing part with
  | nil =>
    rw [List.splitOn_nil, List.mem_singleton] at h
    rw [h]
    exact List.not_mem_nil
  | cons c cs ih =>
    rw [List.splitOn_cons_eq_if_modifyHead] at h
    by_cases hc : (c == a) = true
    · rw [if_pos hc] at h
      obtain _ | ⟨_, h⟩ := h
      · exact List.not_mem_nil
      · exact ih h
    · rw [if_neg hc] at h
      cases hparts : cs.splitOn a with
      | nil => exact absurd hparts (List.splitOn_ne_nil _ _)
      | cons first parts =>
        rw [hparts] at h ih
        obtain _ | ⟨_, h⟩ := h
        · rw [List.mem_cons, not_or]
          exact ⟨fun hac => hc (beq_iff_eq.mpr hac.symm), ih List.mem_cons_self⟩
        · exact ih (List.mem_cons_of_mem first h)

end Text

/-! ## What a mistake is about -/

/-- The middle of `before ++ item ++ after` is a whole item that is not empty:
there is no separator in it, and one on either side unless the text ends there. -/
structure WholeItem (before item after : List Char) : Prop where
  ne_nil : item ≠ []
  solid : itemSeparator ∉ item
  starts : ∀ c ∈ before.getLast?, c = itemSeparator
  ends : ∀ c ∈ after.head?, c = itemSeparator

/-- What a mistake in a line with these tokens is about, and the place where that
starts: a token, or an item of one. -/
inductive Mistake.About (tokens : List Token) : Mistake → Place → List Char → Prop
  | codeAfterLabel {t : Token} :
    tokens[1]? = some t → About tokens .codeAfterLabel t.place t.text.toList
  | badInstruction {t : Token} :
    tokens[0]? = some t → About tokens (.badInstruction t.text) t.place t.text.toList
  | badLiteral {t : Token} :
    t ∈ tokens.tail → About tokens (.badLiteral t.text) t.place t.text.toList
  | badItem {t : Token} {before item after : List Char} :
    t ∈ tokens.tail → t.text.toList = before ++ item ++ after → WholeItem before item after →
    About tokens (.badItem (String.ofList item)) (t.place.shift (Text.byteSize before)) item
  | wrongCount {t : Token} {op : Opcode} {count : Nat} :
    tokens[0]? = some t → EqIgnoringCase t.text op.name →
    About tokens (.wrongCount op count) t.place t.text.toList
  | wrongKind {head t : Token} {op : Opcode} {position : Nat} {slot : Slot} {kind : Kind} :
    tokens[0]? = some head → EqIgnoringCase head.text op.name → tokens[position]? = some t →
    About tokens (.wrongKind op position slot kind) t.place t.text.toList

/-- The text that the message of a mistake quotes. -/
def Mistake.quoted? : Mistake → Option String
  | badInstruction word => some word
  | badLiteral text => some text
  | badItem text => some text
  | _ => none

section About

variable {tokens : List Token} {m : Mistake} {place : Place} {piece : List Char}

/-- A message quotes what its mistake is about. -/
theorem Mistake.About.quoted (h : m.About tokens place piece) :
    ∀ s ∈ m.quoted?, s.toList = piece ∧ ∃ words, m.message = words ++ "'" ++ s ++ "'" := by
  intro s hs
  cases h with
  | badInstruction => cases hs; exact ⟨rfl, "Bad instruction ", rfl⟩
  | badLiteral => cases hs; exact ⟨rfl, "Unexpected literal ", rfl⟩
  | badItem => cases hs; exact ⟨String.toList_ofList, "Unexpected array element ", rfl⟩
  | codeAfterLabel => cases hs
  | wrongCount => cases hs
  | wrongKind => cases hs

/-- A mistake is about a whole token, or a whole item of one. -/
theorem Mistake.About.exists_token (h : m.About tokens place piece) :
    ∃ t ∈ tokens, ∃ before after, t.text.toList = before ++ piece ++ after ∧
      place = t.place.shift (Text.byteSize before) ∧
      (before ++ after = [] ∨ WholeItem before piece after) := by
  have hwhole : ∀ t ∈ tokens, ∃ u ∈ tokens, ∃ before after,
      u.text.toList = before ++ t.text.toList ++ after ∧
        t.place = u.place.shift (Text.byteSize before) ∧
        (before ++ after = [] ∨ WholeItem before t.text.toList after) :=
    fun t ht => ⟨t, ht, [], [], (List.append_nil _).symm, rfl, .inl rfl⟩
  cases h with
  | codeAfterLabel ht => exact hwhole _ (List.mem_of_getElem? ht)
  | badInstruction ht => exact hwhole _ (List.mem_of_getElem? ht)
  | badLiteral ht => exact hwhole _ (List.mem_of_mem_tail ht)
  | badItem ht htext hitem => exact ⟨_, List.mem_of_mem_tail ht, _, _, htext, rfl, .inr hitem⟩
  | wrongCount ht => exact hwhole _ (List.mem_of_getElem? ht)
  | wrongKind _ _ ht => exact hwhole _ (List.mem_of_getElem? ht)

/-- An item that is not empty is a whole item of its token. -/
theorem wholeItem_of_items {t : Token} {before : List (List Char)} {item : List Char}
    (h : before ++ [item] <+: t.items) (hne : item ≠ []) :
    ∃ after, t.text.toList = before.flatMap (· ++ [itemSeparator]) ++ item ++ after ∧
      WholeItem (before.flatMap (· ++ [itemSeparator])) item after := by
  obtain ⟨rest, hitems⟩ := h
  rw [List.append_assoc] at hitems
  have hmem : item ∈ t.items := by
    rw [← hitems]
    exact List.mem_append_right before List.mem_cons_self
  refine ⟨_, toList_text_of_items hitems.symm, hne, Text.notMem_of_mem_splitOn hmem, ?_, ?_⟩
  · intro c hc
    obtain rfl | ⟨front, last, rfl⟩ := List.eq_nil_or_concat' before
    · cases hc
    · have hlast : (front ++ [last]).flatMap (· ++ [itemSeparator]) =
          front.flatMap (· ++ [itemSeparator]) ++ last ++ [itemSeparator] := by simp
      rw [hlast, List.getLast?_concat] at hc
      exact (Option.some.inj hc).symm
  · intro c hc
    cases rest with
    | nil => cases hc
    | cons next rest => exact (Option.some.inj hc).symm

theorem SpoilsOperand.about {t : Token} {e : SyntaxError} (h : SpoilsOperand t e)
    (ht : t ∈ tokens.tail) : ∃ piece, e.mistake.About tokens e.place piece := by
  cases h with
  | literal => exact ⟨_, .badLiteral ht⟩
  | item _ _ _ hfirst =>
    obtain ⟨after, htext, hitem⟩ :=
      wholeItem_of_items hfirst.front fun hnil => hfirst.failed (.inl hnil)
    exact ⟨_, .badItem ht htext hitem⟩

/-- A mistake is reported at the place of what it is about. -/
theorem SpoilsLine.about {e : SyntaxError} (h : SpoilsLine tokens e) :
    ∃ piece, e.mistake.About tokens e.place piece := by
  cases h with
  | codeAfterLabel => exact ⟨_, .codeAfterLabel rfl⟩
  | badInstruction => exact ⟨_, .badInstruction rfl⟩
  | badOperand _ _ hfirst hspoils => exact hspoils.about hfirst.mem
  | wrongCount _ hop => exact ⟨_, .wrongCount rfl hop⟩
  | wrongKind _ hop _ _ hfirst =>
    have hzip := (List.getElem?_zip_eq_some.mp hfirst.getElem?.1).2
    exact ⟨_, .wrongKind rfl hop (List.getElem?_zip_eq_some.mp hzip).1⟩

end About

/-! ## Lines and spans -/

/-- What a span covers of the text from its start on: all that stands in front of
a blank or a separator, and a separator if it starts with one. -/
def spanText : List Char → List Char
  | [] => []
  | c :: cs =>
    if c = itemSeparator then [c]
    else c :: cs.takeWhile fun d => !Text.isBlank d && d != itemSeparator

/-- A span goes on past a character that is neither blank nor a separator. -/
theorem spans_of_ne {c : Char} (hblank : Text.isBlank c = false) (hc : c ≠ itemSeparator) :
    (!Text.isBlank c && c != itemSeparator) = true := by
  rw [hblank, bne_iff_ne.mpr hc]
  rfl

theorem spanText_prefix (cs : List Char) : spanText cs <+: cs := by
  cases cs with
  | nil => exact List.prefix_rfl
  | cons c cs =>
    rw [spanText]
    by_cases hc : c = itemSeparator
    · rw [if_pos hc]
      exact ⟨cs, rfl⟩
    · rw [if_neg hc]
      exact List.cons_prefix_cons.mpr ⟨rfl, List.takeWhile_prefix _⟩

theorem spanText_ne_nil {cs : List Char} (h : cs ≠ []) : spanText cs ≠ [] := by
  obtain ⟨c, cs, rfl⟩ := List.exists_cons_of_ne_nil h
  rw [spanText]
  by_cases hc : c = itemSeparator
  · rw [if_pos hc]
    exact List.cons_ne_nil _ _
  · rw [if_neg hc]
    exact List.cons_ne_nil _ _

namespace Excerpt

variable (x : Excerpt)

/-- The lines, joined by line feeds. -/
def joined : List Char :=
  (String.intercalate "\n" x.lines).toList

/-- The lines in front of the excerpt's own, each with its line feed. -/
def front : List Char :=
  (x.lines.take x.place.line).flatMap (·.toList ++ ['\n'])

/-- The lines behind the excerpt's own, each with the line feed in front of it. -/
def back : List Char :=
  (x.lines.drop (x.place.line + 1)).flatMap ('\n' :: ·.toList)

/-- The excerpt points at a piece of one of its lines, and its span is a part of
that line. -/
structure Shows (piece : List Char) : Prop where
  line : x.lines[x.place.line]? = some x.sourceLine
  single : '\n' ∉ x.sourceLine.toList
  piece : Text.StandsAt x.sourceLine.toList x.place.column piece
  joined : x.joined = x.front ++ x.sourceLine.toList ++ x.back
  offset : x.offset = Text.byteSize x.front + x.place.column
  span : x.diagnostic.offset = x.offset
  length : 1 ≤ x.diagnostic.length
  inside : x.diagnostic.offset + x.diagnostic.length ≤
    Text.byteSize (x.front ++ x.sourceLine.toList)
  starts : Text.Boundary x.joined x.diagnostic.offset
  ends : Text.Boundary x.joined (x.diagnostic.offset + x.diagnostic.length)

theorem offset_eq : x.offset = Text.byteSize x.front + x.place.column := by
  have hlines : ∀ lines : List String,
      lines.foldr (fun line n => Text.byteSize line.toList + 1 + n) 0 =
        Text.byteSize (lines.flatMap (·.toList ++ ['\n'])) := by
    intro lines
    induction lines with
    | nil => rfl
    | cons line lines ih =>
      rw [List.foldr_cons, ih, List.flatMap_cons, Text.byteSize_append, Text.byteSize_append]
      rfl
  rw [offset, hlines, front]

theorem diagnostic_offset : x.diagnostic.offset = Text.byteSize x.front + x.place.column :=
  x.offset_eq

variable {x}

theorem joined_eq (h : x.lines[x.place.line]? = some x.sourceLine) :
    x.joined = x.front ++ x.sourceLine.toList ++ x.back := by
  have hlines : x.lines =
      x.lines.take x.place.line ++ x.sourceLine :: x.lines.drop (x.place.line + 1) := by
    obtain ⟨hlt, hget⟩ := List.getElem?_eq_some_iff.mp h
    conv_lhs => rw [← List.take_append_drop x.place.line x.lines,
      List.drop_eq_getElem_cons hlt, hget]
  have hfeed : "\n".toList = ['\n'] := rfl
  rw [joined, String.toList_intercalate, hfeed]
  conv_lhs => rw [hlines, List.map_append, List.map_cons, intercalate_append_cons]
  rw [List.flatMap_map, List.flatMap_map]
  rfl

/-- The length of a span that starts with characters that are not blank. -/
theorem spanLength_eq {before piece after : List Char}
    (hline : x.sourceLine.toList = before ++ (piece ++ after))
    (hcolumn : Text.byteSize before = x.place.column) (hne : piece ≠ [])
    (hsolid : ∀ c ∈ piece, Text.isBlank c = false) :
    x.spanLength = Text.byteSize (spanText (piece ++ after)) := by
  obtain ⟨c, cs, rfl⟩ := List.exists_cons_of_ne_nil hne
  have hblank := hsolid c List.mem_cons_self
  have hpos := c.utf8Size_pos
  rw [spanLength, hline, ← hcolumn, Text.dropBytes?_append]
  dsimp only
  rw [List.cons_append, spanText]
  by_cases hc : c = itemSeparator
  · subst hc
    rfl
  · rw [if_neg hc, List.takeWhile_cons, if_pos (spans_of_ne hblank hc), Text.byteSize_cons]
    omega

/-- An excerpt shows a piece that stands at its place, unless the piece starts
with something blank. -/
theorem shows_of_standsAt {piece : List Char}
    (hline : x.lines[x.place.line]? = some x.sourceLine) (hsingle : '\n' ∉ x.sourceLine.toList)
    (hpiece : Text.StandsAt x.sourceLine.toList x.place.column piece) (hne : piece ≠ [])
    (hsolid : ∀ c ∈ piece, Text.isBlank c = false) : x.Shows piece := by
  obtain ⟨before, after, htext, hcolumn⟩ := hpiece
  have hlength : x.diagnostic.length = Text.byteSize (spanText (piece ++ after)) :=
    spanLength_eq (by rw [htext, List.append_assoc]) hcolumn hne hsolid
  have hspan : Text.StandsAt x.sourceLine.toList x.place.column (spanText (piece ++ after)) := by
    obtain ⟨behind, hbehind⟩ := spanText_prefix (piece ++ after)
    refine ⟨before, behind, ?_, hcolumn⟩
    rw [List.append_assoc, hbehind, htext, List.append_assoc]
  have hjoined : Text.StandsAt x.joined x.diagnostic.offset (spanText (piece ++ after)) := by
    have hat : Text.StandsAt x.joined (Text.byteSize x.front) x.sourceLine.toList :=
      ⟨x.front, x.back, joined_eq hline, rfl⟩
    rw [x.diagnostic_offset]
    exact hat.trans hspan
  refine ⟨hline, hsingle, ⟨before, after, htext, hcolumn⟩, joined_eq hline, x.offset_eq, rfl, ?_,
    ?_, hjoined.start, ?_⟩
  · rw [hlength]
    exact Text.byteSize_pos (spanText_ne_nil (List.append_ne_nil_of_left_ne_nil hne after))
  · have hle := hspan.add_le
    rw [hlength, x.diagnostic_offset, Text.byteSize_append]
    omega
  · rw [hlength]
    exact hjoined.stop

end Excerpt

/-! ## Mistakes in a script -/

theorem notMem_of_mem_sourceLines {source line : String} (h : line ∈ sourceLines source) :
    '\n' ∉ line.toList := by
  obtain ⟨part, hpart, rfl⟩ := List.mem_map.mp h
  rw [String.toList_ofList, List.mem_reverse]
  intro hmem
  have hsub := (List.dropWhile_sublist (· == '\r')).subset hmem
  exact Text.notMem_of_mem_splitOn hpart (List.mem_reverse.mp hsub)

/-- A token stands in its line at its column. -/
theorem standsAt_of_mem_tokenize {line : String} {index : Nat} {t : Token}
    (h : t ∈ tokenize line index) :
    Text.StandsAt line.toList t.place.column t.text.toList := by
  obtain ⟨before, after, hcode, -, hplace⟩ := mem_tokenize_iff.mp h
  obtain ⟨comment, hline⟩ := (isCode_codePart line.toList).isPrefix
  refine ⟨before, after ++ comment, ?_, ?_⟩
  · rw [← hline, hcode, List.append_assoc]
  · rw [hplace]

section Line

variable {line : String} {index : Nat} {m : Mistake} {place : Place} {piece : List Char}

/-- What a mistake is about stands in its line at its column. -/
theorem Mistake.About.standsAt (h : m.About (tokenize line index) place piece) :
    Text.StandsAt line.toList place.column piece := by
  obtain ⟨t, ht, before, after, htext, rfl, -⟩ := h.exists_token
  exact (standsAt_of_mem_tokenize ht).trans ⟨before, after, htext, rfl⟩

theorem Mistake.About.ne_nil (h : m.About (tokenize line index) place piece) : piece ≠ [] := by
  obtain ⟨t, ht, before, after, htext, -, hends | hitem⟩ := h.exists_token
  · obtain ⟨rfl, rfl⟩ := List.append_eq_nil_iff.mp hends
    rw [List.nil_append, List.append_nil] at htext
    rw [← htext, Ne, String.toList_eq_nil_iff]
    exact (plain_of_mem_tokenize ht).1
  · exact hitem.ne_nil

theorem Mistake.About.solid (h : m.About (tokenize line index) place piece) :
    ∀ c ∈ piece, Text.isBlank c = false := by
  intro c hc
  obtain ⟨t, ht, before, after, htext, -⟩ := h.exists_token
  have hmem : c ∈ t.text.toList := by
    rw [htext]
    exact List.mem_append_left after (List.mem_append_right before hc)
  exact (isPlain_iff.mp ((plain_of_mem_tokenize ht).2 c hmem)).1

end Line

/-- The line of the excerpt of a mistake, and what the mistake is about. -/
theorem exists_about_of_read {source : String} {e : SyntaxError}
    (h : Program.read source = .error e) :
    (sourceLines source)[e.place.line]? = some (e.excerpt (sourceLines source)).sourceLine ∧
      ∃ piece, e.mistake.About
        (tokenize (e.excerpt (sourceLines source)).sourceLine e.place.line) e.place piece := by
  obtain ⟨text, htext, hspoils, -⟩ := spoilsLine_of_read h
  have hline : (e.excerpt (sourceLines source)).sourceLine = text := by
    rw [Excerpt.sourceLine]
    show ((sourceLines source)[e.place.line]?).getD "" = text
    rw [htext, Option.getD_some]
  rw [hline]
  exact ⟨htext, hspoils.about⟩

/-- A script that cannot be read is shown where the mistake is: the excerpt points
at the token or the item that the mistake is about, which is what the message
quotes if it quotes anything, and its span is made of whole characters of that
line. -/
theorem mistake_shown {source : String} {e : SyntaxError} (h : Program.read source = .error e) :
    let x := e.excerpt (sourceLines source)
    ∃ piece, e.mistake.About (tokenize x.sourceLine x.place.line) x.place piece ∧
      (∀ s ∈ e.mistake.quoted?, s.toList = piece ∧
        ∃ words, x.message = words ++ "'" ++ s ++ "'") ∧
      x.Shows piece := by
  intro x
  obtain ⟨hline, piece, habout⟩ := exists_about_of_read h
  have hsingle : '\n' ∉ x.sourceLine.toList :=
    notMem_of_mem_sourceLines (List.mem_of_getElem? hline)
  exact ⟨piece, habout, habout.quoted,
    Excerpt.shows_of_standsAt hline hsingle habout.standsAt habout.ne_nil habout.solid⟩

theorem mistake_shown_item :
    let source := "ret\r\n mov ,é;x $b"
    let e : SyntaxError := ⟨.badItem "é", ⟨1, 6⟩⟩
    let x := e.excerpt (sourceLines source)
    Program.read source = .error e ∧ x.diagnostic.offset = 10 ∧ x.diagnostic.length = 4 ∧
      e.mistake.About (tokenize " mov ,é;x $b" 1) ⟨1, 6⟩ ['é'] ∧ x.Shows ['é'] := by
  intro source e x
  have hread : Program.read source = .error e := by cbv
  have hline : x.sourceLine = " mov ,é;x $b" := by cbv
  have hspan : x.diagnostic.offset = 10 ∧ x.diagnostic.length = 4 := by decide +kernel
  obtain ⟨piece, habout, hquoted, hshows⟩ := mistake_shown hread
  obtain rfl : ['é'] = piece := (hquoted "é" rfl).1
  rw [show e.excerpt (sourceLines source) = x from rfl, hline] at habout
  exact ⟨hread, hspan.1, hspan.2, habout, hshows⟩

end CritterScript
