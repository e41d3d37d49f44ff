import CritterScript.Proofs.Runs
import Mathlib

/-!
# The tokens of a line

The code of a line is what stands in front of its comment (`IsCode`). The tokens
of the line are told in two ways, and either way tells all of them
(`tokenize_exact`):

* they are the maximal runs of the code, from left to right, and the column of a
  token is the number of bytes in front of it (`Token.IsRun`);
* they cover the bytes of the code but for its blank characters, they are made
  of the bytes that they cover, and there is something blank between any two of
  them (`Tiling`).

The second way speaks of bytes only. That the bytes of a token are those of
whole characters of the line follows, since text has no characters that start
in the middle of another (`exists_append_of_extract`).
-/

namespace CritterScript

namespace Text

/-- The bytes of a part of a text. -/
theorem extract_of_append {s : String} {before word after : List Char}
    (h : s.toList = before ++ word ++ after) :
    s.toByteArray.extract (byteSize before) (byteSize before + byteSize word) =
      (String.ofList word).toByteArray := by
  have hs : s = String.ofList before ++ String.ofList word ++ String.ofList after := by
    rw [← String.ofList_append, ← String.ofList_append, ← h, String.ofList_toList]
  have hbefore := byteSize_toList (String.ofList before)
  have hword := byteSize_toList (String.ofList word)
  rw [String.toList_ofList] at hbefore hword
  rw [hs, hbefore, hword, String.append_assoc, String.toByteArray_append,
    ← String.size_toByteArray, ← Nat.add_zero (String.toByteArray _).size, Nat.add_assoc,
    ByteArray.extract_append_size_add, Nat.zero_add, String.toByteArray_append]
  exact ByteArray.extract_append_eq_left String.size_toByteArray.symm

/-- Bytes of a text that are those of another text, and not none, are those of
characters of the text. -/
theorem exists_append_of_extract {s word : String} {n : Nat} (hne : word ≠ "")
    (hle : n + word.utf8ByteSize ≤ s.utf8ByteSize)
    (h : s.toByteArray.extract n (n + word.utf8ByteSize) = word.toByteArray) :
    ∃ before after, s.toList = before ++ word.toList ++ after ∧ byteSize before = n := by
  have hpos : 0 < word.utf8ByteSize := by
    rw [← byteSize_toList]
    exact byteSize_pos (by simpa using hne)
  have hvalid : String.Pos.Raw.IsValid s ⟨n⟩ := by
    have hword : (s.toByteArray.extract n (n + word.utf8ByteSize)).IsValidUTF8 :=
      h ▸ word.isValidUTF8
    obtain heq | ⟨hn, -⟩ := (String.Pos.Raw.isValidUTF8_extract_iff ⟨n⟩ ⟨n + word.utf8ByteSize⟩
      (Nat.le_add_right n _) hle).mp hword
    · have := congrArg String.Pos.Raw.byteIdx heq
      simp only at this
      omega
    · exact hn
  obtain ⟨front, back, rfl, hn⟩ := String.Pos.Raw.isValid_iff_exists_append.mp hvalid
  obtain rfl : n = front.toByteArray.size := by
    rw [String.size_toByteArray]
    exact congrArg String.Pos.Raw.byteIdx hn
  rw [String.toByteArray_append, ← Nat.add_zero (String.toByteArray _).size, Nat.add_assoc,
    ByteArray.extract_append_size_add, Nat.zero_add] at h
  have hback : word.toList.utf8Encode ++
      back.toByteArray.extract word.utf8ByteSize back.toByteArray.size =
        back.toList.utf8Encode := by
    rw [String.utf8Encode_toList, String.utf8Encode_toList, ← h,
      ByteArray.extract_append_extract, Nat.zero_min, ByteArray.extract_zero_max_size]
  obtain ⟨after, hafter⟩ := List.isPrefix_of_utf8Encode_append_eq_utf8Encode _ hback
  refine ⟨front.toList, after, ?_, ?_⟩
  · rw [String.toList_append, ← hafter, List.append_assoc]
  · rw [byteSize_toList, String.size_toByteArray]

/-- Of two starts of a text, the one of fewer bytes is a start of the other. -/
theorem prefix_of_byteSize_le {cs xs ys : List Char} (hxs : xs <+: cs) (hys : ys <+: cs)
    (h : byteSize xs ≤ byteSize ys) : xs <+: ys := by
  obtain hxy | ⟨zs, rfl⟩ := List.prefix_or_prefix_of_prefix hxs hys
  · exact hxy
  · have hzs : zs = [] := by
      by_contra hne
      have hpos := byteSize_pos hne
      rw [byteSize_append] at h
      omega
    rw [hzs, List.append_nil]

end Text

/-! ## The code of a line -/

/-- `code` is the part of a line in front of its first comment mark, or the whole
line if there is none in it. -/
def IsCode (line code : List Char) : Prop :=
  commentMark ∉ code ∧ (code = line ∨ code ++ [commentMark] <+: line)

theorem isCode_codePart (line : List Char) : IsCode line (codePart line) := by
  constructor
  · intro hmem
    have hmark := @List.mem_takeWhile_imp _ (· != commentMark) _ _ hmem
    cases hmark
  · have hline : codePart line ++ line.dropWhile (· != commentMark) = line :=
      List.takeWhile_append_dropWhile
    cases hrest : line.dropWhile (· != commentMark) with
    | nil =>
      rw [hrest, List.append_nil] at hline
      exact .inl hline
    | cons c rest =>
      have hc := List.head?_dropWhile_not (· != commentMark) line
      rw [hrest] at hc
      obtain rfl : c = commentMark := by simpa using hc
      rw [hrest] at hline
      exact .inr ⟨rest, by rw [List.append_assoc]; exact hline⟩

theorem IsCode.eq {line code : List Char} (h : IsCode line code) : codePart line = code := by
  obtain ⟨hcode, hline⟩ := h
  have hpass : ∀ c ∈ code, (c != commentMark) = true := by
    intro c hc
    rw [bne_iff_ne]
    rintro rfl
    exact hcode hc
  obtain rfl | ⟨rest, rfl⟩ := hline
  · exact List.takeWhile_eq_self_iff.mpr hpass
  · rw [codePart, List.append_assoc, List.takeWhile_append_of_pos hpass]
    exact List.append_nil code

theorem IsCode.isPrefix {line code : List Char} (h : IsCode line code) : code <+: line := by
  obtain rfl | hline := h.2
  · exact List.prefix_rfl
  · exact (List.prefix_append code [commentMark]).trans hline

/-! ## Tokens are runs -/

/-- The byte behind a token. -/
def Token.stop (t : Token) : Nat :=
  t.place.column + t.text.utf8ByteSize

/-- The token is a maximal run of the code of line number `index`. -/
def Token.IsRun (code : List Char) (index : Nat) (t : Token) : Prop :=
  ∃ before after, code = before ++ t.text.toList ++ after ∧
    Text.MaximalRun before t.text.toList after ∧ t.place = ⟨index, Text.byteSize before⟩

theorem Token.stop_eq (t : Token) :
    t.stop = t.place.column + Text.byteSize t.text.toList := by
  rw [Text.byteSize_toList]
  rfl

section Tokenize

variable {line : String} {code : List Char} {index : Nat} {t u : Token}

theorem mem_tokenize_iff : t ∈ tokenize line index ↔ t.IsRun (codePart line.toList) index := by
  rw [tokenize, List.mem_map]
  constructor
  · rintro ⟨x, hx, rfl⟩
    obtain ⟨before, after, hcode, hrun, hcolumn⟩ := Text.mem_words_iff.mp hx
    rw [Nat.zero_add] at hcolumn
    refine ⟨before, after, ?_, ?_, ?_⟩
    · rwa [String.toList_ofList]
    · rwa [String.toList_ofList]
    · exact congrArg (Place.mk index) hcolumn
  · rintro ⟨before, after, hcode, hrun, hplace⟩
    refine ⟨(Text.byteSize before, t.text.toList), Text.mem_words_iff.mpr
      ⟨before, after, hcode, hrun, (Nat.zero_add _).symm⟩, ?_⟩
    show Token.mk (String.ofList t.text.toList) ⟨index, Text.byteSize before⟩ = t
    rw [String.ofList_toList, ← hplace]

theorem pairwise_tokenize (line : String) (index : Nat) :
    (tokenize line index).Pairwise fun t u => t.stop < u.place.column := by
  rw [tokenize, List.pairwise_map]
  refine (Text.pairwise_words 0 _).imp fun {x y} hxy => ?_
  rw [Token.stop_eq, String.toList_ofList]
  exact hxy

/-- Tokens in the order of their columns are told by which there are. -/
theorem eq_tokenize_iff {ts : List Token} :
    ts = tokenize line index ↔
      (∀ t, t ∈ ts ↔ t.IsRun (codePart line.toList) index) ∧
        ts.Pairwise fun t u => t.place.column < u.place.column := by
  have hsorted : (tokenize line index).Pairwise fun t u => t.place.column < u.place.column :=
    (pairwise_tokenize line index).imp fun {t u} h => Nat.lt_of_le_of_lt (Nat.le_add_right _ _) h
  constructor
  · rintro rfl
    exact ⟨fun t => mem_tokenize_iff, hsorted⟩
  · rintro ⟨hmem, hts⟩
    have : Std.Irrefl fun t u : Token => t.place.column < u.place.column :=
      ⟨fun t => Nat.lt_irrefl _⟩
    have : Std.Antisymm fun t u : Token => t.place.column < u.place.column :=
      ⟨fun t u h h' => absurd h' (Nat.lt_asymm h)⟩
    exact hts.eq_of_mem_iff hsorted fun t => (hmem t).trans mem_tokenize_iff.symm

end Tokenize

/-! ## Tokens tile the code -/

/-- There is a blank character between two bytes of a text. -/
def BlankBetween (cs : List Char) (m n : Nat) : Prop :=
  ∃ offset c, Text.CharAt cs offset c ∧ Text.isBlank c = true ∧ m ≤ offset ∧
    offset + c.utf8Size ≤ n

/-- The byte belongs to a blank character. -/
def BlankByte (cs : List Char) (n : Nat) : Prop :=
  ∃ offset c, Text.CharAt cs offset c ∧ Text.isBlank c = true ∧ offset ≤ n ∧
    n < offset + c.utf8Size

/-- There is something blank between a token and another, further along. -/
def Token.Apart (cs : List Char) (t u : Token) : Prop :=
  BlankBetween cs t.stop u.place.column

/-- The tokens cover the code of line number `index`, but for its blank
characters. -/
structure Tiling (line : String) (code : List Char) (index : Nat) (ts : List Token) : Prop where
  line_eq : ∀ t ∈ ts, t.place.line = index
  ne_empty : ∀ t ∈ ts, t.text ≠ ""
  plain : ∀ t ∈ ts, ∀ c ∈ t.text.toList, Text.isBlank c = false ∧ c ≠ commentMark
  bytes : ∀ t ∈ ts, line.toByteArray.extract t.place.column t.stop = t.text.toByteArray
  inside : ∀ t ∈ ts, t.stop ≤ Text.byteSize code
  increasing : ts.Pairwise fun t u => t.place.column < u.place.column
  separated : ts.IsChain (Token.Apart line.toList)
  covered : ∀ n < Text.byteSize code,
    (∃ t ∈ ts, t.place.column ≤ n ∧ n < t.stop) ∨ BlankByte line.toList n

section Tiling

variable {line : String} {code : List Char} {index : Nat} {t u : Token} {ts : List Token}

/-- The first character of a run. -/
theorem Token.IsRun.charAt (h : t.IsRun code index) :
    ∃ c, Text.CharAt code t.place.column c ∧ Text.isBlank c = false := by
  obtain ⟨before, after, rfl, hrun, hplace⟩ := h
  obtain ⟨c, word, hword⟩ := List.exists_cons_of_ne_nil hrun.ne_nil
  refine ⟨c, ⟨before, word ++ after, ?_, ?_⟩, hrun.solid c (hword ▸ List.mem_cons_self)⟩
  · rw [hword, List.append_assoc, List.cons_append]
  · rw [hplace]

theorem Token.IsRun.stop_le (h : t.IsRun code index) : t.stop ≤ Text.byteSize code := by
  obtain ⟨before, after, rfl, -, hplace⟩ := h
  simp only [Token.stop_eq, hplace, Text.byteSize_append]
  omega

/-- Behind a run there is something blank, if there is another run. -/
theorem Token.IsRun.apart (ht : t.IsRun code index) (hu : u.IsRun code index)
    (h : t.stop < u.place.column) : t.Apart code u := by
  obtain ⟨d, hd, -⟩ := hu.charAt
  have hlt : t.stop < Text.byteSize code := by
    obtain ⟨before, after, rfl, hoffset⟩ := hd
    rw [Text.byteSize_append]
    omega
  obtain ⟨before, after, rfl, hrun, hplace⟩ := ht
  have hstop : t.stop = Text.byteSize (before ++ t.text.toList) := by
    rw [Token.stop_eq, hplace, Text.byteSize_append]
  cases after with
  | nil =>
    rw [List.append_nil, hstop] at hlt
    exact absurd hlt (Nat.lt_irrefl _)
  | cons c after =>
    have hc : Text.CharAt (before ++ t.text.toList ++ c :: after) t.stop c :=
      ⟨before ++ t.text.toList, after, rfl, hstop.symm⟩
    exact ⟨t.stop, c, hc, hrun.ends c rfl, Nat.le_refl _, hc.add_le hd h⟩

theorem BlankBetween.mono {cs ds : List Char} {m n : Nat} (h : BlankBetween cs m n)
    (hstart : cs <+: ds) : BlankBetween ds m n := by
  obtain ⟨offset, c, hc, hrest⟩ := h
  exact ⟨offset, c, hc.mono hstart, hrest⟩

theorem BlankBetween.lt {cs : List Char} {m n : Nat} (h : BlankBetween cs m n) : m < n := by
  obtain ⟨offset, c, -, -, hle, hlt⟩ := h
  have hc := c.utf8Size_pos
  omega

instance {cs : List Char} : Trans (Token.Apart cs) (Token.Apart cs) (Token.Apart cs) where
  trans {t u v} htu huv := by
    obtain ⟨offset, c, hc, hblank, hle, hge⟩ := htu
    have hlt := BlankBetween.lt huv
    have hstop : u.place.column ≤ u.stop := Nat.le_add_right _ _
    exact ⟨offset, c, hc, hblank, hle, by omega⟩

theorem tiling_tokenize (line : String) (index : Nat) :
    Tiling line (codePart line.toList) index (tokenize line index) := by
  have hstart : codePart line.toList <+: line.toList := (isCode_codePart line.toList).isPrefix
  have hruns : ∀ t ∈ tokenize line index, t.IsRun (codePart line.toList) index :=
    fun t => mem_tokenize_iff.mp
  have hplain : ∀ t ∈ tokenize line index, t.text ≠ "" ∧ ∀ c ∈ t.text.toList, isPlain c = true :=
    fun t => plain_of_mem_tokenize
  refine ⟨fun t ht => ?_, fun t ht => (hplain t ht).1, fun t ht c hc => ?_, fun t ht => ?_,
    fun t ht => (hruns t ht).stop_le, (eq_tokenize_iff.mp rfl).2, ?_, fun n hn => ?_⟩
  · obtain ⟨before, after, -, -, hplace⟩ := hruns t ht
    rw [hplace]
  · obtain ⟨hblank, hmark⟩ := isPlain_iff.mp ((hplain t ht).2 c hc)
    exact ⟨hblank, bne_iff_ne.mp hmark⟩
  · obtain ⟨before, after, hcode, -, hplace⟩ := hruns t ht
    obtain ⟨comment, hline⟩ := hstart
    rw [hcode, List.append_assoc] at hline
    rw [Token.stop_eq, hplace, Text.extract_of_append hline.symm, String.ofList_toList]
  · refine List.Pairwise.isChain ?_
    refine (pairwise_tokenize line index).imp_of_mem fun {t u} ht hu h => ?_
    exact BlankBetween.mono ((hruns t ht).apart (hruns u hu) h) hstart
  · obtain ⟨x, hx, hle, hlt⟩ | ⟨m, c, hc, hrest⟩ := Text.exists_word_or_blank 0 hn
    · refine .inl ⟨_, List.mem_map_of_mem hx, ?_, ?_⟩
      · rwa [Nat.zero_add] at hle
      · rw [Token.stop_eq, String.toList_ofList]
        rwa [Nat.zero_add] at hlt
    · exact .inr ⟨m, c, hc.mono hstart, hrest⟩

/-- Tokens are apart, not only those next to each other. -/
theorem Tiling.apart (h : Tiling line code index ts) (ht : t ∈ ts) (hu : u ∈ ts) (hne : t ≠ u) :
    t.Apart line.toList u ∨ u.Apart line.toList t := by
  have hsymm : Std.Symm fun t u : Token => t.Apart line.toList u ∨ u.Apart line.toList t :=
    ⟨fun _ _ => Or.symm⟩
  have hpairs : ts.Pairwise fun t u => t.Apart line.toList u ∨ u.Apart line.toList t :=
    (List.isChain_iff_pairwise.mp h.separated).imp Or.inl
  exact hpairs.forall ht hu hne

/-- A character of the code that is not blank is inside a token. -/
theorem Tiling.exists_token (h : Tiling line code index ts) (hcode : code <+: line.toList)
    {n : Nat} {c : Char} (hc : Text.CharAt code n c) (hblank : Text.isBlank c = false) :
    ∃ t ∈ ts, t.place.column ≤ n ∧ n < t.stop := by
  have hn : n < Text.byteSize code := by
    obtain ⟨before, after, rfl, rfl⟩ := hc
    have hpos := c.utf8Size_pos
    rw [Text.byteSize_append, Text.byteSize_cons]
    omega
  obtain ht | ⟨m, d, hd, hblank', hle, hlt⟩ := h.covered n hn
  · exact ht
  · have hcd : c = d := (hc.mono hcode).eq_of_le_of_lt hd hle hlt
    rw [hcd, hblank'] at hblank
    cases hblank

/-- A character of the code that is not blank neither ends where a token starts
nor starts where one ends. -/
theorem Tiling.not_touching (h : Tiling line code index ts) (hcode : code <+: line.toList)
    (ht : t ∈ ts) {n : Nat} {c : Char} (hc : Text.CharAt code n c)
    (hblank : Text.isBlank c = false) : n + c.utf8Size ≠ t.place.column ∧ n ≠ t.stop := by
  obtain ⟨u, hu, hul, hur⟩ := h.exists_token hcode hc hblank
  have hpos := c.utf8Size_pos
  have hle : t.place.column ≤ t.stop := Nat.le_add_right _ _
  -- the character is inside of `u`, so `u` is not `t`, and there is room between the two
  constructor
  · intro hn
    have hne : u ≠ t := by
      rintro rfl
      omega
    obtain ⟨m, d, hd, -, hum, hmt⟩ | hapart := h.apart hu ht hne
    · have hbeyond := (hc.mono hcode).add_le hd (by omega)
      have hdpos := d.utf8Size_pos
      omega
    · have hlt := BlankBetween.lt hapart
      omega
  · rintro rfl
    have hne : u ≠ t := by
      rintro rfl
      omega
    obtain hapart | hapart := h.apart hu ht hne
    · have hlt := BlankBetween.lt hapart
      omega
    · have hlt := BlankBetween.lt hapart
      omega

/-- A token of a tiling can be extended neither to the left nor to the right. -/
theorem Tiling.isRun (h : Tiling line code index ts) (hcode : code <+: line.toList)
    (ht : t ∈ ts) : t.IsRun code index := by
  have hinside := h.inside t ht
  have hsize : Text.byteSize code ≤ line.utf8ByteSize := by
    obtain ⟨comment, hline⟩ := hcode
    rw [← Text.byteSize_toList, ← hline, Text.byteSize_append]
    omega
  obtain ⟨before, rest, hline, hcolumn⟩ := Text.exists_append_of_extract (h.ne_empty t ht)
    (Nat.le_trans hinside hsize) (h.bytes t ht)
  have hstop : t.stop = Text.byteSize (before ++ t.text.toList) := by
    rw [Token.stop_eq, Text.byteSize_append, hcolumn]
  obtain ⟨after, rfl⟩ : before ++ t.text.toList <+: code :=
    Text.prefix_of_byteSize_le ⟨rest, hline.symm⟩ hcode (hstop ▸ hinside)
  refine ⟨before, after, rfl, ⟨?_, fun c hc => (h.plain t ht c hc).1, ?_, ?_⟩, ?_⟩
  · simpa using h.ne_empty t ht
  · intro c hc
    obtain ⟨front, rfl⟩ := List.getLast?_eq_some_iff.mp hc
    by_contra hblank
    have hlast : Text.CharAt (front ++ [c] ++ t.text.toList ++ after) (Text.byteSize front) c :=
      ⟨front, t.text.toList ++ after, by simp, rfl⟩
    refine (h.not_touching hcode ht hlast (Bool.eq_false_iff.mpr hblank)).1 ?_
    rw [← hcolumn, Text.byteSize_append]
    rfl
  · intro c hc
    obtain ⟨back, rfl⟩ := List.head?_eq_some_iff.mp hc
    by_contra hblank
    have hnext : Text.CharAt (before ++ t.text.toList ++ c :: back) t.stop c :=
      ⟨before ++ t.text.toList, back, rfl, hstop.symm⟩
    exact (h.not_touching hcode ht hnext (Bool.eq_false_iff.mpr hblank)).2 rfl
  · rw [hcolumn, ← h.line_eq t ht]

/-- A run of the code is a token of a tiling: its first character is inside one,
and no two runs overlap. -/
theorem Tiling.mem_of_isRun (h : Tiling line (codePart line.toList) index ts)
    (ht : t.IsRun (codePart line.toList) index) : t ∈ ts := by
  have hstart := (isCode_codePart line.toList).isPrefix
  obtain ⟨c, hc, hblank⟩ := ht.charAt
  obtain ⟨u, hu, hul, hur⟩ := h.exists_token hstart hc hblank
  have hu' := mem_tokenize_iff.mpr (h.isRun hstart hu)
  by_contra hmem
  have hne : t ≠ u := by
    rintro rfl
    exact hmem hu
  have hle : t.place.column ≤ t.stop := Nat.le_add_right _ _
  obtain hbetween | hbetween :=
    (tiling_tokenize line index).apart (mem_tokenize_iff.mpr ht) hu' hne
  · have hlt := hbetween.lt
    omega
  · have hlt := hbetween.lt
    omega

end Tiling

/-- The tokens of a line are the maximal runs of its code, from left to right,
and so they are the one tiling of the code. -/
theorem tokenize_exact (line : String) (index : Nat) :
    IsCode line.toList (codePart line.toList) ∧
      ∀ ts : List Token,
        (ts = tokenize line index ↔
          (∀ t, t ∈ ts ↔ t.IsRun (codePart line.toList) index) ∧
            ts.Pairwise fun t u => t.place.column < u.place.column) ∧
        (ts = tokenize line index ↔ Tiling line (codePart line.toList) index ts) := by
  have hcode := isCode_codePart line.toList
  refine ⟨hcode, fun ts => ⟨eq_tokenize_iff, ?_, fun h => ?_⟩⟩
  · rintro rfl
    exact tiling_tokenize line index
  · exact eq_tokenize_iff.mpr
      ⟨fun t => ⟨h.isRun hcode.isPrefix, h.mem_of_isRun⟩, h.increasing⟩

end CritterScript
