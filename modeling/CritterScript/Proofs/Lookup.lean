import CritterScript.Command.Report
import Mathlib

/-!
# Looking something up

A query is compared in lowercase, and Unicode has a lowercase for far more
characters than the reference uses. All of its names and descriptions are ASCII,
so nothing is found by a query that has a character outside ASCII once it is in
lowercase. Of a conversion to lowercase it is therefore enough to know what it
does to ASCII, and that nothing else gets there except the Kelvin sign
(`Lowercases`); what it does to other characters, and whether it looks at their
neighbours, cannot be told from the answer (`Lowercases.eq_or_beyond`).

For the same reason it does not matter in what the length of a query is counted:
bytes and characters differ only where nothing is found anyway
(`search_eq_of_long`).

A search goes through the entries four times and adds those that are not there
yet. As no two entries of the reference have the same name, this is to pick the
entries by name, and then those among the rest by description (`search_eq`).
-/

namespace CritterScript

theorem Text.occursIn_iff {needle cs : List Char} :
    Text.occursIn needle cs = true ↔ needle <:+: cs := by
  induction cs with
  | nil => rw [occursIn, List.isEmpty_iff, List.infix_nil]
  | cons c cs ih =>
    rw [occursIn, Bool.or_eq_true, ih, List.isPrefixOf_iff_prefix, List.infix_cons_iff]

namespace Reference

/-! ## Lowercase -/

/-- A character of ASCII. -/
def IsAscii (c : Char) : Prop :=
  c.val ≤ 127

instance : DecidablePred IsAscii := fun c => inferInstanceAs (Decidable (c.val ≤ 127))

/-- What can become of a character in lowercase. Outside ASCII, something stays
outside, as with the dot above that an `i` gets from `İ`; only the Kelvin sign
has a letter of ASCII. -/
inductive LowercaseOf : Char → List Char → Prop
  | ascii {c : Char} : IsAscii c → LowercaseOf c [c.toLower]
  | kelvin : LowercaseOf '\u212A' ['k']
  | beyond {c d : Char} {w : List Char} : ¬ IsAscii c → c ≠ '\u212A' → d ∈ w → ¬ IsAscii d →
    LowercaseOf c w

/-- A conversion of texts to lowercase, one character after the other. What
becomes of a character may depend on those around it. -/
def Lowercases (lowercase : String → List Char) : Prop :=
  ∀ s, ∃ pieces, List.Forall₂ LowercaseOf s.toList pieces ∧ lowercase s = pieces.flatten

theorem lowercases_flatMap {f : Char → List Char} (hf : ∀ c, LowercaseOf c (f c)) :
    Lowercases fun s => s.toList.flatMap f := by
  intro s
  refine ⟨s.toList.map f, ?_, List.flatMap_def⟩
  rw [List.forall₂_map_right_iff, List.forall₂_same]
  exact fun c _ => hf c

theorem isAscii_toLower {c : Char} (h : IsAscii c) : IsAscii c.toLower := by
  by_cases hupper : c.isUpper = true
  · have hle : c.val.toNat ≤ 90 := (of_decide_eq_true hupper).2
    rw [Char.toLower, dif_pos (of_decide_eq_true hupper)]
    show (c.val.toNat + 32) % 2 ^ 32 ≤ 127
    omega
  · rwa [Char.toLower_eq_of_not_isUpper hupper]

theorem toLower_eq_self {c : Char} (h : ¬ IsAscii c) : c.toLower = c := by
  refine Char.toLower_eq_of_not_isUpper fun hupper => h ?_
  have hle : c.val ≤ 90 := (of_decide_eq_true hupper).2
  exact UInt32.le_trans hle (by decide)

theorem lower_of_isAscii {c : Char} (h : IsAscii c) : lower c = c.toLower := by
  rw [lower, if_neg]
  rintro rfl
  exact absurd h (by decide)

theorem lowercaseOf_lower (c : Char) : LowercaseOf c [lower c] := by
  by_cases hc : IsAscii c
  · rw [lower_of_isAscii hc]
    exact .ascii hc
  · by_cases hkelvin : c = '\u212A'
    · rw [hkelvin]
      exact .kelvin
    · rw [lower, if_neg hkelvin, toLower_eq_self hc]
      exact .beyond hc hkelvin List.mem_cons_self hc

theorem LowercaseOf.eq_or_beyond {c : Char} {w : List Char} (h : LowercaseOf c w) :
    w = [lower c] ∨ (∃ d ∈ w, ¬ IsAscii d) ∧ ¬ IsAscii (lower c) := by
  cases h with
  | ascii hc => exact .inl (by rw [lower_of_isAscii hc])
  | kelvin => exact .inl rfl
  | @beyond c d w hc hne hd hbeyond =>
    refine .inr ⟨⟨d, hd, hbeyond⟩, ?_⟩
    rwa [lower, if_neg hne, toLower_eq_self hc]

theorem flatten_eq_or_beyond {cs : List Char} {pieces : List (List Char)}
    (h : List.Forall₂ LowercaseOf cs pieces) :
    pieces.flatten = cs.map lower ∨
      (∃ d ∈ pieces.flatten, ¬ IsAscii d) ∧ ∃ d ∈ cs.map lower, ¬ IsAscii d := by
  induction h with
  | nil => exact .inl rfl
  | @cons c w cs pieces hc hcs ih =>
    rw [List.flatten_cons, List.map_cons]
    rcases hc.eq_or_beyond with rfl | ⟨⟨d, hd, hbeyond⟩, hlower⟩
    · rcases ih with heq | ⟨⟨d, hd, hbeyond⟩, d', hd', hbeyond'⟩
      · exact .inl (by rw [heq, List.singleton_append])
      · exact .inr ⟨⟨d, List.mem_append_right _ hd, hbeyond⟩, d', List.mem_cons_of_mem _ hd',
          hbeyond'⟩
    · exact .inr ⟨⟨d, List.mem_append_left _ hd, hbeyond⟩, lower c, List.mem_cons_self, hlower⟩

namespace Lowercases

variable {lowercase : String → List Char} (h : Lowercases lowercase)

include h

/-- Conversions to lowercase agree on a text, or all of them leave it with
something outside ASCII. -/
theorem eq_or_beyond (s : String) :
    lowercase s = lowered s ∨
      (∃ d ∈ lowercase s, ¬ IsAscii d) ∧ ∃ d ∈ lowered s, ¬ IsAscii d := by
  obtain ⟨pieces, hpieces, heq⟩ := h s
  rw [heq]
  exact flatten_eq_or_beyond hpieces

theorem eq_of_isAscii {s : String} (hs : ∀ c ∈ s.toList, IsAscii c) :
    lowercase s = lowered s := by
  rcases h.eq_or_beyond s with heq | ⟨-, d, hd, hbeyond⟩
  · exact heq
  · obtain ⟨c, hc, rfl⟩ := List.mem_map.mp hd
    rw [lower_of_isAscii (hs c hc)] at hbeyond
    exact absurd (isAscii_toLower (hs c hc)) hbeyond

end Lowercases

/-! ## The reference is ASCII -/

/-- The text has no character outside ASCII. -/
def isAsciiText (cs : List Char) : Bool :=
  cs.all fun c => decide (IsAscii c)

theorem isAsciiText_iff {cs : List Char} : isAsciiText cs = true ↔ ∀ c ∈ cs, IsAscii c := by
  simp [isAsciiText]

theorem isAsciiText_name (op : Opcode) : isAsciiText op.name.toList = true := by
  cases op <;> decide

theorem isAsciiText_keys : ∀ e ∈ entries, ∀ key ∈ e.topic.keys, isAsciiText key = true := by
  decide

theorem isAsciiText_description : ∀ e ∈ entries, isAsciiText e.description.toList = true := by
  have hchars : ∀ e ∈ entries, ∃ cs, e.description = String.ofList cs ∧ isAsciiText cs = true := by
    intro e he
    -- the characters of a literal are at hand; decoding its bytes would take long
    fin_cases he <;> exact ⟨_, rfl, by decide⟩
  intro e he
  obtain ⟨cs, hcs, hascii⟩ := hchars e he
  rwa [hcs, String.toList_ofList]

theorem isAsciiText_lowered {s : String} (h : isAsciiText s.toList = true) :
    isAsciiText (lowered s) = true := by
  rw [isAsciiText_iff] at h ⊢
  intro d hd
  obtain ⟨c, hc, rfl⟩ := List.mem_map.mp hd
  rw [lower_of_isAscii (h c hc)]
  exact isAscii_toLower (h c hc)

theorem not_infix_of_beyond {q cs : List Char} (hq : ∃ d ∈ q, ¬ IsAscii d)
    (hcs : isAsciiText cs = true) : ¬ q <:+: cs := by
  obtain ⟨d, hd, hbeyond⟩ := hq
  exact fun hoccurs => hbeyond (isAsciiText_iff.mp hcs d (hoccurs.subset hd))

theorem byteSize_eq_length {cs : List Char} (h : ∀ c ∈ cs, IsAscii c) :
    Text.byteSize cs = cs.length := by
  induction cs with
  | nil => rfl
  | cons c cs ih =>
    have hsize : c.utf8Size = 1 := Char.utf8Size_eq_one_iff.mpr (h c List.mem_cons_self)
    rw [Text.byteSize_cons, hsize, ih fun d hd => h d (List.mem_cons_of_mem c hd),
      List.length_cons, Nat.add_comm]

/-! ## Entries -/

/-- The texts by which a topic is known: an opcode by its name in lowercase, a
register by its name with and without the `$`. -/
def Topic.names (lowercase : String → List Char) : Topic → List (List Char)
  | opcode op => [lowercase op.name]
  | register bare => [("$" ++ bare).toList, bare.toList]

/-- One of the texts by which an entry is known starts with `q`. -/
def Entry.KnownBy (lowercase : String → List Char) (e : Entry) (q : List Char) : Prop :=
  ∃ name ∈ e.topic.names lowercase, q <+: name

instance (lowercase : String → List Char) (e : Entry) (q : List Char) :
    Decidable (e.KnownBy lowercase q) :=
  inferInstanceAs (Decidable (∃ name ∈ e.topic.names lowercase, q <+: name))

theorem names_lowered : ∀ e ∈ entries, e.topic.names lowered = e.topic.keys := by
  decide

theorem Entry.named_iff (e : Entry) (q : List Char) :
    e.named q = true ↔ ∃ key ∈ e.topic.keys, q <+: key := by
  simp only [named, List.any_eq_true, List.isPrefixOf_iff_prefix]

theorem not_key_of_beyond {e : Entry} (he : e ∈ entries) {q : List Char}
    (hq : ∃ d ∈ q, ¬ IsAscii d) : ¬ ∃ key ∈ e.topic.keys, q <+: key := by
  rintro ⟨key, hkey, hstart⟩
  exact not_infix_of_beyond hq (isAsciiText_keys e he key hkey) hstart.isInfix

theorem not_mention_of_beyond {e : Entry} (he : e ∈ entries) {q : List Char}
    (hq : ∃ d ∈ q, ¬ IsAscii d) : ¬ q <:+: lowered e.description :=
  not_infix_of_beyond hq (isAsciiText_lowered (isAsciiText_description e he))

section Conversion

variable {lowercase : String → List Char} (h : Lowercases lowercase) {e : Entry}

include h

theorem names_eq_keys (he : e ∈ entries) : e.topic.names lowercase = e.topic.keys := by
  rw [← names_lowered e he]
  cases e.topic with
  | opcode op =>
    rw [Topic.names, Topic.names, h.eq_of_isAscii (isAsciiText_iff.mp (isAsciiText_name op))]
  | register bare => rfl

theorem lowercase_description (he : e ∈ entries) :
    lowercase e.description = lowered e.description :=
  h.eq_of_isAscii (isAsciiText_iff.mp (isAsciiText_description e he))

theorem named_iff_knownBy (he : e ∈ entries) (query : String) :
    e.named (lowered query) = true ↔ e.KnownBy lowercase (lowercase query) := by
  rw [e.named_iff, Entry.KnownBy, names_eq_keys h he]
  rcases h.eq_or_beyond query with heq | ⟨hbeyond, hbeyond'⟩
  · rw [heq]
  · exact iff_of_false (not_key_of_beyond he hbeyond') (not_key_of_beyond he hbeyond)

theorem mentions_iff_infix (he : e ∈ entries) (query : String) :
    e.mentions (lowered query) = true ↔ lowercase query <:+: lowercase e.description := by
  rw [Entry.mentions, Text.occursIn_iff, lowercase_description h he]
  rcases h.eq_or_beyond query with heq | ⟨hbeyond, hbeyond'⟩
  · rw [heq]
  · exact iff_of_false (not_mention_of_beyond he hbeyond') (not_mention_of_beyond he hbeyond)

end Conversion

/-! ## Loops -/

namespace Findings

/-- The two loops with the same test are one through all entries. -/
theorem collect_entries (f : Findings) (wanted : List String → Entry → Bool) :
    (f.collect wanted instructions).collect wanted registers = f.collect wanted entries :=
  List.foldl_append.symm

theorem collect_cons (f : Findings) (wanted : List String → Entry → Bool) (e : Entry)
    (es : List Entry) :
    f.collect wanted (e :: es) = (if wanted f.added e then f.add e else f).collect wanted es :=
  rfl

/-- A loop that does not look at what was added is a filter. -/
theorem collect_eq_filter (f : Findings) (test : Entry → Bool) (es : List Entry) :
    f.collect (fun _ => test) es =
      ⟨f.results ++ es.filter test, (es.filter test).reverse.map (·.topic.name) ++ f.added⟩ := by
  induction es generalizing f with
  | nil => simp [collect]
  | cons e es ih =>
    rw [collect_cons, ih]
    cases he : test e with
    | true => simp [List.filter_cons_of_pos he, add]
    | false => simp [he]

/-- A loop that leaves out what was added is a filter too, by what was added
before it: within the loop no name comes twice. -/
theorem results_collect (f : Findings) (test : Entry → Bool) {es : List Entry}
    (hes : (es.map (·.topic.name)).Nodup) :
    (f.collect (fun added e => !added.contains e.topic.name && test e) es).results =
      f.results ++ es.filter fun e => !f.added.contains e.topic.name && test e := by
  induction es generalizing f with
  | nil => simp [collect]
  | cons e es ih =>
    rw [List.map_cons, List.nodup_cons] at hes
    rw [collect_cons, ih _ hes.2]
    cases he : !f.added.contains e.topic.name && test e with
    | true =>
      have hrest : ∀ e' ∈ es, (f.add e).added.contains e'.topic.name =
          f.added.contains e'.topic.name := by
        intro e' he'
        have hne : e'.topic.name ≠ e.topic.name := fun heq =>
          hes.1 (heq ▸ List.mem_map_of_mem he')
        rw [add, List.contains_cons, beq_eq_false_iff_ne.mpr hne, Bool.false_or]
      have hfilter : (es.filter fun e' => !(f.add e).added.contains e'.topic.name && test e') =
          es.filter fun e' => !f.added.contains e'.topic.name && test e' :=
        List.filter_congr fun e' he' => by rw [hrest e' he']
      rw [if_pos rfl, hfilter, List.filter_cons, he, if_pos rfl, add, List.append_assoc,
        List.singleton_append]
    | false => rw [if_neg Bool.false_ne_true, List.filter_cons, he, if_neg Bool.false_ne_true]

end Findings

theorem nodup_name_entries : (entries.map (·.topic.name)).Nodup := by
  decide

/-- What a first search has added tells which entries passed its test. -/
theorem contains_name_filter (test : Entry → Bool) {e : Entry} (he : e ∈ entries) :
    ((entries.filter test).reverse.map (·.topic.name)).contains e.topic.name = test e := by
  rw [Bool.eq_iff_iff, List.contains_iff_mem, List.mem_map]
  constructor
  · rintro ⟨e', he', hname⟩
    obtain ⟨hmem, htest⟩ := List.mem_filter.mp (List.mem_reverse.mp he')
    rwa [← List.inj_on_of_nodup_map nodup_name_entries hmem he hname]
  · intro htest
    exact ⟨e, List.mem_reverse.mpr (List.mem_filter.mpr ⟨he, htest⟩), rfl⟩

/-- A search finds the entries that are named, and then those that are not named
and mention the query. -/
theorem search_eq (query : String) :
    search query =
      let found := entries.filter (·.named (lowered query))
      if found.length < fewEntries && longQuery ≤ Text.byteSize (lowered query) then
        found ++ entries.filter fun e => !e.named (lowered query) && e.mentions (lowered query)
      else found := by
  have hmentions : (entries.filter fun e => !((entries.filter (·.named (lowered query))).reverse.map
      (·.topic.name)).contains e.topic.name && e.mentions (lowered query)) =
      entries.filter fun e => !e.named (lowered query) && e.mentions (lowered query) :=
    List.filter_congr fun e he => by rw [contains_name_filter _ he]
  simp only [search, Findings.collect_entries]
  simp only [Findings.collect_eq_filter, Findings.results_collect _ _ nodup_name_entries,
    Findings.empty, List.nil_append, List.append_nil, hmentions]

/-! ## Answers -/

/-- The entries that are known by a text, in their order. -/
def known (lowercase : String → List Char) (q : List Char) : List Entry :=
  entries.filter fun e => e.KnownBy lowercase q

/-- The other entries that have a text in their description, in their order. -/
def mentioning (lowercase : String → List Char) (q : List Char) : List Entry :=
  entries.filter fun e => ¬ e.KnownBy lowercase q ∧ q <:+: lowercase e.description

section Conversion

variable {lowercase : String → List Char} (h : Lowercases lowercase) (query : String)

include h

theorem filter_named_eq :
    entries.filter (·.named (lowered query)) = known lowercase (lowercase query) := by
  refine List.filter_congr fun e he => ?_
  rw [Bool.eq_iff_iff, decide_eq_true_iff, named_iff_knownBy h he]

theorem filter_mentions_eq :
    (entries.filter fun e => !e.named (lowered query) && e.mentions (lowered query)) =
      mentioning lowercase (lowercase query) := by
  refine List.filter_congr fun e he => ?_
  rw [Bool.eq_iff_iff, decide_eq_true_iff, Bool.and_eq_true, Bool.not_eq_true',
    ← Bool.not_eq_true, named_iff_knownBy h he, mentions_iff_infix h he]

/-- A query that is not ASCII in lowercase finds nothing. -/
theorem known_and_mentioning_eq_nil (hbeyond : ∃ d ∈ lowercase query, ¬ IsAscii d) :
    known lowercase (lowercase query) = [] ∧ mentioning lowercase (lowercase query) = [] := by
  constructor
  · refine List.filter_eq_nil_iff.mpr fun e he => ?_
    rw [decide_eq_true_iff, Entry.KnownBy, names_eq_keys h he]
    exact not_key_of_beyond he hbeyond
  · refine List.filter_eq_nil_iff.mpr fun e he => ?_
    rw [decide_eq_true_iff, lowercase_description h he]
    exact fun hboth => not_mention_of_beyond he hbeyond hboth.2

/-- Any way to measure a query will do that gives the right answer for ASCII. -/
theorem search_eq_of_long {long : Prop} [Decidable long]
    (hlong : lowercase query = lowered query → (∀ c ∈ lowercase query, IsAscii c) →
      (long ↔ 3 ≤ (lowercase query).length)) :
    search query =
      if (known lowercase (lowercase query)).length < 3 ∧ long then
        known lowercase (lowercase query) ++ mentioning lowercase (lowercase query)
      else known lowercase (lowercase query) := by
  rw [search_eq]
  simp only [filter_named_eq h query, filter_mentions_eq h query, Bool.and_eq_true,
    decide_eq_true_iff]
  by_cases hascii : ∀ c ∈ lowercase query, IsAscii c
  · have heq : lowercase query = lowered query := by
      rcases h.eq_or_beyond query with heq | ⟨⟨d, hd, hbeyond⟩, -⟩
      · exact heq
      · exact absurd (hascii d hd) hbeyond
    rw [← heq, byteSize_eq_length hascii]
    exact if_congr (and_congr_right fun _ => (hlong heq hascii).symm) rfl rfl
  · have hbeyond : ∃ d ∈ lowercase query, ¬ IsAscii d := by
      simpa only [not_forall, exists_prop] using hascii
    obtain ⟨hknown, hmentioning⟩ := known_and_mentioning_eq_nil h query hbeyond
    rw [hknown, hmentioning, List.append_nil, ite_self, ite_self]

end Conversion

theorem nodup_spec_entries : (entries.map Entry.spec).Nodup := by
  decide

/-- No entry is found twice: those that are known by a query are left out of
those that mention it. -/
theorem nodup_spec_search (query : String) : ((search query).map Entry.spec).Nodup := by
  have hperm : (entries.filter (·.named (lowered query)) ++
      entries.filter fun e => !e.named (lowered query)).Perm entries :=
    List.filter_append_perm _ _
  have hsublist : (search query).Sublist (entries.filter (·.named (lowered query)) ++
      entries.filter fun e => !e.named (lowered query)) := by
    rw [search_eq]
    simp only
    split_ifs
    · refine (List.Sublist.refl _).append (List.monotone_filter_right _ fun e he => ?_)
      exact (Bool.and_eq_true _ _ ▸ he).1
    · exact List.sublist_append_left _ _
  exact ((hperm.map Entry.spec).nodup_iff.mpr nodup_spec_entries).sublist
    (hsublist.map Entry.spec)

theorem search_empty : search "" = entries := by
  have hnamed : ∀ e : Entry, e.named [] = true := by
    intro e
    rw [e.named_iff]
    cases ht : e.topic with
    | opcode op => exact ⟨_, List.mem_singleton_self _, List.nil_prefix⟩
    | register bare => exact ⟨_, List.mem_cons_self, List.nil_prefix⟩
  have hall : entries.filter (·.named (lowered "")) = entries :=
    List.filter_eq_self.mpr fun e _ => hnamed e
  rw [search_eq]
  simp only [hall]
  exact if_neg (by decide)

theorem table_ne_empty {es : List Entry} (h : es ≠ []) : table es ≠ "" := by
  obtain ⟨e, es, rfl⟩ := List.exists_cons_of_ne_nil h
  rw [table, List.map_cons, String.join_cons]
  intro hempty
  -- a line ends in a line feed
  obtain ⟨⟨-, hend⟩, -⟩ := by simpa only [String.append_eq_empty_iff] using hempty
  exact absurd hend (by decide)

theorem lookUp_cases (query : String) :
    search query = [] ∧ Command.lookUp (some query) = .failed (.nothingFound query) ∨
      search query ≠ [] ∧ Command.lookUp (some query) = ⟨true, table (search query), []⟩ := by
  simp only [Command.lookUp]
  cases search query with
  | nil => exact .inl ⟨rfl, rfl⟩
  | cons e es => exact .inr ⟨List.cons_ne_nil e es, rfl⟩

/-- A query finds the entries that are known by it, in the order of the
reference, and if these are few and it is long enough then the other entries
that mention it as well; none is found twice. Its length may be counted in bytes
or in characters, those of its lowercase or its own. Nothing is printed, and the
command fails, just if nothing is found. -/
theorem search_in_lowercase {lowercase : String → List Char} (h : Lowercases lowercase)
    (query : String) :
    let q := lowercase query
    let found := known lowercase q
    let more := mentioning lowercase q
    search query = (if found.length < 3 ∧ 3 ≤ Text.byteSize q then found ++ more else found) ∧
      search query = (if found.length < 3 ∧ 3 ≤ q.length then found ++ more else found) ∧
      search query = (if found.length < 3 ∧ 3 ≤ query.length then found ++ more else found) ∧
      ((search query).map Entry.spec).Nodup ∧ search "" = entries ∧
      ((Command.lookUp (some query)).ok = false ↔ search query = []) ∧
      ((Command.lookUp (some query)).output = "" ↔ search query = []) := by
  intro q found more
  refine ⟨?_, ?_, ?_, nodup_spec_search query, search_empty, ?_⟩
  · exact search_eq_of_long h query fun _ hascii => by rw [byteSize_eq_length hascii]
  · exact search_eq_of_long h query fun _ _ => Iff.rfl
  · refine search_eq_of_long h query fun heq _ => ?_
    rw [heq, lowered, List.length_map, String.length_toList]
  · rcases lookUp_cases query with ⟨hnil, hfailed⟩ | ⟨hne, hfound⟩
    · rw [hfailed]
      exact ⟨iff_of_true rfl hnil, iff_of_true rfl hnil⟩
    · rw [hfound]
      exact ⟨iff_of_false Bool.true_eq_false.mp hne, iff_of_false (table_ne_empty hne) hne⟩

/-- In lowercase, `İ` has three bytes and two characters, of which the first is
the start of a name. A longer query finds what mentions it. -/
theorem search_in_lowercase_dotted :
    let lowercase : String → List Char := fun s =>
      s.toList.flatMap fun c => if c = '\u0130' then ['i', '\u0307'] else [lower c]
    let base : Entry := ⟨.register "eb", "x,y R", "enemy base position (not neutral)"⟩
    Lowercases lowercase ∧ lowercase "\u0130" = ['i', '\u0307'] ∧
      Text.byteSize (lowercase "\u0130") = 3 ∧ search "\u0130" = [] ∧
      (Command.lookUp (some "\u0130")).ok = false ∧
      (Command.lookUp (some "\u0130")).output = "" ∧
      search "NEUTRAL" = mentioning lowercase "neutral".toList ∧ base ∈ search "NEUTRAL" := by
  intro lowercase base
  have h : Lowercases lowercase := by
    refine lowercases_flatMap fun c => ?_
    by_cases hc : c = '\u0130'
    · rw [if_pos hc, hc]
      exact .beyond (by decide) (by decide) (List.mem_cons_of_mem _ List.mem_cons_self) (by decide)
    · rw [if_neg hc]
      exact lowercaseOf_lower c
  obtain ⟨-, hshort, -, -, -, hok, houtput⟩ := search_in_lowercase h "\u0130"
  obtain ⟨hlong, -⟩ := search_in_lowercase h "NEUTRAL"
  have hnone : search "\u0130" = [] := by
    rw [hshort]
    decide
  have hmore : search "NEUTRAL" = mentioning lowercase "neutral".toList := by
    have hq : lowercase "NEUTRAL" = "neutral".toList := by decide
    have hfound : known lowercase "neutral".toList = [] := by decide
    rw [hlong, hq, hfound, if_pos (by decide), List.nil_append]
  refine ⟨h, rfl, rfl, hnone, hok.mpr hnone, houtput.mpr hnone, hmore, ?_⟩
  rw [hmore]
  exact List.mem_filter.mpr ⟨by decide, by decide⟩

end Reference

end CritterScript
