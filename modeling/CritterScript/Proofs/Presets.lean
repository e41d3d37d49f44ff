import CritterScript.Proofs.Ballots
import CritterScript.Proofs.Concatenation
import CritterScript.Proofs.Disassembly
import CritterScript.Settings.Basic
import Mathlib

/-!
# Presets and literals

A preset is read by rules of its own: it is trimmed, and must then be a single
word. What is left for it to be is a literal, and that is read as in a script
(`readPreset_of_word`), but for the place, which only shows in where a mistake
is (`readLiteral_alike`).

`Settings.exists_presets` and `Settings.rel_of_presets` say when a table of
presets makes registers, and which. `presets_alike_mov` compares a single preset
with the script that moves the same literal into the same register.
-/

namespace CritterScript

namespace Text

theorem dropWhile_isBlank_append {front cs : List Char} (hfront : ∀ c ∈ front, isBlank c = true)
    (hcs : ∀ c ∈ cs.head?, isBlank c = false) : (front ++ cs).dropWhile isBlank = cs := by
  rw [List.dropWhile_append_of_pos hfront]
  cases cs with
  | nil => rfl
  | cons c cs =>
    have hc : isBlank c = false := hcs c rfl
    exact List.dropWhile_cons_of_neg (by simp [hc])

/-- A word is what is left of it with blank space around it. -/
theorem trim_append {front cs back : List Char} (hfront : ∀ c ∈ front, isBlank c = true)
    (hcs : ∀ c ∈ cs, isBlank c = false) (hne : cs ≠ []) (hback : ∀ c ∈ back, isBlank c = true) :
    trim (front ++ cs ++ back) = cs := by
  have hhead : ∀ c ∈ (cs ++ back).head?, isBlank c = false := by
    intro c hc
    rw [List.head?_append_of_ne_nil cs hne] at hc
    exact hcs c (List.mem_of_head? hc)
  have hlast : ∀ c ∈ cs.reverse.head?, isBlank c = false :=
    fun c hc => hcs c (List.mem_reverse.mp (List.mem_of_head? hc))
  rw [trim, List.append_assoc, dropWhile_isBlank_append hfront hhead, List.reverse_append,
    dropWhile_isBlank_append (by simpa using hback) hlast, List.reverse_reverse]

theorem trimmed_eq_self {s : String} (hs : ∀ c ∈ s.toList, isBlank c = false) (hne : s ≠ "") :
    trimmed s = s := by
  have hnil : s.toList ≠ [] := by simpa using hne
  have h := @trim_append [] s.toList [] (by simp) hs hnil (by simp)
  rw [List.nil_append, List.append_nil] at h
  rw [trimmed, h, String.ofList_toList]

end Text

/-! ## One preset -/

/-- The name of a register that can have a preset. -/
def IsRegisterName (name : String) : Prop :=
  startsWith registerSigil name = true ∧ 2 ≤ Text.byteSize name.toList

instance (name : String) : Decidable (IsRegisterName name) :=
  inferInstanceAs (Decidable (_ ∧ _))

theorem IsRegisterName.flawless {name : String} (h : IsRegisterName name) :
    (!startsWith registerSigil name || Text.byteSize name.toList < 2) = false := by
  obtain ⟨hsigil, hsize⟩ := h
  simp only [hsigil, Bool.not_true, Bool.false_or, decide_eq_false_iff_not]
  omega

/-- A preset that is a word is read as a literal. -/
theorem readPreset_of_word {name text : String} (hname : IsRegisterName name)
    (hne : text ≠ "") (htext : ∀ c ∈ text.toList, Text.isBlank c = false) :
    readPreset name text =
      (readLiteral ⟨text, ⟨0, 0⟩⟩).mapError fun e => ⟨name, .badLiteral e.mistake⟩ := by
  have hsingle : (text.isEmpty || text.toList.any Text.isBlank) = false := by
    simpa [hne] using htext
  rw [readPreset, Text.trimmed_eq_self htext hne]
  simp only [hname.flawless, hsingle, Bool.false_eq_true, if_false]

theorem WritesValue.ne_empty {text : String} {v : Value} (h : WritesValue text v) : text ≠ "" := by
  rintro rfl
  exact not_writesOperand_empty (.literal v) (.literal rfl h)

theorem readPreset_of_writesValue {name text : String} (hname : IsRegisterName name)
    (htext : ∀ c ∈ text.toList, Text.isBlank c = false) {v : Value} (hv : WritesValue text v) :
    readPreset name text = .ok v := by
  have hread : readLiteral ⟨text, ⟨0, 0⟩⟩ = .ok v := WritesValue.readLiteral_eq hv
  rw [readPreset_of_word hname hv.ne_empty htext, hread]
  rfl

/-! ## All presets -/

namespace Settings

variable {s : Settings} {m : Registers}

/-- The registers that the presets of a table make hold what the presets read
as, and nothing else. -/
theorem rel_of_presets (h : s.presets = .ok m) (name : String) :
    Option.Rel (fun text v => readPreset name text = .ok v) s.registers[name]? (m.get? name) := by
  obtain ⟨entries, hentries, rfl⟩ := map_eq_ok_iff.mp h
  have hreads : List.Forall₂ (fun x y => y.1 = x.1 ∧ readPreset x.1 x.2 = .ok y.2)
      s.registers.toList entries := by
    refine (mapM_eq_ok_iff.mp hentries).imp fun x y hxy => ?_
    obtain ⟨v, hv, rfl⟩ := map_eq_ok_iff.mp hxy
    exact ⟨rfl, hv⟩
  have hdistinct : entries.Pairwise fun a b => ¬ compare a.1 b.1 = .eq := by
    have hnames : entries.map Prod.fst = s.registers.toList.map Prod.fst := by
      rw [← List.forall₂_eq_eq_eq, List.forall₂_map_left_iff, List.forall₂_map_right_iff]
      exact hreads.flip.imp fun _ _ hxy => hxy.1
    have hkeys := Std.ExtTreeMap.distinct_keys_toList (t := s.registers)
    rw [← List.pairwise_map (f := Prod.fst) (R := fun a b : String => ¬ compare a b = .eq)] at hkeys
    rwa [← hnames, List.pairwise_map] at hkeys
  cases htext : s.registers[name]? with
  | none =>
    cases hv : (Registers.ofList entries).get? name with
    | none => exact .none
    | some v =>
      obtain ⟨x, hx, hname, -⟩ :=
        exists_of_mem_forall₂ hreads ((Registers.get?_ofList_eq_some_iff hdistinct).mp hv)
      obtain rfl : name = x.1 := hname
      rw [Std.ExtTreeMap.mem_toList_iff_getElem?_eq_some.mp hx] at htext
      cases htext
  | some text =>
    obtain ⟨⟨_, v⟩, hv, rfl, hread⟩ := exists_of_mem_forall₂ hreads.flip
      (Std.ExtTreeMap.mem_toList_iff_getElem?_eq_some.mpr htext)
    rw [(Registers.get?_ofList_eq_some_iff hdistinct).mpr hv]
    exact .some hread

/-- The presets of a table can be used if each of them can be read. -/
theorem exists_presets
    (h : ∀ name text, s.registers[name]? = some text → ∃ v, readPreset name text = .ok v) :
    ∃ m, s.presets = .ok m := by
  have hread : ∀ x ∈ s.registers.toList, ∃ y, (readPreset x.1 x.2).map (x.1, ·) = .ok y := by
    intro x hx
    obtain ⟨v, hv⟩ := h x.1 x.2 (Std.ExtTreeMap.mem_toList_iff_getElem?_eq_some.mp hx)
    exact ⟨_, map_eq_ok_iff.mpr ⟨v, hv, rfl⟩⟩
  obtain ⟨entries, hentries⟩ := exists_forall₂ hread
  exact ⟨_, map_eq_ok_iff.mpr ⟨entries, mapM_eq_ok_iff.mpr hentries, rfl⟩⟩

theorem presets_singleton (s : Settings) (name text : String) :
    { s with registers := (∅ : NameTable String).insert name text }.presets =
      (readPreset name text).map ((∅ : Registers).set name ·) := by
  show (([(name, text)] : List (String × String)).mapM fun x =>
    (readPreset x.1 x.2).map (x.1, ·)).map Registers.ofList = _
  rw [List.mapM_cons]
  cases readPreset name text <;> rfl

end Settings

/-! ## A preset and a move -/

theorem readItems_alike (place place' : Place) (items : List (List Char)) :
    Alike (fun e e' => e'.mistake = e.mistake) Eq (readItems place items)
      (readItems place' items) := by
  cases h : readItems place items with
  | ok xs =>
    rw [readItems_eq_ok_iff.mpr (readItems_eq_ok_iff.mp h)]
    exact .ok rfl
  | error e =>
    obtain ⟨before, item, hfirst, rfl⟩ := readItems_eq_error_iff.mp h
    rw [readItems_eq_error_iff.mpr ⟨before, item, hfirst, rfl⟩]
    exact .error rfl

/-- Where a literal stands does not matter for what it says. -/
theorem readLiteral_alike (text : String) (place place' : Place) :
    Alike (fun e e' => e'.mistake = e.mistake) Eq (readLiteral ⟨text, place⟩)
      (readLiteral ⟨text, place'⟩) := by
  by_cases hl : startsWith labelSigil text = true
  · rw [readLiteral_of_label (t := ⟨text, place⟩) hl, readLiteral_of_label (t := ⟨text, place'⟩) hl]
    exact .ok rfl
  replace hl := Bool.eq_false_iff.mpr hl
  by_cases hs : itemSeparator ∈ text.toList
  · rw [readLiteral_of_separator (t := ⟨text, place⟩) hl hs,
      readLiteral_of_separator (t := ⟨text, place'⟩) hl hs]
    exact (readItems_alike place place' _).map fun _ _ => congrArg Value.array
  by_cases hn : text = "null"
  · rw [readLiteral_of_null (t := ⟨text, place⟩) hn, readLiteral_of_null (t := ⟨text, place'⟩) hn]
    exact .ok rfl
  cases hx : Number.read? text.toList with
  | some x =>
    rw [readLiteral_of_number (t := ⟨text, place⟩) hl hs hx,
      readLiteral_of_number (t := ⟨text, place'⟩) hl hs hx]
    exact .ok rfl
  | none =>
    rw [readLiteral_of_word (t := ⟨text, place⟩) hl hs hn hx,
      readLiteral_of_word (t := ⟨text, place'⟩) hl hs hn hx]
    exact .error rfl

/-- The program that moves a value into a register. -/
def moveProgram (name : String) (v : Value) : Program :=
  ⟨#[⟨.mov, [.literal v, .register name], 0⟩], ∅⟩

theorem readTokens_mov {head t r : Token} (hhead : head.text = "mov")
    (ht : t.isRegister = false) (hr : r.isRegister = true) :
    readTokens [head, t, r] = (readLiteral t).map fun v =>
      .instruction ⟨.mov, [.literal v, .register r.text], head.place.line⟩ := by
  have hl : head.isLabel = false := by
    rw [Token.isLabel, hhead]
    rfl
  have hop : Opcode.ofName? head.text = some .mov := by
    rw [hhead]
    rfl
  have hregister : readOperand r = .ok (.register r.text) := if_pos hr
  have hliteral : readOperand t = (readLiteral t).map .literal := if_neg (by simp [ht])
  rw [readTokens_of_instruction hl]
  cases hv : readLiteral t with
  | error e =>
    rw [hv] at hliteral
    have herror : readInstruction head [t, r] = .error e := by
      rw [readInstruction, hop]
      simp only [mapM_cons_of_error hliteral]
      rfl
    rw [herror]
    rfl
  | ok v =>
    rw [hv] at hliteral
    have hoperands : [t, r].mapM readOperand = .ok [.literal v, .register r.text] :=
      mapM_eq_ok_iff.mpr (.cons hliteral (.cons hregister .nil))
    rw [readInstruction_eq_ok_iff.mpr ⟨.mov, _, hop, hoperands, rfl, rfl, rfl⟩]
    rfl

section Move

variable {name text : String}

theorem toList_mov (name text : String) :
    ("mov " ++ text ++ " " ++ name).toList =
      "mov".toList ++ ([text, name].map String.toList).flatMap fun w => ' ' :: w := by
  simp only [String.toList_append, List.map_cons, List.map_nil, List.flatMap_cons,
    List.flatMap_nil, List.append_assoc, List.append_nil]
  rfl

/-- The script that moves a literal into a register is read as the literal
is. -/
theorem read_mov (hname : startsWith registerSigil name = true)
    (hplain : ∀ c ∈ name.toList, isPlain c = true) (hne : text ≠ "")
    (htext : ∀ c ∈ text.toList, isPlain c = true)
    (hliteral : startsWith registerSigil text = false) :
    ∃ place, Program.read ("mov " ++ text ++ " " ++ name) =
      (readLiteral ⟨text, place⟩).map (moveProgram name) := by
  have hname' : name ≠ "" := by
    rintro rfl
    cases hname
  have hmov : ∀ c ∈ "mov".toList, isPlain c = true := List.all_eq_true.mp (by decide)
  have hwords : ∀ s ∈ [text, name], ∀ c ∈ s.toList, isPlain c = true := by
    simpa using ⟨htext, hplain⟩
  have hkept : [text, name].filter (· != "") = [text, name] :=
    List.filter_eq_self.mpr (by simpa using ⟨hne, hname'⟩)
  have htokens := tokenize_words (toList_mov name text) (by decide) hmov hwords 0
  rw [hkept] at htokens
  obtain ⟨head, rest, htokenize, hhead, hrest⟩ := List.map_eq_cons_iff.mp htokens
  obtain ⟨t, rest', rfl, rfl, hrest'⟩ := List.map_eq_cons_iff.mp hrest
  obtain ⟨r, rest'', rfl, rfl, hrest''⟩ := List.map_eq_cons_iff.mp hrest'
  obtain rfl := List.map_eq_nil_iff.mp hrest''
  have hline : head.place.line = 0 :=
    place_line_of_mem_tokenize head (htokenize ▸ List.mem_cons_self)
  refine ⟨t.place, ?_⟩
  rw [read_eq_readLines, sourceLines_words (toList_mov r.text t.text) hmov hwords, readLines,
    List.zipIdx_singleton, List.mapM_cons, readLine, htokenize,
    readTokens_mov hhead hliteral hname, hline]
  cases readLiteral t <;> rfl

end Move

theorem execute_moveProgram {ρ : Type} [Sampler ρ] (name : String) (v : Value) {limit : Nat}
    (hlimit : 1 ≤ limit) (entry : Option String) (r : Registers) (random : ρ) :
    (moveProgram name v).execute limit entry r random =
      ⟨⟨1, r.set name v, ∅, random⟩, 1, .halted⟩ := by
  have hstart : (moveProgram name v).start entry = 0 := by
    cases entry with
    | none => rfl
    | some l =>
      have hl : (moveProgram name v).label? l = none := Std.ExtTreeMap.getElem?_empty
      rw [Program.start, Option.bind_some, hl]
      rfl
  obtain ⟨n, rfl⟩ := Nat.exists_eq_add_of_le' hlimit
  have hmove : Completes (moveProgram name v) ⟨⟨.mov, [.literal v, .register name], 0⟩,
      .store name v⟩ ((moveProgram name v).boot entry r random) ⟨1, r.set name v, ∅, random⟩ := by
    simp only [Program.boot, hstart]
    exact ⟨rfl, rfl, rfl⟩
  have hend : (moveProgram name v).size ≤
      (⟨1, r.set name v, ∅, random⟩ : Machine ρ).position := Nat.le_refl 1
  rw [Program.execute, hmove.run_succ, run_of_size_le hend]

/-- A preset and the script that moves the same literal into the same register
are both good or both bad. If they are good, then running the script on no
registers, with at least one cycle, leaves the registers that the preset makes;
if they are bad, it is for the same reason. -/
theorem presets_alike_mov {name text : String} (hname : IsRegisterName name)
    (hplain : ∀ c ∈ name.toList, isPlain c = true) (hne : text ≠ "")
    (htext : ∀ c ∈ text.toList, isPlain c = true)
    (hliteral : startsWith registerSigil text = false) (s : Settings) :
    Alike
      (fun (b : BadPreset) (e : SyntaxError) =>
        b.register = name ∧ b.flaw.message = e.mistake.message)
      (fun (m : Registers) (p : Program) =>
        ∀ {ρ : Type} [Sampler ρ] (limit : Nat) (entry : Option String) (random : ρ), 1 ≤ limit →
          let x := p.execute limit entry ∅ random
          x.fault? = none ∧ x.outcome.timeout = false ∧ x.machine.registers = m)
      { s with registers := (∅ : NameTable String).insert name text }.presets
      (Program.read ("mov " ++ text ++ " " ++ name)) := by
  obtain ⟨place, hread⟩ := read_mov hname.1 hplain hne htext hliteral
  rw [hread, Settings.presets_singleton,
    readPreset_of_word hname hne fun c hc => (isPlain_iff.mp (htext c hc)).1]
  have halike := readLiteral_alike text ⟨0, 0⟩ place
  generalize readLiteral ⟨text, ⟨0, 0⟩⟩ = x at halike
  generalize readLiteral ⟨text, place⟩ = y at halike
  cases halike with
  | @ok v w hvw =>
    subst hvw
    refine .ok fun limit entry random hlimit => ?_
    rw [execute_moveProgram name v hlimit]
    exact ⟨rfl, rfl, rfl⟩
  | error he =>
    refine .error ⟨rfl, ?_⟩
    rw [he]
    rfl

/-- A label with a comma and an equals sign in it is good as a preset and in a
script; an array with an empty item and a bad one is neither. -/
theorem presets_alike_mov_commas :
    let presets := fun text =>
      { Settings.standard with registers := (∅ : NameTable String).insert "$é,=" text }.presets
    let r : Registers := (∅ : Registers).set "$é,=" (.label "@a,=")
    presets "@a,=" = .ok r ∧
      (∃ p, Program.read ("mov " ++ "@a,=" ++ " " ++ "$é,=") = .ok p ∧
        (p.execute 1 none ∅ (SplitMix.ofSeed 7)).machine.registers = r) ∧
      presets "1,,x" = .error ⟨"$é,=", .badLiteral (.badItem "x")⟩ ∧
      ∃ e, Program.read ("mov " ++ "1,,x" ++ " " ++ "$é,=") = .error e ∧
        e.mistake.message = "Unexpected array element 'x'" := by
  intro presets r
  have hgood : presets "@a,=" = .ok r := rfl
  have hbad : presets "1,,x" = .error ⟨"$é,=", .badLiteral (.badItem "x")⟩ := rfl
  have hname : IsRegisterName "$é,=" := by decide
  have hplain : ∀ c ∈ "$é,=".toList, isPlain c = true := List.all_eq_true.mp (by decide)
  have hlabel := @presets_alike_mov "$é,=" "@a,=" hname hplain (by decide)
    (List.all_eq_true.mp (by decide)) rfl .standard
  have harray := @presets_alike_mov "$é,=" "1,,x" hname hplain (by decide)
    (List.all_eq_true.mp (by decide)) rfl .standard
  refine ⟨hgood, ?_, hbad, ?_⟩
  · change Alike _ _ (presets "@a,=") _ at hlabel
    rw [hgood] at hlabel
    generalize Program.read _ = answer at hlabel
    cases hlabel with
    | ok hruns => exact ⟨_, rfl, (hruns 1 none (SplitMix.ofSeed 7) (Nat.le_refl 1)).2.2⟩
  · change Alike _ _ (presets "1,,x") _ at harray
    rw [hbad] at harray
    generalize Program.read _ = answer at harray
    cases harray with
    | error he => exact ⟨_, rfl, he.2.symm⟩

end CritterScript
