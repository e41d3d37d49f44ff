import CritterScript.Proofs.Listing
import CritterScript.Proofs.Literals
import CritterScript.Proofs.NameOrder
import Mathlib

/-!
# Where the settings of a run come from

A setting is given by the command line, or else by the settings file. Presets
are written over those of the file one after the other, so that the last
assignment to a name stays (`RunArguments.Overlays`). An assignment is only
split for this: it needs an equals sign, and nothing else (`Assigns`).

The names and texts are looked at when a run that has its settings reads all
presets (`PresetAnswer`). If there are bad ones among them, there are no
registers at all, and the bad one whose name comes first in the order of bytes
is reported (`Settings.FirstBad`).
-/

namespace CritterScript

/-! ## Blank ends -/

namespace Text

/-- `w` is what is left of a text without its blank ends. -/
structure Trims (cs w : List Char) : Prop where
  around : ∃ front back, cs = front ++ w ++ back ∧ (∀ c ∈ front, isBlank c = true) ∧
    ∀ c ∈ back, isBlank c = true
  head : ∀ c ∈ w.head?, isBlank c = false
  last : ∀ c ∈ w.getLast?, isBlank c = false

theorem isBlank_head_dropWhile (cs : List Char) :
    ∀ c ∈ (cs.dropWhile isBlank).head?, isBlank c = false := by
  intro c hc
  have h := List.head?_dropWhile_not isBlank cs
  rwa [Option.mem_def.mp hc] at h

theorem trims_trim (cs : List Char) : Trims cs (trim cs) := by
  have hback : trim cs ++ ((cs.dropWhile isBlank).reverse.takeWhile isBlank).reverse =
      cs.dropWhile isBlank := by
    rw [trim, ← List.reverse_append, List.takeWhile_append_dropWhile, List.reverse_reverse]
  refine ⟨⟨cs.takeWhile isBlank, ((cs.dropWhile isBlank).reverse.takeWhile isBlank).reverse, ?_,
    List.all_eq_true.mp List.all_takeWhile, ?_⟩, ?_, ?_⟩
  · rw [List.append_assoc, hback, List.takeWhile_append_dropWhile]
  · intro c hc
    exact List.all_eq_true.mp List.all_takeWhile c (List.mem_reverse.mp hc)
  · intro c hc
    refine isBlank_head_dropWhile cs c ?_
    rw [← hback, List.head?_append, Option.mem_def.mp hc]
    rfl
  · rw [trim, List.getLast?_reverse]
    exact isBlank_head_dropWhile _

theorem Trims.trim_eq {cs w : List Char} (h : Trims cs w) : trim cs = w := by
  obtain ⟨⟨front, back, rfl, hfront, hback⟩, hhead, hlast⟩ := h
  by_cases hne : w = []
  · subst hne
    have hblank : (front ++ [] ++ back).dropWhile isBlank = [] := by
      rw [List.append_nil, List.dropWhile_append_of_pos hfront]
      exact List.dropWhile_eq_nil_iff.mpr hback
    rw [trim, hblank]
    rfl
  · have hhead' : ∀ c ∈ (w ++ back).head?, isBlank c = false := by
      rwa [List.head?_append_of_ne_nil w hne]
    have hlast' : ∀ c ∈ w.reverse.head?, isBlank c = false := by
      rwa [List.head?_reverse]
    rw [trim, List.append_assoc, dropWhile_isBlank_append hfront hhead', List.reverse_append,
      dropWhile_isBlank_append (by simpa using hback) hlast', List.reverse_reverse]

theorem trims_toList_iff {cs : List Char} {w : String} :
    Trims cs w.toList ↔ String.ofList (trim cs) = w := by
  constructor
  · intro h
    rw [h.trim_eq, String.ofList_toList]
  · rintro rfl
    rw [String.toList_ofList]
    exact trims_trim cs

end Text

/-! ## Assignments -/

/-- An assignment is a name and a text with the first equals sign between them,
and any blank space around the two. -/
def Assigns (assignment name text : String) : Prop :=
  ∃ front back, assignment.toList = front ++ '=' :: back ∧ '=' ∉ front ∧
    Text.Trims front name.toList ∧ Text.Trims back text.toList

theorem exists_assigns {assignment : String} (h : '=' ∈ assignment.toList) :
    ∃ name text, Assigns assignment name text := by
  obtain ⟨front, back, hsplit, hfront⟩ := List.eq_append_cons_of_mem h
  exact ⟨_, _, front, back, hsplit, hfront, Text.trims_toList_iff.mpr rfl,
    Text.trims_toList_iff.mpr rfl⟩

theorem Assigns.mem {assignment name text : String} (h : Assigns assignment name text) :
    '=' ∈ assignment.toList := by
  obtain ⟨front, back, hsplit, -⟩ := h
  rw [hsplit]
  exact List.mem_append_right front List.mem_cons_self

theorem Assigns.preset_eq {assignment name text : String} (h : Assigns assignment name text)
    (s : Settings) :
    s.preset assignment = .ok { s with registers := s.registers.insert name text } := by
  obtain ⟨front, back, hsplit, hfront, hname, htext⟩ := h
  rw [preset_eq_of_split s hsplit fun c hc heq => hfront (heq ▸ hc),
    Text.trims_toList_iff.mp hname, Text.trims_toList_iff.mp htext]

theorem preset_of_notMem {assignment : String} (h : '=' ∉ assignment.toList) (s : Settings) :
    s.preset assignment = .error ⟨assignment, .noAssignment⟩ := by
  have hdrop : assignment.toList.dropWhile (· != '=') = [] := by
    refine List.dropWhile_eq_nil_iff.mpr fun c hc => bne_iff_ne.mpr ?_
    rintro rfl
    exact h hc
  simp only [Settings.preset, hdrop]

/-- Presets are written over those there are, if each of them assigns
something. -/
theorem foldlM_preset_eq_ok_iff {assignments : List String} {s t : Settings} :
    assignments.foldlM Settings.preset s = .ok t ↔
      ∃ entries, List.Forall₂ (fun x (e : String × String) => Assigns x e.1 e.2)
          assignments entries ∧
        { s with registers := s.registers.insertMany entries } = t := by
  induction assignments generalizing s with
  | nil =>
    simp only [List.foldlM_nil, List.forall₂_nil_left_iff, exists_eq_left,
      Std.ExtTreeMap.insertMany_nil]
    exact ⟨Except.ok.inj, congrArg Except.ok⟩
  | cons x rest ih =>
    rw [List.foldlM_cons]
    constructor
    · intro h
      obtain ⟨s', hs', hrest⟩ := bind_eq_ok_iff.mp h
      by_cases hx : '=' ∈ x.toList
      · obtain ⟨name, text, hassigns⟩ := exists_assigns hx
        rw [hassigns.preset_eq] at hs'
        obtain rfl := Except.ok.inj hs'
        obtain ⟨entries, hentries, rfl⟩ := ih.mp hrest
        exact ⟨(name, text) :: entries, .cons hassigns hentries, by
          rw [Std.ExtTreeMap.insertMany_cons]⟩
      · rw [preset_of_notMem hx] at hs'
        cases hs'
    · rintro ⟨_, hentries, rfl⟩
      cases hentries with
      | @cons _ entry _ entries hassigns hentries =>
        rw [hassigns.preset_eq]
        refine ih.mpr ⟨entries, hentries, ?_⟩
        rw [Std.ExtTreeMap.insertMany_cons]

/-- The first assignment without an equals sign is reported. -/
theorem foldlM_preset_eq_error_iff {assignments : List String} {s : Settings} {b : BadPreset} :
    assignments.foldlM Settings.preset s = .error b ↔
      ∃ before x, FirstFailing (fun y : String => '=' ∈ y.toList) assignments before x ∧
        ⟨x, .noAssignment⟩ = b := by
  induction assignments generalizing s with
  | nil =>
    refine iff_of_false (fun h => by cases h) ?_
    rintro ⟨before, x, h, -⟩
    exact not_firstFailing_nil h
  | cons x rest ih =>
    rw [List.foldlM_cons]
    by_cases hx : '=' ∈ x.toList
    · obtain ⟨name, text, hassigns⟩ := exists_assigns hx
      rw [hassigns.preset_eq, exists_firstFailing_cons_of_passed
        (P := fun y : String => '=' ∈ y.toList) hx (Q := fun _ y => ⟨y, .noAssignment⟩ = b)]
      exact ih
    · rw [preset_of_notMem hx, exists_firstFailing_cons_of_failed
        (P := fun y : String => '=' ∈ y.toList) hx (Q := fun _ y => ⟨y, .noAssignment⟩ = b)]
      exact ⟨Except.error.inj, congrArg Except.error⟩

/-! ## The settings of a run -/

/-- The command line has its say, or the file where the command line is
silent. -/
inductive Overrides {α : Type} : Option α → α → α → Prop
  | given (x file : α) : Overrides (some x) file x
  | silent (file : α) : Overrides none file file

theorem overrides_iff {α : Type} {flag : Option α} {file x : α} :
    Overrides flag file x ↔ flag.getD file = x := by
  constructor
  · intro h
    cases h <;> rfl
  · rintro rfl
    cases flag with
    | none => exact .silent file
    | some x => exact .given x file

namespace RunArguments

/-- The settings `t` are `s` with those of the command line over them, where
`entries` are what the presets assign. -/
structure Overlays (a : RunArguments) (s : Settings) (entries : List (String × String))
    (t : Settings) : Prop where
  cycleLimit : Overrides a.cycles s.cycleLimit t.cycleLimit
  ticks : Overrides a.ticks s.ticks t.ticks
  entry : Overrides (a.entry.map some) s.entry t.entry
  seed : Overrides (a.seed.map some) s.seed t.seed
  /-- The last entry for a name counts. -/
  registers (name : String) :
    t.registers[name]? = (entries.reverse.lookup name).or s.registers[name]?

variable {a : RunArguments} {read : SettingsReader} {files : Files} {s t : Settings}

theorem overlays_iff {entries : List (String × String)} :
    a.Overlays s entries t ↔
      { a.override s with registers := s.registers.insertMany entries } = t := by
  have hor : ∀ {α : Type} (x y : Option α), (x.map some).getD y = x.or y := by
    intro α x y
    cases x <;> rfl
  constructor
  · rintro ⟨hcycles, hticks, hentry, hseed, hregisters⟩
    have htable : s.registers.insertMany entries = t.registers :=
      Std.ExtTreeMap.ext_getElem? fun {name} => by rw [getElem?_insertMany, hregisters]
    rw [overrides_iff] at hcycles hticks hentry hseed
    rw [hor] at hentry hseed
    rw [override, hcycles, hticks, hentry, hseed, htable]
  · rintro rfl
    refine ⟨overrides_iff.mpr rfl, overrides_iff.mpr rfl, overrides_iff.mpr (hor _ _),
      overrides_iff.mpr (hor _ _), getElem?_insertMany _ _⟩

theorem settings_of_file (h : a.fileSettings read files = .ok s) :
    a.settings read files = (a.presets.foldlM Settings.preset (a.override s)).mapError .badPreset := by
  rw [settings, h]
  rfl

theorem settings_eq_ok_iff (h : a.fileSettings read files = .ok s) :
    a.settings read files = .ok t ↔
      ∃ entries, List.Forall₂ (fun x (e : String × String) => Assigns x e.1 e.2) a.presets entries ∧
        a.Overlays s entries t := by
  rw [settings_of_file h, mapError_eq_ok_iff, foldlM_preset_eq_ok_iff]
  simp only [overlays_iff]
  rfl

theorem exists_settings_iff (h : a.fileSettings read files = .ok s) :
    (∃ t, a.settings read files = .ok t) ↔ ∀ x ∈ a.presets, '=' ∈ x.toList := by
  simp only [settings_eq_ok_iff h]
  constructor
  · rintro ⟨t, entries, hentries, -⟩ x hx
    obtain ⟨e, -, hassigns⟩ := exists_of_mem_forall₂ hentries.flip hx
    exact Assigns.mem hassigns
  · intro hmem
    have hassigns : ∀ x ∈ a.presets, ∃ e : String × String, Assigns x e.1 e.2 := by
      intro x hx
      obtain ⟨name, text, hx⟩ := exists_assigns (hmem x hx)
      exact ⟨(name, text), hx⟩
    obtain ⟨entries, hentries⟩ := exists_forall₂ hassigns
    exact ⟨_, entries, hentries, overlays_iff.mpr rfl⟩

theorem settings_eq_error_iff (h : a.fileSettings read files = .ok s) {e : SettingsError} :
    a.settings read files = .error e ↔
      ∃ before x, FirstFailing (fun y : String => '=' ∈ y.toList) a.presets before x ∧
        .badPreset ⟨x, .noAssignment⟩ = e := by
  rw [settings_of_file h, mapError_eq_error_iff]
  simp only [foldlM_preset_eq_error_iff]
  constructor
  · rintro ⟨b, ⟨before, x, hfirst, rfl⟩, rfl⟩
    exact ⟨before, x, hfirst, rfl⟩
  · rintro ⟨before, x, hfirst, rfl⟩
    exact ⟨_, ⟨before, x, hfirst, rfl⟩, rfl⟩

end RunArguments

/-! ## What a preset says -/

/-- A text that is not empty and has no blank in it. -/
def IsWord (w : String) : Prop :=
  w ≠ "" ∧ ∀ c ∈ w.toList, Text.isBlank c = false

/-- What there is to say to a preset: its name is checked first, and then its
text, which must be a literal apart from blank ends. -/
inductive PresetAnswer (name text : String) : Except BadPreset Value → Prop
  | badName : ¬ IsRegisterName name → PresetAnswer name text (.error ⟨name, .badName⟩)
  | notSingle {w : String} :
    IsRegisterName name → Text.Trims text.toList w.toList → ¬ IsWord w →
    PresetAnswer name text (.error ⟨name, .notSingle w⟩)
  | badLiteral {w : String} {e : SyntaxError} :
    IsRegisterName name → Text.Trims text.toList w.toList → IsWord w →
    LiteralAnswer ⟨w, ⟨0, 0⟩⟩ (.error e) →
    PresetAnswer name text (.error ⟨name, .badLiteral e.mistake⟩)
  | value {w : String} {v : Value} :
    IsRegisterName name → Text.Trims text.toList w.toList → IsWord w →
    LiteralAnswer ⟨w, ⟨0, 0⟩⟩ (.ok v) → PresetAnswer name text (.ok v)

section PresetAnswer

variable {name text w : String}

theorem readPreset_of_badName (h : ¬ IsRegisterName name) (text : String) :
    readPreset name text = .error ⟨name, .badName⟩ := by
  have hflawed : (!startsWith registerSigil name || Text.byteSize name.toList < 2) = true := by
    rw [IsRegisterName, not_and_or] at h
    rcases h with h | h
    · rw [Bool.eq_false_iff.mpr h]
      rfl
    · rw [decide_eq_true (by omega), Bool.or_true]
  rw [readPreset, if_pos hflawed]

/-- Blank ends are not part of a preset. -/
theorem readPreset_congr {text' : String} (h : Text.trimmed text = Text.trimmed text') :
    readPreset name text = readPreset name text' := by
  rw [readPreset, readPreset, h]

theorem readPreset_of_notSingle (hname : IsRegisterName name)
    (htext : Text.trimmed text = w) (hw : ¬ IsWord w) :
    readPreset name text = .error ⟨name, .notSingle w⟩ := by
  have hflawed : (w.isEmpty || w.toList.any Text.isBlank) = true := by
    by_contra hflawless
    refine hw ?_
    simpa [IsWord] using hflawless
  rw [readPreset, htext]
  simp only [hname.flawless, hflawed, Bool.false_eq_true, if_false, if_true]

theorem readPreset_of_isWord (hname : IsRegisterName name) (htext : Text.trimmed text = w)
    (hw : IsWord w) : readPreset name text =
      (readLiteral ⟨w, ⟨0, 0⟩⟩).mapError fun e => ⟨name, .badLiteral e.mistake⟩ := by
  rw [← readPreset_of_word hname hw.1 hw.2]
  exact readPreset_congr (htext.trans (Text.trimmed_eq_self hw.2 hw.1).symm)

theorem PresetAnswer.readPreset_eq {answer : Except BadPreset Value}
    (h : PresetAnswer name text answer) : readPreset name text = answer := by
  cases h with
  | badName hname => exact readPreset_of_badName hname text
  | notSingle hname htext hw =>
    exact readPreset_of_notSingle hname (Text.trims_toList_iff.mp htext) hw
  | badLiteral hname htext hw hliteral =>
    rw [readPreset_of_isWord hname (Text.trims_toList_iff.mp htext) hw, hliteral.readLiteral_eq]
    rfl
  | value hname htext hw hliteral =>
    rw [readPreset_of_isWord hname (Text.trims_toList_iff.mp htext) hw, hliteral.readLiteral_eq]
    rfl

theorem exists_presetAnswer (name text : String) : ∃ answer, PresetAnswer name text answer := by
  by_cases hname : IsRegisterName name
  · have htext : Text.Trims text.toList (Text.trimmed text).toList :=
      Text.trims_toList_iff.mpr rfl
    by_cases hw : IsWord (Text.trimmed text)
    · obtain ⟨answer, hliteral⟩ := exists_literalAnswer ⟨Text.trimmed text, ⟨0, 0⟩⟩
      cases answer with
      | error e => exact ⟨_, .badLiteral hname htext hw hliteral⟩
      | ok v => exact ⟨_, .value hname htext hw hliteral⟩
    · exact ⟨_, .notSingle hname htext hw⟩
  · exact ⟨_, .badName hname⟩

theorem readPreset_eq_iff {answer : Except BadPreset Value} :
    readPreset name text = answer ↔ PresetAnswer name text answer := by
  refine ⟨?_, PresetAnswer.readPreset_eq⟩
  rintro rfl
  obtain ⟨answer, h⟩ := exists_presetAnswer name text
  rwa [h.readPreset_eq]

theorem PresetAnswer.register_eq {b : BadPreset} (h : PresetAnswer name text (.error b)) :
    b.register = name := by
  cases h <;> rfl

end PresetAnswer

/-! ## All presets or none -/

namespace Settings

variable {s : Settings}

/-- Registers that hold what the presets read as show that each can be
read. -/
theorem exists_value_of_rel {m : Registers}
    (h : ∀ name, Option.Rel (fun text v => readPreset name text = .ok v)
      s.registers[name]? (m.get? name))
    {name text : String} (htext : s.registers[name]? = some text) :
    ∃ v, readPreset name text = .ok v := by
  have hrel := h name
  rw [htext] at hrel
  generalize m.get? name = answer at hrel
  cases hrel with
  | some hread => exact ⟨_, hread⟩

/-- The preset is bad, and no bad one has a name with lesser bytes. -/
structure FirstBad (s : Settings) (b : BadPreset) : Prop where
  bad : ∃ text, s.registers[b.register]? = some text ∧ PresetAnswer b.register text (.error b)
  first (name text : String) (other : BadPreset) : s.registers[name]? = some text →
    PresetAnswer name text (.error other) →
    name = b.register ∨ nameBytes b.register < nameBytes name

theorem FirstBad.eq {b b' : BadPreset} (h : s.FirstBad b) (h' : s.FirstBad b') : b = b' := by
  obtain ⟨text, htext, hbad⟩ := h.bad
  obtain ⟨text', htext', hbad'⟩ := h'.bad
  have hname : b'.register = b.register := by
    rcases h.first _ _ _ htext' hbad' with heq | hlt
    · exact heq
    rcases h'.first _ _ _ htext hbad with heq | hgt
    · exact heq.symm
    · exact absurd hgt (List.lt_asymm hlt)
  rw [hname] at htext' hbad'
  obtain rfl : text = text' := Option.some_inj.mp (htext.symm.trans htext')
  exact Except.error.inj (hbad.readPreset_eq.symm.trans hbad'.readPreset_eq)

/-- Presets are read in the order of their names' bytes, up to the first bad
one. -/
theorem firstBad_of_presets {b : BadPreset} (h : s.presets = .error b) : s.FirstBad b := by
  obtain ⟨before, ⟨name, text⟩, hfirst, hbad⟩ := mapM_eq_error_iff.mp (map_eq_error_iff.mp h)
  have hanswer : PresetAnswer name text (.error b) :=
    readPreset_eq_iff.mp (map_eq_error_iff.mp hbad)
  obtain rfl : b.register = name := hanswer.register_eq
  refine ⟨⟨text, Std.ExtTreeMap.mem_toList_iff_getElem?_eq_some.mp hfirst.mem, hanswer⟩, ?_⟩
  intro name text' other htext' hother
  obtain ⟨after, hsplit⟩ := hfirst.front
  have hmem : (name, text') ∈ s.registers.toList :=
    Std.ExtTreeMap.mem_toList_iff_getElem?_eq_some.mpr htext'
  have hordered := pairwise_nameBytes_toList s.registers
  rw [← hsplit, List.append_assoc, List.mem_append] at hmem
  rw [← hsplit, List.append_assoc, List.pairwise_append] at hordered
  rcases hmem with hbefore | hmem
  · obtain ⟨entry, hentry⟩ := hfirst.passed _ hbefore
    obtain ⟨v, hv, -⟩ := map_eq_ok_iff.mp hentry
    cases hother.readPreset_eq.symm.trans hv
  rcases List.mem_cons.mp hmem with heq | hafter
  · exact .inl (congrArg Prod.fst heq)
  · exact .inr ((List.pairwise_cons.mp hordered.2.1).1 _ hafter)

theorem exists_presets_iff :
    (∃ m, s.presets = .ok m) ↔
      ∀ name text, s.registers[name]? = some text → ∃ v, PresetAnswer name text (.ok v) := by
  simp only [← readPreset_eq_iff]
  refine ⟨?_, exists_presets⟩
  rintro ⟨m, hm⟩ name text htext
  exact exists_value_of_rel (rel_of_presets hm) htext

theorem presets_eq_error_iff {b : BadPreset} : s.presets = .error b ↔ s.FirstBad b := by
  refine ⟨firstBad_of_presets, fun h => ?_⟩
  cases hpresets : s.presets with
  | error b' => rw [h.eq (firstBad_of_presets hpresets)]
  | ok m =>
    obtain ⟨text, htext, hbad⟩ := h.bad
    obtain ⟨v, hv⟩ := exists_presets_iff.mp ⟨m, hpresets⟩ _ _ htext
    cases hbad.readPreset_eq.symm.trans hv.readPreset_eq

/-- The registers have just the names of the table. -/
theorem presets_eq_ok_iff {m : Registers} :
    s.presets = .ok m ↔ ∀ name,
      Option.Rel (fun text v => PresetAnswer name text (.ok v)) s.registers[name]? (m.get? name) := by
  simp only [← readPreset_eq_iff]
  refine ⟨rel_of_presets, fun h => ?_⟩
  obtain ⟨m', hm'⟩ := exists_presets fun name text htext => exists_value_of_rel h htext
  rw [hm']
  congr 1
  refine Registers.ext fun name => ?_
  have hrel := h name
  have hrel' := rel_of_presets hm' name
  generalize m.get? name = answer at hrel
  generalize m'.get? name = answer' at hrel'
  generalize s.registers[name]? = entry at hrel hrel'
  cases hrel with
  | none =>
    cases hrel'
    rfl
  | some hread =>
    cases hrel' with
    | some hread' => rw [Except.ok.inj (hread.symm.trans hread')]

end Settings

/-- However the file is read, settings of the command line count before its own,
and of several assignments to a register the last one does; only an assignment
without an equals sign is an error here, and the first such is reported. Presets
then make registers if all of them are good, and no others; or else the bad one
with the least name is reported. -/
theorem settings_and_registers_of_run (a : RunArguments) (read : SettingsReader) (files : Files) :
    (∀ e, a.fileSettings read files = .error e → a.settings read files = .error e) ∧
      (∀ s, a.fileSettings read files = .ok s →
        ((∃ t, a.settings read files = .ok t) ↔ ∀ x ∈ a.presets, '=' ∈ x.toList) ∧
          (∀ t, a.settings read files = .ok t ↔
            ∃ entries, List.Forall₂ (fun x (e : String × String) => Assigns x e.1 e.2)
                a.presets entries ∧
              a.Overlays s entries t) ∧
          ∀ e, a.settings read files = .error e ↔
            ∃ before x, FirstFailing (fun y : String => '=' ∈ y.toList) a.presets before x ∧
              .badPreset ⟨x, .noAssignment⟩ = e) ∧
      ∀ t : Settings,
        ((∃ m, t.presets = .ok m) ↔
          ∀ name text, t.registers[name]? = some text → ∃ v, PresetAnswer name text (.ok v)) ∧
          (∀ m, t.presets = .ok m ↔ ∀ name,
            Option.Rel (fun text v => PresetAnswer name text (.ok v))
              t.registers[name]? (m.get? name)) ∧
          ∀ b, t.presets = .error b ↔ t.FirstBad b := by
  refine ⟨?_, ?_, fun t => ⟨Settings.exists_presets_iff, fun m => Settings.presets_eq_ok_iff,
    fun b => Settings.presets_eq_error_iff⟩⟩
  · intro e he
    rw [RunArguments.settings, he]
    rfl
  · intro s hs
    exact ⟨RunArguments.exists_settings_iff hs, fun t => RunArguments.settings_eq_ok_iff hs,
      fun e => RunArguments.settings_eq_error_iff hs⟩

/-- A register is assigned twice, and one that the file gives as well; of the
presets, two are bad. -/
theorem settings_and_registers_of_run_twice :
    let files : Files := fun _ => .ok "ticks = 3\n[registers]\n\"$y\" = \"9\"\n\"$z\" = \"4 4\""
    let a : RunArguments :=
      ⟨"a.cr", some "c.toml", some 5, none, none, none, [" $x = 1 2=3 ", "$y=", "$x=@a"]⟩
    let s : Settings :=
      ⟨1000, 3, none, none, ((∅ : NameTable String).insert "$y" "9").insert "$z" "4 4"⟩
    let t : Settings := { s with
      cycleLimit := 5
      registers := ((s.registers.insert "$x" "1 2=3").insert "$y" "").insert "$x" "@a" }
    let b : BadPreset := ⟨"$y", .notSingle ""⟩
    a.fileSettings Settings.ofFile? files = .ok s ∧ a.settings Settings.ofFile? files = .ok t ∧
      (∃ entries, List.Forall₂ (fun x (e : String × String) => Assigns x e.1 e.2)
          a.presets entries ∧
        a.Overlays s entries t) ∧
      t.presets = .error b ∧ t.FirstBad b := by
  intro files a s t b
  have hfile : a.fileSettings Settings.ofFile? files = .ok s := rfl
  have hsettings : a.settings Settings.ofFile? files = .ok t := rfl
  have hpresets : t.presets = .error b := rfl
  obtain ⟨-, hruns, hreads⟩ := settings_and_registers_of_run a Settings.ofFile? files
  exact ⟨hfile, hsettings, ((hruns s hfile).2.1 t).mp hsettings, hpresets,
    ((hreads t).2.2 b).mp hpresets⟩

end CritterScript
