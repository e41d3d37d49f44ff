import CritterScript.Command.Report
import CritterScript.Proofs.Presets
import Mathlib

/-!
# Listings read back

At the end of a run the registers are listed, a line for each
(`registerLine`). Such a line is also an assignment: what stands in front of
its first equals sign is the name of the register, and what stands behind is a
literal for its value (`preset_registerLine`). So the lines of a listing, given
as presets, make the registers again, up to the equality that scripts see
(`presets_of_listing`), as long as every value has a literal and no name has an
equals sign in it (`Registers.Restorable`).
-/

namespace CritterScript

/-! ## Values -/

/-- The text of the value is a word that reads as a literal for it. -/
def Value.Restorable : Value → Prop
  | .null => True
  | .number x => x.isFinite = true
  | .label name => startsWith labelSigil name = true ∧ ∀ c ∈ name.toList, Text.isBlank c = false
  | .array items => 2 ≤ items.length ∧ ∀ x ∈ items, x.isFinite = true

instance : (v : Value) → Decidable v.Restorable
  | .null => inferInstanceAs (Decidable True)
  | .number _ => inferInstanceAs (Decidable (_ = _))
  | .label name =>
    decidable_of_iff (startsWith labelSigil name = true ∧ name.toList.all (! Text.isBlank ·) = true)
      (by simp [Value.Restorable])
  | .array _ => inferInstanceAs (Decidable (_ ∧ _))

theorem not_nan_not_inf_of_isFinite {x : Float} (h : x.isFinite = true) :
    x.isNaN = false ∧ x.isInf = false := by
  show x.toModel.unpack.isNaN = false ∧ x.toModel.unpack.isInf = false
  have hfinite : x.toModel.unpack.isFinite = true := h
  generalize x.toModel.unpack = u at hfinite ⊢
  cases u with
  | notANumber => cases hfinite
  | infinity => cases hfinite
  | zero => exact ⟨rfl, rfl⟩
  | finite => exact ⟨rfl, rfl⟩

namespace Value.Restorable

variable {v : Value}

/-- The text of the value is a literal for an equal one. -/
theorem exists_writesValue (h : v.Restorable) :
    ∃ w, WritesValue v.text w ∧ (v == w) = true := by
  cases v with
  | null => exact ⟨.null, .null, rfl⟩
  | number x =>
    obtain ⟨hnan, hinf⟩ := not_nan_not_inf_of_isFinite h
    obtain ⟨y, hy, hxy⟩ := exists_writesValue_number hnan hinf
    exact ⟨.number y, hy, hxy⟩
  | label name => exact ⟨.label name, .label h.1, beq_self_eq_true name⟩
  | array items =>
    have hfinite := fun x hx => not_nan_not_inf_of_isFinite (h.2 x hx)
    obtain ⟨ys, hys, heq⟩ :=
      exists_writesValue_array h.1 (fun x hx => (hfinite x hx).1) fun x hx => (hfinite x hx).2
    exact ⟨.array ys, hys, heq⟩

theorem text_ne_empty (h : v.Restorable) : v.text ≠ "" := by
  obtain ⟨w, hw, -⟩ := h.exists_writesValue
  exact hw.ne_empty

theorem isBlank_text (h : v.Restorable) : ∀ c ∈ v.text.toList, Text.isBlank c = false := by
  cases v with
  | null =>
    intro c hc
    have hplain : "null".toList.all isPlain = true := by decide
    exact (isPlain_iff.mp (List.all_eq_true.mp hplain c hc)).1
  | number x => exact fun c hc => (isPlain_iff.mp ((literalWord_number x).plain c hc)).1
  | label name => exact h.2
  | array items => exact fun c hc => (isPlain_iff.mp ((literalWord_array items).plain c hc)).1

end Value.Restorable

/-! ## Lines -/

/-- The line that lists a register. -/
def registerLine (name : String) (v : Value) : String :=
  s!"  {name} = {v.text}"

/-- The name of a register that can be told from the rest of its line. -/
def IsListedName (name : String) : Prop :=
  IsRegisterName name ∧ ∀ c ∈ name.toList, Text.isBlank c = false ∧ c ≠ '='

instance (name : String) : Decidable (IsListedName name) :=
  decidable_of_iff
    (IsRegisterName name ∧ name.toList.all (fun c => ! Text.isBlank c && c != '=') = true)
    (by simp [IsListedName])

theorem toList_registerLine (name : String) (v : Value) :
    (registerLine name v).toList =
      ([' ', ' '] ++ name.toList ++ [' ']) ++ '=' :: ([' '] ++ v.text.toList) := by
  simp [registerLine, toString]

/-- An assignment is split at its first equals sign. -/
theorem preset_eq_of_split (s : Settings) {assignment : String} {front back : List Char}
    (h : assignment.toList = front ++ '=' :: back) (hfront : ∀ c ∈ front, c ≠ '=') :
    s.preset assignment = .ok { s with
      registers := s.registers.insert (.ofList (Text.trim front)) (.ofList (Text.trim back)) } := by
  have hbefore : ∀ c ∈ front, (c != '=') = true := fun c hc => bne_iff_ne.mpr (hfront c hc)
  have htake : assignment.toList.takeWhile (· != '=') = front := by
    rw [h, List.takeWhile_append_of_pos hbefore, List.takeWhile_cons_of_neg (by decide),
      List.append_nil]
  have hdrop : assignment.toList.dropWhile (· != '=') = '=' :: back := by
    rw [h, List.dropWhile_append_of_pos hbefore, List.dropWhile_cons_of_neg (by decide)]
  simp only [Settings.preset, hdrop, htake]

/-- The line of a register is a preset for it. -/
theorem preset_registerLine (s : Settings) {name : String} {v : Value} (hname : IsListedName name)
    (hv : v.Restorable) :
    s.preset (registerLine name v) =
      .ok { s with registers := s.registers.insert name v.text } := by
  -- The first equals sign is the one behind the name; a label may have more.
  have hfront : ∀ c ∈ [' ', ' '] ++ name.toList ++ [' '], c ≠ '=' := by
    intro c hc
    simp only [List.mem_append, List.mem_cons, List.not_mem_nil, or_false] at hc
    obtain ((rfl | rfl) | hc) | rfl := hc
    · decide
    · decide
    · exact (hname.2 c hc).2
    · decide
  have hblank : Text.isBlank ' ' = true := by decide
  have hnameNil : name.toList ≠ [] := by
    intro hnil
    have hsize := hname.1.2
    rw [hnil] at hsize
    exact absurd hsize (by decide)
  have htrimName : Text.trim ([' ', ' '] ++ name.toList ++ [' ']) = name.toList :=
    Text.trim_append (by simp [hblank]) (fun c hc => (hname.2 c hc).1) hnameNil (by simp [hblank])
  have htextNil : v.text.toList ≠ [] := by simpa using hv.text_ne_empty
  have htrimText : Text.trim ([' '] ++ v.text.toList) = v.text.toList := by
    have h := @Text.trim_append [' '] _ [] (by simp [hblank]) hv.isBlank_text htextNil (by simp)
    rwa [List.append_nil] at h
  rw [preset_eq_of_split s (toList_registerLine name v) hfront, htrimName, htrimText,
    String.ofList_toList, String.ofList_toList]

/-- Lines of registers are presets for all of them. -/
theorem foldlM_preset_registerLine (s : Settings) {entries : List (String × Value)}
    (h : ∀ e ∈ entries, IsListedName e.1 ∧ e.2.Restorable) :
    (entries.map fun e => registerLine e.1 e.2).foldlM Settings.preset s =
      .ok { s with
        registers := s.registers.insertMany (entries.map fun e => (e.1, e.2.text)) } := by
  induction entries generalizing s with
  | nil =>
    rw [List.map_nil, List.foldlM_nil, List.map_nil, Std.ExtTreeMap.insertMany_nil]
    rfl
  | cons e entries ih =>
    obtain ⟨hname, hv⟩ := h e List.mem_cons_self
    have hrest : ∀ e ∈ entries, IsListedName e.1 ∧ e.2.Restorable :=
      fun e he => h e (List.mem_cons_of_mem _ he)
    rw [List.map_cons, List.foldlM_cons, preset_registerLine s hname hv, List.map_cons,
      Std.ExtTreeMap.insertMany_cons]
    exact ih _ hrest

/-- The line of a register is a single one. -/
theorem notMem_registerLine {name : String} {v : Value} (hname : IsListedName name)
    (hv : v.Restorable) {c : Char} (hc : Text.isBlank c = true) (hspace : c ≠ ' ') :
    c ∉ (registerLine name v).toList := by
  have hequals : c ≠ '=' := by
    rintro rfl
    exact absurd hc (by decide)
  have hnameMem : c ∉ name.toList := by
    intro hmem
    rw [(hname.2 c hmem).1] at hc
    cases hc
  have htextMem : c ∉ v.text.toList := by
    intro hmem
    rw [hv.isBlank_text c hmem] at hc
    cases hc
  simp [toList_registerLine, hspace, hequals, hnameMem, htextMem]

/-! ## Listings -/

/-- Lines that all have a line end are those between line ends, and an empty
one. -/
theorem intercalate_lines (head : String) (texts : List String) :
    String.intercalate "\n" (head :: (texts ++ [""])) =
      head ++ "\n" ++ String.join (texts.map (· ++ "\n")) := by
  induction texts generalizing head with
  | nil => simp [String.intercalate_cons_cons]
  | cons text texts ih =>
    rw [List.cons_append, String.intercalate_cons_cons, ih, List.map_cons, String.join_cons]

namespace Registers

variable {r : Registers}

/-- The lines of the registers, without the one above them. -/
def listing (r : Registers) : List String :=
  r.toList.map fun e => registerLine e.1 e.2

/-- Every register has a line that can be read back. -/
def Restorable (r : Registers) : Prop :=
  ∀ name v, r.get? name = some v → IsListedName name ∧ v.Restorable

theorem mem_toList_iff {e : String × Value} : e ∈ r.toList ↔ r.get? e.1 = some e.2 :=
  Std.ExtTreeMap.mem_toList_iff_getElem?_eq_some

/-- A list of lines in any order is that of the entries in some order. -/
theorem exists_entries {lines : List String} (h : lines.Perm r.listing) :
    ∃ entries : List (String × Value), entries.Perm r.toList ∧
      lines = entries.map fun e => registerLine e.1 e.2 := by
  have hlisting : List.Forall₂ (fun line e => line = registerLine e.1 e.2) r.listing r.toList := by
    rw [listing, List.forall₂_map_left_iff]
    exact List.forall₂_same.mpr fun _ _ => rfl
  obtain ⟨entries, hlines, hperm⟩ := List.perm_comp_forall₂ h hlisting
  refine ⟨entries, hperm, ?_⟩
  rwa [← List.forall₂_eq_eq_eq, List.forall₂_map_right_iff]

/-- The entries of a table, put into another one in any order. -/
theorem getElem?_insertMany_texts {entries : List (String × Value)}
    (h : entries.Perm r.toList) (name : String) :
    ((∅ : NameTable String).insertMany (entries.map fun e => (e.1, e.2.text)))[name]? =
      (r.get? name).map Value.text := by
  have hkeys : entries.Pairwise fun a b => ¬ compare a.1 b.1 = .eq :=
    (h.pairwise_iff fun hab hba => hab (Std.OrientedCmp.eq_symm hba)).mpr
      Std.ExtTreeMap.distinct_keys_toList
  have hdistinct : (entries.map fun e => (e.1, e.2.text)).Pairwise
      fun a b => ¬ compare a.1 b.1 = .eq :=
    List.pairwise_map.mpr hkeys
  refine Option.ext fun text => ?_
  rw [getElem?_insertMany_eq_some_iff hdistinct, List.mem_map, Option.map_eq_some_iff]
  constructor
  · rintro ⟨⟨_, v⟩, he, heq⟩
    cases heq
    exact ⟨v, mem_toList_iff.mp (h.mem_iff.mp he), rfl⟩
  · rintro ⟨v, hv, rfl⟩
    exact ⟨(name, v), h.mem_iff.mpr (mem_toList_iff.mpr hv), rfl⟩

/-- What is listed is a title and the lines of the registers. -/
theorem sourceLines_lines (h : r.Restorable) :
    sourceLines r.lines = "registers:" :: (r.listing ++ [""]) := by
  have hlines : r.lines = String.intercalate "\n" ("registers:" :: (r.listing ++ [""])) := by
    rw [intercalate_lines, listing, List.map_map]
    rfl
  rw [hlines]
  refine sourceLines_intercalate (List.cons_ne_nil _ _) fun line hline => ?_
  rw [List.mem_cons, List.mem_append, List.mem_singleton] at hline
  obtain rfl | hline | rfl := hline
  · decide
  · obtain ⟨e, he, rfl⟩ := List.mem_map.mp hline
    obtain ⟨hname, hv⟩ := h e.1 e.2 (mem_toList_iff.mp he)
    exact ⟨notMem_registerLine hname hv (by decide) (by decide),
      notMem_registerLine hname hv (by decide) (by decide)⟩
  · decide

/-- Presets with the texts of the values make registers that hold equal ones. -/
theorem Restorable.exists_presets (h : r.Restorable) {s : Settings}
    (hs : ∀ name, s.registers[name]? = (r.get? name).map Value.text) :
    ∃ m, s.presets = .ok m ∧
      ∀ name, Option.Rel (fun v w => (v == w) = true) (r.get? name) (m.get? name) := by
  have hread : ∀ {name v}, r.get? name = some v →
      ∃ w, readPreset name v.text = .ok w ∧ (v == w) = true := by
    intro name v hv
    obtain ⟨hname, hrest⟩ := h name v hv
    obtain ⟨w, hw, heq⟩ := hrest.exists_writesValue
    exact ⟨w, readPreset_of_writesValue hname.1 hrest.isBlank_text hw, heq⟩
  have hall : ∀ name text, s.registers[name]? = some text →
      ∃ w, readPreset name text = .ok w := by
    intro name text htext
    rw [hs] at htext
    obtain ⟨v, hv, rfl⟩ := Option.map_eq_some_iff.mp htext
    obtain ⟨w, hw, -⟩ := hread hv
    exact ⟨w, hw⟩
  obtain ⟨m, hm⟩ := Settings.exists_presets hall
  refine ⟨m, hm, fun name => ?_⟩
  have hrel := Settings.rel_of_presets hm name
  rw [hs] at hrel
  generalize m.get? name = held at hrel ⊢
  cases hv : r.get? name with
  | none =>
    rw [hv] at hrel
    cases hrel with
    | none => exact .none
  | some v =>
    obtain ⟨w, hw, heq⟩ := hread hv
    rw [hv] at hrel
    cases hrel with
    | some hw' =>
      rw [hw] at hw'
      cases hw'
      exact .some heq

end Registers

/-- A listing can be read back: the lines of the registers, as presets given in
any order, make registers that hold equal values. -/
theorem presets_of_listing {r : Registers} (h : r.Restorable) :
    sourceLines r.lines = "registers:" :: (r.listing ++ [""]) ∧
      ∀ (s : Settings) (lines : List String), lines.Perm r.listing →
        ∃ table m,
          lines.foldlM Settings.preset { s with registers := ∅ } =
            .ok { s with registers := table } ∧
          { s with registers := table }.presets = .ok m ∧
          ∀ name, Option.Rel (fun v w => (v == w) = true) (r.get? name) (m.get? name) := by
  refine ⟨Registers.sourceLines_lines h, fun s lines hlines => ?_⟩
  obtain ⟨entries, hperm, rfl⟩ := Registers.exists_entries hlines
  have hentries : ∀ e ∈ entries, IsListedName e.1 ∧ e.2.Restorable :=
    fun e he => h e.1 e.2 (Registers.mem_toList_iff.mp (hperm.mem_iff.mp he))
  have hfold := foldlM_preset_registerLine { s with registers := ∅ } hentries
  obtain ⟨m, hm, hrel⟩ := @Registers.Restorable.exists_presets r h
    { s with registers := (∅ : NameTable String).insertMany _ }
    (Registers.getElem?_insertMany_texts hperm)
  exact ⟨_, m, hfold, hm, hrel⟩

theorem presets_of_listing_reversed :
    let entries : List (String × Value) :=
      [("$a", .number (-0.0)), ("$b", .label "@x=1,2"), ("$c", .array [0.5, -3]), ("$d", .null)]
    let r := Registers.ofList entries
    r.Restorable ∧
      r.listing = ["  $a = 0", "  $b = @x=1,2", "  $c = 0.5,-3", "  $d = null"] ∧
      ∃ table m,
        ["  $d = null", "  $c = 0.5,-3", "  $b = @x=1,2", "  $a = 0"].foldlM Settings.preset
            .standard = .ok { Settings.standard with registers := table } ∧
          { Settings.standard with registers := table }.presets = .ok m ∧
          ∀ name, Option.Rel (fun v w => (v == w) = true) (r.get? name) (m.get? name) := by
  intro entries r
  have hentries : ∀ e ∈ entries, IsListedName e.1 ∧ e.2.Restorable := by decide +kernel
  have hdistinct : entries.Pairwise fun a b => ¬ compare a.1 b.1 = .eq := by decide +kernel
  have hr : r.Restorable :=
    fun name v hv => hentries (name, v) ((Registers.get?_ofList_eq_some_iff hdistinct).mp hv)
  have hlisting : r.listing = ["  $a = 0", "  $b = @x=1,2", "  $c = 0.5,-3", "  $d = null"] := by
    decide +kernel
  refine ⟨hr, hlisting, (presets_of_listing hr).2 .standard _ ?_⟩
  rw [hlisting]
  decide +kernel

end CritterScript
