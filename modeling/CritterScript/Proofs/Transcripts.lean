import CritterScript.Proofs.Precedence
import CritterScript.Proofs.Ticks
import Mathlib

/-!
# What a run prints

A run needs a program, settings and registers (`RunArguments.Starts`). If there
is something wrong with one of them (`RunArguments.Barred`), then it prints
nothing and fails. Otherwise it prints the lines of every tick
(`Execution.Prints`) and then those of the registers, and it succeeds unless a
tick has faulted (`Transcript.Shows`).

The lines of a tick are told by its number and its run, and neither depends on
how many ticks come after it. So a run of more ticks prints what a run of fewer
does before it lists the registers.
-/

namespace CritterScript

/-! ## Lines -/

/-- Lines as they are printed. -/
def printed (lines : List String) : String :=
  String.join (lines.map (· ++ "\n"))

theorem printed_cons (line : String) (lines : List String) :
    printed (line :: lines) = line ++ "\n" ++ printed lines :=
  String.join_cons

theorem printed_append (lines more : List String) :
    printed (lines ++ more) = printed lines ++ printed more := by
  rw [printed, List.map_append, String.join_append]
  rfl

theorem printed_flatten (parts : List (List String)) :
    printed parts.flatten = String.join (parts.map printed) := by
  induction parts with
  | nil => rfl
  | cons lines parts ih =>
    rw [List.flatten_cons, printed_append, ih, List.map_cons, String.join_cons]

/-- The line of a message that was sent. -/
def sendLine (key : String) (m : Message) : String :=
  s!"  send {key} = {m.value.text} (priority {(Value.number m.priority).text})"

/-- The entries are those of a table, given by what it holds under each name,
in the order of the names' bytes. -/
structure ListsInOrder {α : Type} (get? : String → Option α) (entries : List (String × α)) :
    Prop where
  ordered : entries.Pairwise fun a b => nameBytes a.1 < nameBytes b.1
  mem_iff (name : String) (x : α) : (name, x) ∈ entries ↔ get? name = some x

theorem listsInOrder_toList {α : Type} (t : NameTable α) :
    ListsInOrder (t[·]?) t.toList :=
  ⟨pairwise_nameBytes_toList t, fun _ _ => Std.ExtTreeMap.mem_toList_iff_getElem?_eq_some⟩

/-! ## Ticks -/

/-- What stands behind the line of a run that ended so. -/
inductive Ending.Marks : Ending → String → Prop
  | halted : Marks .halted ""
  | timedOut : Marks .timedOut " (timeout)"
  | faulted (f : Fault) : Marks (.faulted f) " (fault)"

section Ticks

variable {ρ : Type}

/-- The lines of a run as tick number `k`: one for the tick, and one for each
message in the order of the keys. -/
def Execution.Prints (x : Execution ρ) (k : Nat) (lines : List String) : Prop :=
  ∃ mark sent, x.ending.Marks mark ∧ ListsInOrder (x.machine.outbox[·]?) sent ∧
    lines = s!"tick {k}: {x.cycles} cycle(s){mark}" :: sent.map fun e => sendLine e.1 e.2

/-- The report of a run as tick number `k`. -/
def Execution.report (x : Execution ρ) (k : Nat) : Report :=
  ⟨k, x.outcome, x.fault?⟩

/-- The lines of a run as tick number `k`. -/
def Execution.lines (x : Execution ρ) (k : Nat) : List String :=
  s!"tick {k}: {x.cycles} cycle(s){(x.report k).mark}" ::
    x.machine.outbox.toList.map fun e => sendLine e.1 e.2

theorem Execution.marks_report (x : Execution ρ) (k : Nat) : x.ending.Marks (x.report k).mark := by
  obtain ⟨machine, cycles, ending⟩ := x
  cases ending with
  | halted => exact .halted
  | timedOut => exact .timedOut
  | faulted f => exact .faulted f

theorem Execution.prints_lines (x : Execution ρ) (k : Nat) : x.Prints k (x.lines k) :=
  ⟨_, _, x.marks_report k, listsInOrder_toList _, rfl⟩

theorem sendLine_append (key : String) (m : Message) : sendLine key m ++ "\n" = m.line key := by
  have hend : ")" ++ "\n" = ")\n" := by decide
  unfold sendLine Message.line
  rw [String.append_assoc]
  exact congrArg _ hend

theorem printed_sendLine (sent : List (String × Message)) :
    printed (sent.map fun e => sendLine e.1 e.2) =
      String.join (sent.map fun e => e.2.line e.1) := by
  rw [printed, List.map_map]
  simp only [Function.comp_def, sendLine_append]

theorem Execution.printed_lines (x : Execution ρ) (k : Nat) :
    printed (x.lines k) = (x.report k).lines := by
  rw [lines, printed_cons, printed_sendLine]
  rfl

theorem Registers.printed_lines (r : Registers) :
    printed ("registers:" :: r.toList.map fun e => registerLine e.1 e.2) = r.lines := by
  rw [printed_cons, printed, List.map_map]
  rfl

variable [Sampler ρ]

/-- The run of tick number `k`, on what the ticks before it left. -/
def Program.runOf (p : Program) (c : Schedule) (w : World ρ) (k : Nat) : Execution ρ :=
  p.tickRun c (p.ticks c k w).2

theorem reports_eq (p : Program) (c : Schedule) (w : World ρ) (count : Nat) :
    (p.ticks c count w).1 = (List.range count).map fun k => (p.runOf c w k).report k := by
  induction count with
  | zero => rfl
  | succ count ih =>
    rw [ticks_succ, ih, List.range_succ, List.map_append]
    rfl

end Ticks

/-! ## Transcripts -/

/-- A transcript of `count` ticks: `parts` are the lines of each of them, behind
which the registers are listed in the order of their names, and it is a success
unless a tick has faulted. -/
structure Transcript.Shows {ρ : Type} [Sampler ρ] (t : Transcript) (p : Program) (c : Schedule)
    (w : World ρ) (count : Nat) (parts : List (List String)) : Prop where
  length_eq : parts.length = count
  prints {k : Nat} {lines : List String} : parts[k]? = some lines → (p.runOf c w k).Prints k lines
  output : ∃ listed, ListsInOrder (p.ticks c count w).2.registers.get? listed ∧
    t.output =
      printed (parts.flatten ++ "registers:" :: listed.map fun e => registerLine e.1 e.2)
  ok_iff : t.ok = true ↔ ∀ k < count, (p.runOf c w k).fault? = none

/-- How the settings have a program run. -/
def Settings.schedule (s : Settings) : Schedule :=
  ⟨s.cycleLimit, s.entry⟩

/-- What a program starts from. -/
def Settings.world (s : Settings) (r : Registers) (spare : UInt64) : World SplitMix :=
  ⟨r, .ofSeed (s.seed.getD spare)⟩

/-- The lines of the first ticks, tick by tick. -/
def Program.tickParts {ρ : Type} [Sampler ρ] (p : Program) (c : Schedule) (w : World ρ)
    (count : Nat) : List (List String) :=
  (List.range count).map fun k => (p.runOf c w k).lines k

section RunProgram

variable (p : Program) (path : String) (s : Settings) (r : Registers) (spare : UInt64)

theorem output_runProgram :
    (Command.runProgram p path s r spare).output =
      printed (p.tickParts s.schedule (s.world r spare) s.ticks).flatten ++
        (p.ticks s.schedule s.ticks (s.world r spare)).2.registers.lines := by
  show String.join ((p.ticks s.schedule s.ticks (s.world r spare)).1.map Report.lines) ++ _ = _
  rw [reports_eq, printed_flatten, Program.tickParts, List.map_map, List.map_map]
  simp only [Function.comp_def, Execution.printed_lines]
  rfl

theorem ok_runProgram :
    (Command.runProgram p path s r spare).ok = true ↔
      ∀ k < s.ticks, (p.runOf s.schedule (s.world r spare) k).fault? = none := by
  show (p.ticks s.schedule s.ticks (s.world r spare)).1.all (·.fault.isNone) = true ↔ _
  rw [reports_eq, List.all_map, List.all_eq_true]
  simp only [List.mem_range, Function.comp_apply, Execution.report, Option.isNone_iff_eq_none]

theorem shows_runProgram :
    (Command.runProgram p path s r spare).Shows p s.schedule (s.world r spare) s.ticks
      (p.tickParts s.schedule (s.world r spare) s.ticks) where
  length_eq := by rw [Program.tickParts, List.length_map, List.length_range]
  prints := by
    intro k lines hk
    rw [Program.tickParts, List.getElem?_map, Option.map_eq_some_iff] at hk
    obtain ⟨j, hj, rfl⟩ := hk
    obtain ⟨-, rfl⟩ := List.getElem?_eq_some_iff.mp hj
    rw [List.getElem_range]
    exact Execution.prints_lines _ k
  output := by
    refine ⟨_, listsInOrder_toList _, ?_⟩
    rw [output_runProgram, printed_append, ← Registers.printed_lines]
    rfl
  ok_iff := ok_runProgram p path s r spare

end RunProgram

/-! ## Starting -/

namespace RunArguments

/-- A run has its program, its settings and its registers. -/
structure Starts (a : RunArguments) (read : SettingsReader) (files : Files) (p : Program)
    (s : Settings) (r : Registers) : Prop where
  program : ∃ text, files a.file = .ok text ∧ Program.read text = .ok p
  settings : a.settings read files = .ok s
  registers : s.presets = .ok r

/-- Something that a run needs is bad. -/
inductive Barred (a : RunArguments) (read : SettingsReader) (files : Files) : Prop
  | unreadable {e : ReadError} : files a.file = .error e → Barred a read files
  | illegible {text : String} {e : SyntaxError} :
    files a.file = .ok text → Program.read text = .error e → Barred a read files
  | badSettings {e : SettingsError} : a.settings read files = .error e → Barred a read files
  | badRegisters {s : Settings} {b : BadPreset} :
    a.settings read files = .ok s → s.presets = .error b → Barred a read files

variable {a : RunArguments} {read : SettingsReader} {files : Files}

theorem barred_or_starts (a : RunArguments) (read : SettingsReader) (files : Files) :
    a.Barred read files ∨ ∃ p s r, a.Starts read files p s r := by
  cases htext : files a.file with
  | error e => exact .inl (.unreadable htext)
  | ok text =>
    cases hread : Program.read text with
    | error e => exact .inl (.illegible htext hread)
    | ok p =>
      cases hsettings : a.settings read files with
      | error e => exact .inl (.badSettings hsettings)
      | ok s =>
        cases hpresets : s.presets with
        | error b => exact .inl (.badRegisters hsettings hpresets)
        | ok r => exact .inr ⟨p, s, r, ⟨text, htext, hread⟩, hsettings, hpresets⟩

theorem Starts.perform_eq {p : Program} {s : Settings} {r : Registers}
    (h : a.Starts read files p s r) (spare : UInt64) :
    Command.performWith read files spare (.run a) = Command.runProgram p a.file s r spare := by
  obtain ⟨⟨text, htext, hread⟩, hsettings, hpresets⟩ := h
  have hload : loadProgram files a.file = .ok p := by
    rw [loadProgram]
    simp only [htext, hread]
    rfl
  rw [Command.performWith, Command.runFile]
  simp only [hload, hsettings, hpresets]

theorem Starts.shows {p : Program} {s : Settings} {r : Registers}
    (h : a.Starts read files p s r) (spare : UInt64) :
    (Command.performWith read files spare (.run a)).Shows p s.schedule (s.world r spare) s.ticks
      (p.tickParts s.schedule (s.world r spare) s.ticks) := by
  rw [h.perform_eq]
  exact shows_runProgram p a.file s r spare

/-- Nothing is printed before all that can be wrong has been looked at. -/
theorem Barred.exists_failed (h : a.Barred read files) (spare : UInt64) :
    ∃ n, Command.performWith read files spare (.run a) = .failed n := by
  rw [Command.performWith, Command.runFile]
  cases hload : loadProgram files a.file with
  | error n => exact ⟨n, rfl⟩
  | ok p =>
    cases h with
    | unreadable htext =>
      simp only [loadProgram, htext] at hload
      cases hload
    | illegible htext hread =>
      simp only [loadProgram, htext, hread] at hload
      cases hload
    | badSettings hsettings =>
      simp only [hsettings]
      exact ⟨_, rfl⟩
    | badRegisters hsettings hpresets =>
      simp only [hsettings, hpresets]
      exact ⟨_, rfl⟩

theorem seed_of_settings {s : Settings} {seed : UInt64} (ha : a.seed = some seed)
    (h : a.settings read files = .ok s) : s.seed = some seed := by
  rw [settings] at h
  obtain ⟨file, hfile, -⟩ := bind_eq_ok_iff.mp h
  obtain ⟨entries, -, hover⟩ := (settings_eq_ok_iff hfile).mp h
  have hseed := overrides_iff.mp hover.seed
  rw [ha] at hseed
  exact hseed.symm

/-! ## Other numbers of ticks -/

/-- The same run with another number of ticks. -/
def withTicks (a : RunArguments) (n : Nat) : RunArguments :=
  { a with ticks := some n }

/-- The number of ticks does not matter for the other settings. -/
theorem settings_withTicks (a : RunArguments) (read : SettingsReader) (files : Files) (n : Nat) :
    (a.withTicks n).settings read files =
      (a.settings read files).map fun s => { s with ticks := n } := by
  cases hfile : a.fileSettings read files with
  | error e =>
    have hfile' : (a.withTicks n).fileSettings read files = .error e := hfile
    rw [settings, settings, hfile, hfile']
    rfl
  | ok s =>
    have hfile' : (a.withTicks n).fileSettings read files = .ok s := hfile
    cases hsettings : a.settings read files with
    | error e =>
      exact (settings_eq_error_iff hfile').mpr ((settings_eq_error_iff hfile).mp hsettings)
    | ok t =>
      obtain ⟨entries, hentries, hover⟩ := (settings_eq_ok_iff hfile).mp hsettings
      refine (settings_eq_ok_iff hfile').mpr ⟨entries, hentries, ?_⟩
      exact ⟨hover.cycleLimit, .given n s.ticks, hover.entry, hover.seed, hover.registers⟩

theorem Starts.withTicks {p : Program} {s : Settings} {r : Registers}
    (h : a.Starts read files p s r) (n : Nat) :
    (a.withTicks n).Starts read files p { s with ticks := n } r := by
  refine ⟨h.program, ?_, h.registers⟩
  rw [settings_withTicks, h.settings]
  rfl

theorem Barred.withTicks (h : a.Barred read files) (n : Nat) :
    (a.withTicks n).Barred read files := by
  cases h with
  | unreadable htext => exact .unreadable htext
  | illegible htext hread => exact .illegible htext hread
  | @badSettings e hsettings =>
    have hsettings' : (a.withTicks n).settings read files = .error e := by
      rw [settings_withTicks, hsettings]
      rfl
    exact .badSettings hsettings'
  | @badRegisters s b hsettings hpresets =>
    have hsettings' : (a.withTicks n).settings read files = .ok { s with ticks := n } := by
      rw [settings_withTicks, hsettings]
      rfl
    exact .badRegisters hsettings' hpresets

end RunArguments

theorem tickParts_add {ρ : Type} [Sampler ρ] (p : Program) (c : Schedule) (w : World ρ)
    (n d : Nat) : ∃ rest, p.tickParts c w (n + d) = p.tickParts c w n ++ rest := by
  rw [Program.tickParts, List.range_add, List.map_append]
  exact ⟨_, rfl⟩

/-- However settings are read, a run prints nothing and fails if something that
it needs is bad. Otherwise it prints the lines of its ticks and then those of
the registers, and it succeeds unless a tick has faulted. A run that has its
random numbers from the same seed and differs in the number of ticks alone
prints the same lines for the ticks that both have, and the one with fewer ticks
succeeds if the other does. -/
theorem run_by_ticks (read : SettingsReader) (files : Files) (a : RunArguments)
    (spare : UInt64) :
    (a.Barred read files → (Command.performWith read files spare (.run a)).output = "" ∧
        (Command.performWith read files spare (.run a)).ok = false) ∧
      (¬ a.Barred read files → ∃ p s r parts, a.Starts read files p s r ∧
        (Command.performWith read files spare (.run a)).Shows p s.schedule (s.world r spare) s.ticks
          parts) ∧
      ∀ n m spare', n ≤ m →
        (∀ s, a.settings read files = .ok s → s.seed.isSome = true ∨ spare' = spare) →
          let fewer := Command.performWith read files spare (.run { a with ticks := some n })
          let more := Command.performWith read files spare' (.run { a with ticks := some m })
          (more.ok = true → fewer.ok = true) ∧
            (¬ a.Barred read files → ∃ p s r parts rest, a.Starts read files p s r ∧
              fewer.Shows p s.schedule (s.world r spare) n parts ∧
              more.Shows p s.schedule (s.world r spare') m (parts ++ rest)) := by
  refine ⟨?_, ?_, ?_⟩
  · intro hbarred
    obtain ⟨n, hfailed⟩ := hbarred.exists_failed spare
    rw [hfailed]
    exact ⟨rfl, rfl⟩
  · intro hfree
    obtain ⟨p, s, r, hstarts⟩ := (RunArguments.barred_or_starts a read files).resolve_left hfree
    exact ⟨p, s, r, _, hstarts, hstarts.shows spare⟩
  · intro n m spare' hle hseed fewer more
    rcases RunArguments.barred_or_starts a read files with hbarred | ⟨p, s, r, hstarts⟩
    · obtain ⟨notice, hfailed⟩ := (hbarred.withTicks m).exists_failed spare'
      refine ⟨fun hok => ?_, fun hfree => absurd hbarred hfree⟩
      have hmore : more = .failed notice := hfailed
      rw [hmore] at hok
      cases hok
    · have hworld : s.world r spare' = s.world r spare := by
        rcases hseed s hstarts.settings with hsome | rfl
        · obtain ⟨seed, hseed⟩ := Option.isSome_iff_exists.mp hsome
          rw [Settings.world, Settings.world, hseed]
          rfl
        · rfl
      have hfewer : fewer.Shows p s.schedule (s.world r spare) n
          (p.tickParts s.schedule (s.world r spare) n) := (hstarts.withTicks n).shows spare
      have hmore : more.Shows p s.schedule (s.world r spare') m
          (p.tickParts s.schedule (s.world r spare') m) := (hstarts.withTicks m).shows spare'
      refine ⟨?_, fun _ => ?_⟩
      · rw [hfewer.ok_iff, hmore.ok_iff, hworld]
        exact fun hclean k hk => hclean k (hk.trans_le hle)
      · obtain ⟨d, rfl⟩ := Nat.exists_eq_add_of_le hle
        obtain ⟨rest, hrest⟩ := tickParts_add p s.schedule (s.world r spare) n d
        refine ⟨p, s, r, _, rest, hstarts, hfewer, ?_⟩
        rw [← hrest, ← hworld]
        exact hmore

/-- The first tick sends a label and ends well. The second one finds the label
where it compares with zero, and faults. There is no other program. -/
theorem run_by_ticks_fault :
    let files : Files := fun path =>
      if path = "a.cr" then .ok "send 1 @x $b\njez $b @end\n@end" else .error .missing
    let a : RunArguments := ⟨"a.cr", none, none, none, none, some 7, []⟩
    let bad : RunArguments := { a with file := "b.cr" }
    let fewer := Command.perform files 0 (.run { a with ticks := some 1 })
    let more := Command.perform files 5 (.run { a with ticks := some 2 })
    fewer.output = "tick 0: 2 cycle(s)\n  send $b = @x (priority 1)\n" ++
        "registers:\n  $b = @x\n" ∧
      more.output = "tick 0: 2 cycle(s)\n  send $b = @x (priority 1)\n" ++
        "tick 1: 2 cycle(s) (fault)\n  send $b = @x (priority 1)\n" ++
        "registers:\n  $b = @x\n" ∧
      fewer.ok = true ∧ more.ok = false ∧ ¬ a.Barred Settings.ofFile? files ∧
      (∃ p s r parts rest, a.Starts Settings.ofFile? files p s r ∧
        fewer.Shows p s.schedule (s.world r 0) 1 parts ∧
        more.Shows p s.schedule (s.world r 5) 2 (parts ++ rest)) ∧
      bad.Barred Settings.ofFile? files ∧ (Command.perform files 0 (.run bad)).output = "" := by
  intro files a bad fewer more
  obtain ⟨hfails, -, hruns⟩ := run_by_ticks Settings.ofFile? files a 0
  have hprints : (Command.perform files 0 (.run a)).output ≠ "" := by decide +kernel
  have hfree : ¬ a.Barred Settings.ofFile? files := fun hbarred => hprints (hfails hbarred).1
  have hseed : ∀ s, a.settings Settings.ofFile? files = .ok s → s.seed.isSome = true ∨ 5 = (0 : UInt64) := by
    intro s hs
    exact .inl (Option.isSome_of_eq_some (RunArguments.seed_of_settings rfl hs))
  have hbad : bad.Barred Settings.ofFile? files := .unreadable rfl
  exact ⟨by decide +kernel, by decide +kernel, by decide +kernel, by decide +kernel, hfree,
    (hruns 1 2 5 (by decide) hseed).2 hfree, hbad, ((run_by_ticks Settings.ofFile? files bad 0).1 hbad).1⟩

end CritterScript
