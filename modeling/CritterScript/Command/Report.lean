import CritterScript.Command.Arguments
import CritterScript.Command.Files
import CritterScript.Reference.Search
import CritterScript.Script.Reading
import CritterScript.Settings.File
import CritterScript.Tick

/-!
# Carrying out commands

What a command prints and whether it succeeds (`Transcript`), given the
files. A command that cannot start, because a script or settings cannot be
read, prints nothing but a notice. A run prints a line for every tick, the
messages that were sent in it, and in the end all registers; it fails if a
tick faulted, while running out of cycles is no failure.

How settings are written in a file does not matter for any of this
(`SettingsReader`); `Command.perform` reads them by `Settings.ofFile?`.
-/

namespace CritterScript

/-- Why there are no settings for a run. -/
inductive SettingsError where
  | unreadable (path : String) (error : ReadError)
  /-- The file is no settings file. -/
  | malformed (path : String)
  | badPreset (preset : BadPreset)

def SettingsError.message : SettingsError → String
  | unreadable path error => s!"failed to read {path}: {error.message}"
  | malformed path => s!"failed to parse {path}: not a settings file"
  | badPreset preset => preset.message

/-- What is told on the side. -/
inductive Notice where
  | unreadable (path : String) (error : ReadError)
  | syntaxError (path : String) (excerpt : Excerpt)
  | settings (error : SettingsError)
  | fault (path : String) (f : Fault)
  | nothingFound (query : String)

def Notice.text : Notice → String
  | unreadable path error => s!"Failed to access {path}: {error.message}\n"
  | syntaxError path excerpt => s!"{path}:{excerpt.place.text}\n{excerpt.render}\n"
  | settings error => s!"Config error: {error.message}\n"
  | fault path f => s!"Runtime error in {path}: {f.text}\n"
  | nothingFound query => s!"no instruction or register matched `{query}`\n"

/-- What comes of a command. -/
structure Transcript where
  ok : Bool
  output : String
  notices : List Notice

/-- The command could not start. -/
def Transcript.failed (n : Notice) : Transcript :=
  ⟨false, "", [n]⟩

/-- The program in a file. -/
def loadProgram (files : Files) (path : String) : Except Notice Program :=
  match files path with
  | .error e => .error (.unreadable path e)
  | .ok source =>
    (Program.read source).mapError fun e => .syntaxError path (e.excerpt (sourceLines source))

/-- The settings that the text of a file gives, if it is a settings file. -/
abbrev SettingsReader := String → Option Settings

/-- The settings in a file. -/
def loadSettings (read : SettingsReader) (files : Files) (path : String) :
    Except SettingsError Settings :=
  match files path with
  | .error e => .error (.unreadable path e)
  | .ok source =>
    match read source with
    | some s => .ok s
    | none => .error (.malformed path)

/-- The name of the settings file that a script's directory may hold. -/
def settingsName : String := "crasm.toml"

namespace RunArguments

/-- The settings file that is used unless the command line names one. -/
def localSettings (a : RunArguments) : String :=
  joinPath (parentPath a.file) settingsName

/-- The settings of the file: the one named, or the one beside the script if
there is one. -/
def fileSettings (a : RunArguments) (read : SettingsReader) (files : Files) :
    Except SettingsError Settings :=
  match a.config with
  | some path => loadSettings read files path
  | none =>
    if files.isFile a.localSettings then loadSettings read files a.localSettings
    else .ok .standard

/-- The settings with those of the command line written over them. -/
def override (a : RunArguments) (s : Settings) : Settings :=
  { s with
    cycleLimit := a.cycles.getD s.cycleLimit
    ticks := a.ticks.getD s.ticks
    entry := a.entry.or s.entry
    seed := a.seed.or s.seed }

/-- The settings of a run. -/
def settings (a : RunArguments) (read : SettingsReader) (files : Files) :
    Except SettingsError Settings := do
  let s ← a.fileSettings read files
  (a.presets.foldlM Settings.preset (a.override s)).mapError .badPreset

end RunArguments

/-- The line of a message that was sent. -/
def Message.line (m : Message) (key : String) : String :=
  s!"  send {key} = {m.value.text} (priority {(Value.number m.priority).text})\n"

namespace Report

/-- How a tick ended, if not well. -/
def mark (r : Report) : String :=
  if r.fault.isSome then " (fault)" else if r.outcome.timeout then " (timeout)" else ""

/-- The lines of a tick. -/
def lines (r : Report) : String :=
  s!"tick {r.tick}: {r.outcome.cycles} cycle(s){r.mark}\n" ++
    String.join (r.outcome.messages.toList.map fun (key, m) => m.line key)

end Report

/-- The lines that list the registers. -/
def Registers.lines (r : Registers) : String :=
  "registers:\n" ++ String.join (r.toList.map fun (name, v) => s!"  {name} = {v.text}\n")

namespace Command

/-- Reads a script and tells its size. -/
def checkFile (files : Files) (path : String) : Transcript :=
  match loadProgram files path with
  | .error n => .failed n
  | .ok p => ⟨true, s!"{path}: {p.size} instruction(s), {p.labels.size} label(s)\n", []⟩

/-- Runs a program with given settings and registers. -/
def runProgram (p : Program) (path : String) (s : Settings) (r : Registers) (spare : UInt64) :
    Transcript :=
  let random := SplitMix.ofSeed (s.seed.getD spare)
  let (reports, world) := p.ticks ⟨s.cycleLimit, s.entry⟩ s.ticks ⟨r, random⟩
  { ok := reports.all (·.fault.isNone)
    output := String.join (reports.map Report.lines) ++ world.registers.lines
    notices := reports.filterMap fun r => r.fault.map (.fault path) }

/-- Runs a script. -/
def runFile (read : SettingsReader) (files : Files) (a : RunArguments) (spare : UInt64) :
    Transcript :=
  match loadProgram files a.file with
  | .error n => .failed n
  | .ok p =>
    match a.settings read files with
    | .error e => .failed (.settings e)
    | .ok s =>
      match s.presets with
      | .error b => .failed (.settings (.badPreset b))
      | .ok r => runProgram p a.file s r spare

/-- Looks something up in the reference. -/
def lookUp : Option String → Transcript
  | none => ⟨true, Reference.full, []⟩
  | some query =>
    match Reference.search query with
    | [] => .failed (.nothingFound query)
    | found => ⟨true, Reference.table found, []⟩

/-- Carries out a command, with settings as `read` reads them. Runs without a
seed draw their random numbers from the spare one. -/
def performWith (read : SettingsReader) (files : Files) (spare : UInt64) : Command → Transcript
  | check file => checkFile files file
  | run args => runFile read files args spare
  | docs query => lookUp query

/-- Carries out a command. -/
def perform (files : Files) (spare : UInt64) (c : Command) : Transcript :=
  c.performWith Settings.ofFile? files spare

/-- The paths that a command may read. -/
def paths : Command → List String
  | check file => [file]
  | run args => [args.file, args.config.getD args.localSettings]
  | docs _ => []

end Command

end CritterScript
