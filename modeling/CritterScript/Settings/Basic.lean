import CritterScript.Names
import CritterScript.Registers
import CritterScript.Script.Literal

/-!
# Run settings

How a script is run from the command line: its budget of cycles, the number
of ticks, the entry, the seed, and what registers hold at the start. Register
presets are texts in the syntax of literals, and are only read when the run
starts (`Settings.presets`); what is wrong with one is a `BadPreset`.
-/

namespace CritterScript

/-- How to run a script. -/
structure Settings where
  cycleLimit : Nat
  ticks : Nat
  entry : Option String
  seed : Option UInt64
  /-- Literals by register name. -/
  registers : NameTable String

/-- What is wrong with a preset. -/
inductive PresetFlaw where
  /-- It has no equals sign. -/
  | noAssignment
  /-- The name does not start with `$`, or has nothing after it. -/
  | badName
  /-- The text is empty or has blank characters in it. -/
  | notSingle (text : String)
  | badLiteral (mistake : Mistake)
deriving DecidableEq, Repr

def PresetFlaw.message : PresetFlaw → String
  | noAssignment => "expected $register=literal"
  | badName => s!"register names start with {registerSigil}"
  | notSingle text => s!"'{text}' is not a single literal"
  | badLiteral mistake => mistake.message

/-- A preset that cannot be used. -/
structure BadPreset where
  register : String
  flaw : PresetFlaw
deriving DecidableEq, Repr

def BadPreset.message (b : BadPreset) : String :=
  s!"bad value for register {b.register}: {b.flaw.message}"

/-- The value that a preset gives a register. -/
def readPreset (name text : String) : Except BadPreset Value :=
  let text := Text.trimmed text
  if !startsWith registerSigil name || Text.byteSize name.toList < 2 then
    .error ⟨name, .badName⟩
  else if text.isEmpty || text.toList.any Text.isBlank then
    .error ⟨name, .notSingle text⟩
  else
    (readLiteral ⟨text, ⟨0, 0⟩⟩).mapError fun e => ⟨name, .badLiteral e.mistake⟩

namespace Settings

/-- A thousand cycles, one tick, and nothing else set. -/
def standard : Settings where
  cycleLimit := 1000
  ticks := 1
  entry := none
  seed := none
  registers := ∅

instance : Inhabited Settings := ⟨standard⟩

/-- The registers at the start of a run. Presets are read in byte order of
their names, and the first bad one is reported. -/
def presets (s : Settings) : Except BadPreset Registers :=
  (s.registers.toList.mapM fun (name, text) =>
    (readPreset name text).map (name, ·)).map Registers.ofList

/-- Adds a preset written `name=literal`, in place of any other for the same
name. The first equals sign counts, and blank space around the two sides does
not. -/
def preset (s : Settings) (assignment : String) : Except BadPreset Settings :=
  let cs := assignment.toList
  match cs.dropWhile (· != '=') with
  | [] => .error ⟨assignment, .noAssignment⟩
  | _ :: text =>
    let name := String.ofList (Text.trim (cs.takeWhile (· != '=')))
    .ok { s with registers := s.registers.insert name (String.ofList (Text.trim text)) }

end Settings

end CritterScript
