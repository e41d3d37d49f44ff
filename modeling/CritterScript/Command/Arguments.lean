import CritterScript.Text.Basic

/-!
# Command lines

What the words after the program's name ask for: to check a script, to run
one, or to look something up in the reference. A command takes at most one
operand, anywhere among its options; `--name=value` and `--name value` mean
the same, and after `--` every word is an operand.

A word is only judged when the next one is met, or at the end: then it is
known whether an option has got its value, whether it was given before, and
whether the value will do. A word that fits nowhere is reported without
judging the one before it. `Command.parse` gives the command, or a `Refusal`.
-/

namespace CritterScript

/-- Why there is no command to carry out. -/
inductive Refusal where
  | helpRequested
  | versionRequested
  /-- There are no words at all. -/
  | nothingGiven
  | unknownCommand
  | unknownArgument
  | missingArgument
  /-- An option has no value, or a path is empty. -/
  | missingValue
  /-- A flag has a value. -/
  | unwantedValue
  /-- A number is not one, or too large. -/
  | badValue
  /-- An option is given twice. -/
  | repeatedOption
deriving DecidableEq, Repr

/-- The exit code of a refused command line: asking for help is no error. -/
def Refusal.exitCode : Refusal → UInt32
  | helpRequested | versionRequested => 0
  | _ => 2

/-- How to run a script, as the command line says. -/
structure RunArguments where
  file : String
  config : Option String
  cycles : Option Nat
  ticks : Option Nat
  entry : Option String
  seed : Option UInt64
  presets : List String
deriving DecidableEq, Repr

/-- What the program is to do. -/
inductive Command where
  | check (file : String)
  | run (args : RunArguments)
  | docs (query : Option String)
deriving DecidableEq, Repr

namespace Command

/-! ## Words -/

/-- What can have a value on a command line: the operand, and the options. -/
inductive Parameter where
  | operand | config | cycles | ticks | entry | seed | preset
deriving DecidableEq, Repr

/-- The option with a name. -/
def Parameter.ofName? : String → Option Parameter
  | "config" => some .config
  | "cycles" => some .cycles
  | "ticks" => some .ticks
  | "entry" => some .entry
  | "seed" => some .seed
  | "set" => some .preset
  | _ => none

/-- What a word looks like. -/
inductive Word where
  /-- The word `--`. -/
  | divider
  /-- A name after `--`, and the value after an equals sign. -/
  | long (name : String) (value : Option String)
  /-- Letters after `-`, of which the first counts. -/
  | short (letter : Char)
  | plain
deriving DecidableEq, Repr

/-- What a word looks like. -/
def Word.ofString (word : String) : Word :=
  match word.toList with
  | ['-', '-'] => .divider
  | '-' :: '-' :: cs =>
    let name := String.ofList (cs.takeWhile (· != '='))
    match cs.dropWhile (· != '=') with
    | [] => .long name none
    | _ :: value => .long name (some (String.ofList value))
  | '-' :: c :: _ => .short c
  | _ => .plain

/-- The number that a text writes: digits, before which a plus may stand,
for a number below `2 ^ 64`. -/
def readNumber? (text : String) : Option Nat :=
  let digits := match text.toList with
    | '+' :: cs => cs
    | cs => cs
  if digits.isEmpty || !digits.all Char.isDigit then none
  else
    let n := digits.foldl (fun n c => 10 * n + (c.toNat - '0'.toNat)) 0
    if n < Nat.pow 2 64 then some n else none

/-! ## Arguments -/

/-- The arguments that a command takes. -/
structure Grammar where
  /-- The operand must be there. -/
  needsOperand : Bool
  /-- The operand is a path, which is not empty. -/
  operandIsPath : Bool
  /-- There are options besides the request for help. -/
  hasOptions : Bool

/-- The arguments met so far. -/
structure Arguments where
  operand : Option String
  config : Option String
  cycles : Option Nat
  ticks : Option Nat
  entry : Option String
  seed : Option Nat
  presets : List String
  /-- An operand was met, though it may not yet be judged. -/
  hasOperand : Bool
  /-- The parameter that is not yet judged, and its value if it has one. -/
  pending : Option (Parameter × Option String)

namespace Arguments

def none : Arguments :=
  ⟨.none, .none, .none, .none, .none, .none, [], false, .none⟩

/-- Sets an option that is not set yet. -/
def once {α : Type} (old : Option α) (value : Except Refusal α) (set : α → Arguments) :
    Except Refusal Arguments :=
  if old.isSome then .error .repeatedOption else value.map set

def path (text : String) : Except Refusal String :=
  if text.isEmpty then .error .missingValue else .ok text

def number (text : String) : Except Refusal Nat :=
  match readNumber? text with
  | some n => .ok n
  | .none => .error .badValue

/-- Gives a parameter its value. -/
def give (a : Arguments) (g : Grammar) (text : String) : Parameter → Except Refusal Arguments
  | .operand =>
    once a.operand (if g.operandIsPath then path text else .ok text) fun v =>
      { a with operand := v }
  | .config => once a.config (path text) fun v => { a with config := v }
  | .cycles => once a.cycles (number text) fun v => { a with cycles := v }
  | .ticks => once a.ticks (number text) fun v => { a with ticks := v }
  | .entry => once a.entry (.ok text) fun v => { a with entry := v }
  | .seed => once a.seed (number text) fun v => { a with seed := v }
  | .preset => .ok { a with presets := a.presets ++ [text] }

/-- Judges the parameter that waits for it. -/
def settle (a : Arguments) (g : Grammar) : Except Refusal Arguments :=
  match a.pending with
  | .none => .ok a
  | some (_, .none) => .error .missingValue
  | some (parameter, some text) => { a with pending := .none }.give g text parameter

/-- The arguments after an operand. -/
def addOperand (a : Arguments) (g : Grammar) (word : String) : Except Refusal Arguments :=
  if a.hasOperand then .error .unknownArgument
  else (a.settle g).map fun a =>
    { a with hasOperand := true, pending := some (.operand, some word) }

/-- The arguments after a word before any divider, other than the divider. -/
def add (a : Arguments) (g : Grammar) (word : String) : Except Refusal Arguments :=
  match Word.ofString word with
  | .long "help" .none | .short 'h' => (a.settle g).bind fun _ => .error .helpRequested
  | .long "help" (some _) => .error .unwantedValue
  | .long name value =>
    match if g.hasOptions then Parameter.ofName? name else .none, value with
    | some parameter, some text => (a.settle g).bind fun a => a.give g text parameter
    | some parameter, .none =>
      (a.settle g).map fun a => { a with pending := some (parameter, .none) }
    | .none, _ => .error .unknownArgument
  | .short _ => .error .unknownArgument
  | .divider | .plain =>
    match a.pending with
    | some (parameter, .none) => .ok { a with pending := some (parameter, some word) }
    | _ => a.addOperand g word

/-- The arguments after all words; `divided` says that a divider was met. -/
def addAll (g : Grammar) (divided : Bool) (a : Arguments) :
    List String → Except Refusal Arguments
  | [] => a.settle g
  | word :: rest =>
    if divided then (a.addOperand g word).bind fun a => a.addAll g true rest
    else if Word.ofString word = .divider then a.addAll g true rest
    else (a.add g word).bind fun a => a.addAll g false rest

/-- The arguments that the words of a command give. -/
def read (g : Grammar) (words : List String) : Except Refusal Arguments :=
  (none.addAll g false words).bind fun a =>
    if g.needsOperand && a.operand.isNone then .error .missingArgument else .ok a

end Arguments

/-! ## Commands -/

/-- The names of the commands. -/
def names : List String :=
  ["check", "run", "docs", "help"]

/-- The command that the words after its name complete. -/
def ofArguments (name : String) (words : List String) : Except Refusal Command :=
  match name with
  | "check" => do
    let a ← Arguments.read ⟨true, true, false⟩ words
    return .check (a.operand.getD "")
  | "run" => do
    let a ← Arguments.read ⟨true, true, true⟩ words
    return .run ⟨a.operand.getD "", a.config, a.cycles, a.ticks, a.entry, a.seed.map Nat.toUInt64,
      a.presets⟩
  | "docs" => do
    let a ← Arguments.read ⟨false, false, false⟩ words
    return .docs a.operand
  | _ => .error .unknownCommand

/-- What a request for help on some words gives: help on a command, unless
there is none with that name. -/
def help : List String → Refusal
  | [] => .helpRequested
  | [name] => if names.contains name then .helpRequested else .unknownCommand
  | _ => .unknownCommand

/-- The command that the words after the program's name ask for. -/
def parse : List String → Except Refusal Command
  | [] => .error .nothingGiven
  | word :: rest =>
    match Word.ofString word with
    | .divider =>
      match rest with
      | [] => .error .nothingGiven
      | next :: _ => .error (if names.contains next then .unknownArgument else .unknownCommand)
    | .long "help" none | .short 'h' => .error .helpRequested
    | .long "version" none | .short 'V' => .error .versionRequested
    | .long "help" (some _) | .long "version" (some _) => .error .unwantedValue
    | .long _ _ | .short _ => .error .unknownArgument
    | .plain => if word = "help" then .error (help rest) else ofArguments word rest

end Command

end CritterScript
