import CritterScript.Command.Report

/-!
# The program

Reads the command line and the files it names, carries the command out, and
prints what comes of it.
-/

namespace CritterScript

/-- What to tell about a command line that asks for nothing that can be
done. -/
def Refusal.text : Refusal → String
  | .versionRequested => "crasm 0.1.0\n"
  | .unknownCommand => "error: unrecognized subcommand\n"
  | .unknownArgument => "error: unexpected argument\n"
  | .missingArgument => "error: a required argument was not provided\n"
  | .missingValue => "error: a value is required\n"
  | .unwantedValue => "error: unexpected value\n"
  | .badValue => "error: invalid value\n"
  | .repeatedOption => "error: an option cannot be used multiple times\n"
  | .helpRequested | .nothingGiven =>
    "Check, run and look up crasm programs\n\n" ++
      "Usage: crasm check <FILE>\n" ++
      "       crasm run <FILE> [--config <PATH>] [--cycles <N>] [--ticks <N>]\n" ++
      "                 [--entry <LABEL>] [--seed <N>] [--set <$REG=LITERAL>]...\n" ++
      "       crasm docs [QUERY]\n"

/-- The number of a system error, which may come negated. -/
def errorNumber (code : UInt32) : UInt32 :=
  if code < 0x80000000 then code else 0 - code

/-- The text of a file. -/
def readText (path : String) : IO (Except ReadError String) := do
  if let some e := pathFlaw? path then
    return .error e
  try
    let content ← IO.FS.readBinFile path
    match String.fromUTF8? content with
    | some text => return .ok text
    | none => return .error .notUtf8
  catch
    | .noFileOrDirectory .. => return .error .missing
    | .inappropriateType _ code _ =>
      return .error (if errorNumber code = 20 then .notDirectory else .directory)
    | .invalidArgument _ code details =>
      return .error (if errorNumber code = 36 then .tooLong else .other details)
    | e => return .error (.other (toString e))

/-- A command on the real file system. -/
def runCommand (c : Command) : IO UInt32 := do
  let texts ← c.paths.mapM fun path => return (path, ← readText path)
  let files : Files := fun path => (texts.lookup path).getD (.error .missing)
  let t := c.perform files (← IO.monoNanosNow).toUInt64
  IO.print t.output
  for n in t.notices do
    IO.eprint n.text
  return if t.ok then 0 else 1

end CritterScript

open CritterScript in
/-- The exit code is zero if the command succeeded. -/
def main (args : List String) : IO UInt32 :=
  match Command.parse args with
  | .ok c => runCommand c
  | .error r => do
    if r.exitCode = 0 then IO.print r.text else IO.eprint r.text
    return r.exitCode
