import CritterScript.Settings.Basic
import CritterScript.Settings.Statement

/-!
# Settings files

`Settings.ofFile?` reads settings from a file. Every statement of the file
must set one of the known settings, and none may be set twice. The presets
are given by one table, by dotted keys, or under a heading of their own, and
these do not mix.
-/

namespace CritterScript.Settings

/-- How a file gives the presets. -/
inductive PresetStyle where
  /-- Not at all, so far. -/
  | absent
  /-- By one value for all. -/
  | whole
  /-- By dotted keys. -/
  | dotted
  /-- Under a heading of their own, to the end of the file. -/
  | heading
deriving DecidableEq, Repr

/-- The settings that the first statements of a file give. -/
structure Draft where
  settings : Settings
  /-- The keys of single settings that were set. -/
  keys : List String
  style : PresetStyle

namespace Draft

/-- The draft with a single setting that is not yet set. -/
def once (d : Draft) (key : String) (change : Settings → Settings) : Option Draft :=
  if d.keys.contains key then none
  else some { d with settings := change d.settings, keys := key :: d.keys }

/-- The draft with a preset for a register that has none yet. -/
def addPreset (d : Draft) (name : String) : Scalar → Option Draft
  | .text s =>
    if d.settings.registers.contains name then none
    else some { d with settings.registers := d.settings.registers.insert name s }
  | _ => none

/-- The draft with presets from a table whose keys are register names. -/
def addPresets (d : Draft) (entries : List (List String × Scalar)) : Option Draft :=
  entries.foldlM (fun d (path, value) =>
    match path with
    | [name] => d.addPreset name value
    | _ => none) d

/-- The name under which a date stands in the table that it is read as, if a
table is wanted. -/
def momentKey : String := "$__toml_private_datetime"

/-- The draft after an assignment before the heading. -/
def assign (d : Draft) : List String → Assigned → Option Draft
  | ["cycle_limit"], .scalar (.integer (.ofNat n)) =>
    d.once "cycle_limit" fun s => { s with cycleLimit := n }
  | ["ticks"], .scalar (.integer (.ofNat n)) => d.once "ticks" fun s => { s with ticks := n }
  | ["entry"], .scalar (.text t) => d.once "entry" fun s => { s with entry := some t }
  | ["seed"], .scalar (.integer (.ofNat n)) =>
    d.once "seed" fun s => { s with seed := some n.toUInt64 }
  | ["registers"], .table entries =>
    if d.style = .absent then { d with style := .whole }.addPresets entries else none
  | ["registers"], .scalar (.moment t) =>
    if d.style = .absent then { d with style := .whole }.addPreset momentKey (.text t) else none
  | ["registers", name], .scalar value =>
    if d.style = .absent || d.style = .dotted then { d with style := .dotted }.addPreset name value
    else none
  | _, _ => none

/-- The draft after a further statement. -/
def add (d : Draft) : Statement → Option Draft
  | .heading path =>
    if path = ["registers"] && d.style = .absent then some { d with style := .heading } else none
  | .assign path value =>
    if d.style = .heading then
      match path, value with
      | [name], .scalar s => d.addPreset name s
      | _, _ => none
    else d.assign path value

end Draft

/-- The settings in a file, which start from the standard ones. -/
def ofFile? (source : String) : Option Settings := do
  let statements ← readStatements? source
  let draft ← statements.foldlM Draft.add ⟨standard, [], .absent⟩
  return draft.settings

end CritterScript.Settings
