import CritterScript.Settings.Moment
import CritterScript.Settings.Quoted

/-!
# Statements of a settings file

A settings file is TOML, of which only the part is read that can hold a
setting: text, whole numbers, dates, and tables of these. A number with a
point, a truth value or an array is no setting, so it is refused as soon as
it is met.

A file is a sequence of statements. A statement assigns a value to a dotted
path of keys, or is a heading; blank lines and comments say nothing.
-/

namespace CritterScript.Settings

/-- A single value. -/
inductive Scalar where
  | text (s : String)
  | integer (n : Int)
  | moment (text : String)
deriving DecidableEq, Repr

/-- What a statement assigns: a single value, or a table on one line. -/
inductive Assigned where
  | scalar (s : Scalar)
  | table (entries : List (List String × Scalar))
deriving DecidableEq, Repr

/-- A statement of a settings file. -/
inductive Statement where
  | assign (path : List String) (value : Assigned)
  | heading (path : List String)
deriving DecidableEq, Repr

/-! ## Space -/

/-- Whether a character parts words within a line. -/
def isSpace (c : Char) : Bool :=
  c = ' ' || c = '\t'

def skipSpace (cs : List Char) : List Char :=
  cs.dropWhile isSpace

/-- What follows a comment, if there is one. -/
def skipComment : List Char → List Char
  | '#' :: cs => cs.dropWhile isPrintable
  | cs => cs

/-- What follows the end of a line, before which only space and a comment may
stand. The end of the file ends a line. -/
def readLineEnd? (cs : List Char) : Option (List Char) :=
  match skipComment (skipSpace cs) with
  | [] => some []
  | '\n' :: rest => some rest
  | '\r' :: '\n' :: rest => some rest
  | _ => none

/-! ## Keys -/

/-- Whether a character may stand in a key without quotes. -/
def isKeyChar (c : Char) : Bool :=
  c.isAlphanum || c = '_' || c = '-'

/-- The key at the start of a text. -/
def readKey? (cs : List Char) : Option (String × List Char) :=
  match cs.takeWhile isKeyChar with
  | [] => readQuoted? cs
  | key => some (String.ofList key, cs.dropWhile isKeyChar)

/-- The dotted path at the start of a text, of at most `fuel` keys, and what
follows it and the space after it. -/
def readPath? : (fuel : Nat) → List Char → Option (List String × List Char)
  | 0, _ => none
  | fuel + 1, cs => do
    let (key, cs) ← readKey? (skipSpace cs)
    match skipSpace cs with
    | '.' :: cs => (readPath? fuel cs).map fun (path, cs) => (key :: path, cs)
    | cs => some ([key], cs)

/-! ## Values -/

/-- The number that a word writes in a base, where single underscores may
stand between digits. -/
def readDigits? (base : Nat) (cs : List Char) : Option Nat := do
  if (cs.splitOn '_').any List.isEmpty then none
  else
    let step (n : Nat) (c : Char) : Option Nat := do
      let d ← hexDigit? c
      if d < base then some (base * n + d) else none
    (cs.filter (· != '_')).foldlM step 0

/-- The number that a word writes in decimal, without a zero in front. -/
def readDecimal? : List Char → Option Nat
  | ['0'] => some 0
  | '0' :: _ => none
  | cs => readDigits? 10 cs

/-- The whole number that a word writes, in base ten, or in base sixteen,
eight or two after `0x`, `0o` or `0b`. It must fit in 64 bits with a sign. -/
def readInteger? (word : List Char) : Option Int := do
  let n : Int ← match word with
    | '0' :: 'x' :: cs => (readDigits? 16 cs).map Int.ofNat
    | '0' :: 'o' :: cs => (readDigits? 8 cs).map Int.ofNat
    | '0' :: 'b' :: cs => (readDigits? 2 cs).map Int.ofNat
    | '+' :: cs => (readDecimal? cs).map Int.ofNat
    | '-' :: cs => (readDecimal? cs).map fun n => -(n : Int)
    | cs => (readDecimal? cs).map Int.ofNat
  if -Int.pow 2 63 ≤ n && n < Int.pow 2 63 then some n else none

/-- Whether a character may stand in a number. -/
def isNumberChar (c : Char) : Bool :=
  c.isAlphanum || c = '_' || c = '+' || c = '-'

/-- The single value at the start of a text. -/
def readScalar? (cs : List Char) : Option (Scalar × List Char) :=
  match readText? cs with
  | some (s, cs) => some (.text s, cs)
  | none =>
    match readMoment? cs with
    | some (s, cs) => some (.moment s, cs)
    | none =>
      (readInteger? (cs.takeWhile isNumberChar)).map fun n =>
        (.integer n, cs.dropWhile isNumberChar)

/-- A path of at most `fuel` keys, an equals sign, and what follows them and
the space around. -/
def readTarget? (fuel : Nat) (cs : List Char) : Option (List String × List Char) := do
  let (path, cs) ← readPath? fuel cs
  match cs with
  | '=' :: cs => some (path, skipSpace cs)
  | _ => none

/-- The entries of a table on one line, up to its closing brace. There are at
most `fuel`, and their paths have no more keys. -/
def readEntries? : (fuel : Nat) → List Char → Option (List (List String × Scalar) × List Char)
  | 0, _ => none
  | fuel + 1, cs => do
    let (path, cs) ← readTarget? (fuel + 1) cs
    let (value, cs) ← readScalar? cs
    match skipSpace cs with
    | ',' :: cs => (readEntries? fuel cs).map fun (entries, cs) => ((path, value) :: entries, cs)
    | '\x7d' :: cs => some ([(path, value)], cs)
    | _ => none

/-- The value at the start of a text, with at most `fuel` entries. -/
def readValue? (fuel : Nat) : List Char → Option (Assigned × List Char)
  | '\x7b' :: cs =>
    match skipSpace cs with
    | '\x7d' :: cs => some (.table [], cs)
    | cs => (readEntries? fuel cs).map fun (entries, cs) => (.table entries, cs)
  | cs => (readScalar? cs).map fun (s, cs) => (.scalar s, cs)

/-! ## Statements -/

/-- The statement at the start of a text, and what follows its line. Paths and
tables have at most `fuel` parts. -/
def readStatement? (fuel : Nat) : List Char → Option (Statement × List Char)
  | '[' :: cs => do
    let (path, cs) ← readPath? fuel cs
    let cs ← after? ']' cs
    return (.heading path, ← readLineEnd? cs)
  | cs => do
    let (path, cs) ← readTarget? fuel cs
    let (value, cs) ← readValue? fuel cs
    return (.assign path value, ← readLineEnd? cs)

/-- The statements of a text. Every line and every part of one has at least a
character, so a `fuel` greater than their number is enough. -/
def readStatementsFrom? : (fuel : Nat) → List Char → Option (List Statement)
  | 0, _ => none
  | fuel + 1, cs =>
    match skipSpace cs with
    | [] => some []
    | c :: cs =>
      if c = '#' || c = '\n' || c = '\r' then do
        readStatementsFrom? fuel (← readLineEnd? (c :: cs))
      else do
        let (statement, cs) ← readStatement? (fuel + 1) (c :: cs)
        (readStatementsFrom? fuel cs).map (statement :: ·)

/-- What follows a byte order mark. -/
def dropMark : List Char → List Char
  | '\uFEFF' :: cs => cs
  | cs => cs

/-- The statements of a settings file. -/
def readStatements? (source : String) : Option (List Statement) :=
  let cs := dropMark source.toList
  readStatementsFrom? (cs.length + 1) cs

end CritterScript.Settings
