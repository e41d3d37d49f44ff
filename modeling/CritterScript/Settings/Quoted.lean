import CritterScript.Text.Basic

/-!
# Quoted text in settings files

A settings file writes text in four ways: between double quotes, where a
backslash starts an escape; between single quotes, where it does not; and
between three quotes of either kind, where the text may run over several
lines. A line feed right after three opening quotes does not count, and up to
two quotes may stand right before three closing ones.

Every reader here takes the characters after the opening quotes and gives the
text and what follows the closing quotes.
-/

namespace CritterScript.Settings

/-- Control characters other than the tab stand nowhere in a settings file,
line ends apart. -/
def isPrintable (c : Char) : Bool :=
  c = '\t' || (' ' ≤ c && c != '\x7F')

/-- The value of a hexadecimal digit. -/
def hexDigit? (c : Char) : Option Nat :=
  if c.isDigit then some (c.toNat - '0'.toNat)
  else if 'a' ≤ c && c ≤ 'f' then some (c.toNat - 'a'.toNat + 10)
  else if 'A' ≤ c && c ≤ 'F' then some (c.toNat - 'A'.toNat + 10)
  else none

/-- The character with a code point in hexadecimal, if there is one. -/
def codePoint? (digits : List Char) : Option Char := do
  let n ← digits.foldlM (fun n c => return 16 * n + (← hexDigit? c)) 0
  if n.isValidChar then some (Char.ofNat n) else none

/-- The character that a backslash and a letter stand for. -/
def escape? : Char → Option Char
  | 'b' => some '\x08'
  | 't' => some '\t'
  | 'n' => some '\n'
  | 'f' => some '\x0C'
  | 'r' => some '\r'
  | '"' => some '"'
  | '\\' => some '\\'
  | _ => none

/-- Puts a character in front of the text that a reader has found. -/
def withChar (c : Char) (found : Option (List Char × List Char)) : Option (List Char × List Char) :=
  found.map fun (text, rest) => (c :: text, rest)

/-- Text up to a double quote. -/
def readDouble : List Char → Option (List Char × List Char)
  | '"' :: rest => some ([], rest)
  | '\\' :: 'u' :: a :: b :: c :: d :: rest => do
    withChar (← codePoint? [a, b, c, d]) (readDouble rest)
  | '\\' :: 'U' :: a :: b :: c :: d :: e :: f :: g :: h :: rest => do
    withChar (← codePoint? [a, b, c, d, e, f, g, h]) (readDouble rest)
  | '\\' :: e :: rest => do withChar (← escape? e) (readDouble rest)
  | c :: rest => if c != '\\' && isPrintable c then withChar c (readDouble rest) else none
  | [] => none

/-- Text up to a single quote. -/
def readSingle : List Char → Option (List Char × List Char)
  | '\'' :: rest => some ([], rest)
  | c :: rest => if isPrintable c then withChar c (readSingle rest) else none
  | [] => none

/-- Whether a line ends after spaces and tabs. -/
def endsLine (cs : List Char) : Bool :=
  match cs.dropWhile fun c => c = ' ' || c = '\t' with
  | '\n' :: _ | '\r' :: '\n' :: _ => true
  | _ => false

/-- Text up to three double quotes. A backslash at the end of a line removes
the line end with all blank space that follows; `skipping` says that this is
going on. -/
def readTripleDouble (skipping : Bool) : List Char → Option (List Char × List Char)
  | '"' :: '"' :: '"' :: '"' :: '"' :: rest => some (['"', '"'], rest)
  | '"' :: '"' :: '"' :: '"' :: rest => some (['"'], rest)
  | '"' :: '"' :: '"' :: rest => some ([], rest)
  | '\r' :: '\n' :: rest =>
    if skipping then readTripleDouble true rest
    else withChar '\n' (readTripleDouble false rest)
  | '\n' :: rest =>
    if skipping then readTripleDouble true rest
    else withChar '\n' (readTripleDouble false rest)
  | '\\' :: 'u' :: a :: b :: c :: d :: rest => do
    withChar (← codePoint? [a, b, c, d]) (readTripleDouble false rest)
  | '\\' :: 'U' :: a :: b :: c :: d :: e :: f :: g :: h :: rest => do
    withChar (← codePoint? [a, b, c, d, e, f, g, h]) (readTripleDouble false rest)
  | '\\' :: e :: rest =>
    if endsLine (e :: rest) then readTripleDouble true (e :: rest)
    else do withChar (← escape? e) (readTripleDouble false rest)
  | c :: rest =>
    if skipping && (c = ' ' || c = '\t') then readTripleDouble true rest
    else if c != '\\' && isPrintable c then withChar c (readTripleDouble false rest)
    else none
  | [] => none

/-- Text up to three single quotes. -/
def readTripleSingle : List Char → Option (List Char × List Char)
  | '\'' :: '\'' :: '\'' :: '\'' :: '\'' :: rest => some (['\'', '\''], rest)
  | '\'' :: '\'' :: '\'' :: '\'' :: rest => some (['\''], rest)
  | '\'' :: '\'' :: '\'' :: rest => some ([], rest)
  | '\r' :: '\n' :: rest => withChar '\n' (readTripleSingle rest)
  | '\n' :: rest => withChar '\n' (readTripleSingle rest)
  | c :: rest => if isPrintable c then withChar c (readTripleSingle rest) else none
  | [] => none

/-- What follows a line end, if the text starts with one. -/
def dropLineEnd : List Char → List Char
  | '\n' :: rest => rest
  | '\r' :: '\n' :: rest => rest
  | cs => cs

/-- The quoted text at the start of a text, on one line. -/
def readQuoted? : List Char → Option (String × List Char)
  | '"' :: rest => (readDouble rest).map fun (text, rest) => (String.ofList text, rest)
  | '\'' :: rest => (readSingle rest).map fun (text, rest) => (String.ofList text, rest)
  | _ => none

/-- The quoted text at the start of a text, on one line or several. -/
def readText? : List Char → Option (String × List Char)
  | '"' :: '"' :: '"' :: rest =>
    (readTripleDouble false (dropLineEnd rest)).map fun (text, rest) => (String.ofList text, rest)
  | '\'' :: '\'' :: '\'' :: rest =>
    (readTripleSingle (dropLineEnd rest)).map fun (text, rest) => (String.ofList text, rest)
  | cs => readQuoted? cs

end CritterScript.Settings
