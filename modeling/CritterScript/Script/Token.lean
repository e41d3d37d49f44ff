import CritterScript.Text.Basic

/-!
# Tokens

A line of a script is a sequence of words, and everything from the first `;`
on is a comment. `tokenize` gives the words of a line with their places. The
first character of a word tells labels (`@`) and registers (`$`) from the
rest.
-/

namespace CritterScript

/-- A place in a script: a line, counted from zero, and a byte column. -/
structure Place where
  line : Nat
  column : Nat
deriving DecidableEq, Repr

namespace Place

/-- The place `bytes` further along the line. -/
def shift (p : Place) (bytes : Nat) : Place :=
  { p with column := p.column + bytes }

/-- A place for people, who count from one. -/
def text (p : Place) : String :=
  s!"{p.line + 1}:{p.column + 1}"

end Place

/-- The first character of every label. -/
def labelSigil : Char := '@'

/-- The first character of every register name. -/
def registerSigil : Char := '$'

/-- The character that starts a comment. -/
def commentMark : Char := ';'

/-- The character between the items of an array. -/
def itemSeparator : Char := ','

/-- Whether a text starts with a character. -/
def startsWith (c : Char) (s : String) : Bool :=
  s.toList.head? == some c

/-- A word of a script and where it starts. -/
structure Token where
  text : String
  place : Place
deriving DecidableEq, Repr

namespace Token

def isLabel (t : Token) : Bool :=
  startsWith labelSigil t.text

def isRegister (t : Token) : Bool :=
  startsWith registerSigil t.text

end Token

/-- The part of a line before its comment. -/
def codePart (line : List Char) : List Char :=
  line.takeWhile (· != commentMark)

/-- The tokens of a line, which is line number `index` of its script. -/
def tokenize (line : String) (index : Nat) : List Token :=
  (Text.words 0 (codePart line.toList)).map fun (column, word) =>
    ⟨String.ofList word, ⟨index, column⟩⟩

end CritterScript
