import CritterScript.Script.Token

/-!
# Excerpts

An excerpt is a message pinned to a place in the lines of a script. It can be
shown as three lines of text (`render`), or described for a display that draws
it (`diagnostic`): then the message points at a span of bytes of the joined
lines and may come with a hint.
-/

namespace CritterScript

/-- A message about a place in some lines. -/
structure Excerpt where
  message : String
  place : Place
  lines : List String

/-- What a display needs to draw an excerpt: the message, a code for its
kind, a hint, and the labelled bytes `[offset, offset + length)`. -/
structure Diagnostic where
  message : String
  code : String
  hint : Option String
  offset : Nat
  length : Nat
  label : String

namespace Excerpt

/-- The line of the excerpt; empty if there is no such line. -/
def sourceLine (e : Excerpt) : String :=
  (e.lines[e.place.line]?).getD ""

/-- The byte offset of the place in the lines joined by line feeds. -/
def offset (e : Excerpt) : Nat :=
  (e.lines.take e.place.line).foldr (fun line n => Text.byteSize line.toList + 1 + n) 0 +
    e.place.column

/-- The message, the line, and a caret under the place. -/
def render (e : Excerpt) : String :=
  String.intercalate "\n"
    [s!"L{e.place.line + 1} {e.message}",
      s!"| {e.sourceLine}",
      "| " ++ String.ofList (List.replicate e.place.column ' ') ++ "^"]

/-- The number of bytes of the word, or item of an array, that starts at the
place; at least one. -/
def spanLength (e : Excerpt) : Nat :=
  match Text.dropBytes? e.place.column e.sourceLine.toList with
  | none => 1
  | some rest =>
    max 1 (Text.byteSize (rest.takeWhile fun c => !Text.isBlank c && c != itemSeparator))

/-- A hint on how to mend a mistake, told from the words of its message. -/
def hint? (e : Excerpt) : Option String :=
  if "Bad instruction".toList.isPrefixOf e.message.toList then
    some "run `crasm docs` for the list of instructions"
  else if "Unexpected code after".toList.isPrefixOf e.message.toList then
    some "put the instruction on the line after the label"
  else if Text.occursIn "should be a register".toList e.message.toList then
    some "results can only be stored in a $register"
  else
    none

def diagnostic (e : Excerpt) : Diagnostic where
  message := e.message
  code := "crasm::parse"
  hint := e.hint?
  offset := e.offset
  length := e.spanLength
  label := "here"

end Excerpt

end CritterScript
