import CritterScript.Script.Mistake
import CritterScript.Value

/-!
# Literals

How a value is written in a script. A word that starts with `@` is a label. A
word with a comma in it is an array: the numbers between its commas, where
nothing at all may stand between two commas and counts for nothing. `null`
is the value that is none, and every other literal is a number.
-/

namespace CritterScript

/-- The numbers of the items of an array, the first of which starts at
`place`. Empty items are skipped. -/
def readItems (place : Place) : List (List Char) → Except SyntaxError (List Float)
  | [] => .ok []
  | item :: rest =>
    let next := place.shift (Text.byteSize item + itemSeparator.utf8Size)
    if item.isEmpty then readItems next rest
    else
      match Number.read? item with
      | none => .error ⟨.badItem (String.ofList item), place⟩
      | some x => (readItems next rest).map (x :: ·)

/-- The value that a token writes. -/
def readLiteral (t : Token) : Except SyntaxError Value :=
  let cs := t.text.toList
  if t.isLabel then .ok (.label t.text)
  else if cs.contains itemSeparator then
    (readItems t.place (cs.splitOn itemSeparator)).map .array
  else if t.text = "null" then .ok .null
  else
    match Number.read? cs with
    | none => .error ⟨.badLiteral t.text, t.place⟩
    | some x => .ok (.number x)

end CritterScript
