/-!
# Dates and times in settings files

A date, a time of day, or both with a space or a `T` between them, and then
optionally an offset from universal time. A reader gives the text of what it
has read in one fixed form: `T` between date and time, a fraction of a second
of at most nine digits without zeros at its end, and `Z` or a signed offset.
-/

namespace CritterScript.Settings

/-- The two digits at the start of a text, if the number they write is at
most `limit`, and the rest. -/
def readPair? (limit : Nat) : List Char → Option (List Char × List Char)
  | a :: b :: rest =>
    if a.isDigit && b.isDigit &&
        10 * (a.toNat - '0'.toNat) + (b.toNat - '0'.toNat) ≤ limit then
      some ([a, b], rest)
    else none
  | _ => none

/-- The number that two or four digits write. -/
def pairValue (cs : List Char) : Nat :=
  cs.foldl (fun n c => 10 * n + (c.toNat - '0'.toNat)) 0

/-- The days of a month. -/
def monthLength (year month : Nat) : Nat :=
  if month = 2 then
    if year % 4 = 0 && (year % 100 != 0 || year % 400 = 0) then 29 else 28
  else if month = 4 || month = 6 || month = 9 || month = 11 then 30
  else 31

/-- What follows a character. -/
def after? (c : Char) : List Char → Option (List Char)
  | d :: rest => if d = c then some rest else none
  | [] => none

/-- A date: year, month and day. -/
def readDate? (cs : List Char) : Option (List Char × List Char) := do
  let (century, cs) ← readPair? 99 cs
  let (year, cs) ← readPair? 99 cs
  let cs ← after? '-' cs
  let (month, cs) ← readPair? 12 cs
  let cs ← after? '-' cs
  let (day, cs) ← readPair? (monthLength (pairValue (century ++ year)) (pairValue month)) cs
  if pairValue month = 0 || pairValue day = 0 then none
  else some (century ++ year ++ '-' :: month ++ '-' :: day, cs)

/-- A fraction of a second, of which nine digits count. -/
def readFraction? : List Char → Option (List Char × List Char)
  | '.' :: cs =>
    let digits := cs.takeWhile Char.isDigit
    if digits.isEmpty then none
    else
      let kept := ((digits.take 9).reverse.dropWhile (· = '0')).reverse
      some (if kept.isEmpty then [] else '.' :: kept, cs.dropWhile Char.isDigit)
  | _ => none

/-- A time of day: hour, minute, second, and optionally a fraction. A minute
may have a leap second. -/
def readTime? (cs : List Char) : Option (List Char × List Char) := do
  let (hour, cs) ← readPair? 23 cs
  let cs ← after? ':' cs
  let (minute, cs) ← readPair? 59 cs
  let cs ← after? ':' cs
  let (second, cs) ← readPair? 60 cs
  let whole := hour ++ ':' :: minute ++ ':' :: second
  match readFraction? cs with
  | some (fraction, cs) => some (whole ++ fraction, cs)
  | none => some (whole, cs)

/-- An offset from universal time. -/
def readOffset? : List Char → Option (List Char × List Char)
  | 'Z' :: cs | 'z' :: cs => some (['Z'], cs)
  | c :: cs => do
    if c != '+' && c != '-' then none
    else
      let (hour, cs) ← readPair? 23 cs
      let cs ← after? ':' cs
      let (minute, cs) ← readPair? 59 cs
      let sign := if pairValue (hour ++ minute) = 0 then '+' else c
      some (sign :: hour ++ ':' :: minute, cs)
  | [] => none

/-- A time and an optional offset after the character that parts them from
the date. -/
def readTimeOfDate? : List Char → Option (List Char × List Char)
  | c :: cs => do
    if c != 'T' && c != 't' && c != ' ' then none
    else
      let (time, cs) ← readTime? cs
      match readOffset? cs with
      | some (offset, cs) => some ('T' :: time ++ offset, cs)
      | none => some ('T' :: time, cs)
  | [] => none

/-- The date or time at the start of a text. -/
def readMoment? (cs : List Char) : Option (String × List Char) :=
  match readDate? cs with
  | some (date, cs) =>
    match readTimeOfDate? cs with
    | some (time, cs) => some (String.ofList (date ++ time), cs)
    | none => some (String.ofList date, cs)
  | none => (readTime? cs).map fun (time, cs) => (String.ofList time, cs)

end CritterScript.Settings
