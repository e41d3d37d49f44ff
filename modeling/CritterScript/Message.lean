import CritterScript.Names
import CritterScript.Value

/-!
# Messages

A script proposes values for keys that it shares with others, each with a
priority. An outbox holds at most one message for a key: a new message takes
the place of the old one unless the old one has the greater priority. No
priority is greater than `NaN`, and `NaN` is greater than none, so a message
with priority `NaN` always comes in and never stands in the way.
-/

namespace CritterScript

/-- A proposed value and how urgent it is. -/
structure Message where
  value : Value
  priority : Float
deriving DecidableEq

/-- The messages of one run, by key. -/
abbrev Outbox := NameTable Message

/-- The outbox after a message for a key. -/
def Outbox.post (o : Outbox) (key : String) (m : Message) : Outbox :=
  match o[key]? with
  | some old => if old.priority > m.priority then o else o.insert key m
  | none => o.insert key m

end CritterScript
