import CritterScript.Message
import CritterScript.Registers

/-!
# The message board

Several runs submit messages to a board, and the board settles on one value
for each key. Of the submissions for a key only those of the highest priority
are kept, in the order in which they came (`Ballot.submit`). Among these the
most frequent value wins; if several are equally frequent, the one that
reached that count first (`mostFrequent?`).

Priorities compare as numbers. A submission with priority `NaN`, or one that
meets such an entry, is neither below nor equal to it and replaces it.
-/

namespace CritterScript

/-- The values submitted for a key at the priority that counts. -/
structure Ballot where
  priority : Float
  values : List Value

/-- The ballot of a key after a further submission. -/
def Ballot.submit (ballot : Option Ballot) (m : Message) : Ballot :=
  match ballot with
  | some b =>
    if b.priority > m.priority then b
    else if b.priority == m.priority then { b with values := b.values ++ [m.value] }
    else ⟨m.priority, [m.value]⟩
  | none => ⟨m.priority, [m.value]⟩

/-- How often each value was seen, in order of first sight. -/
abbrev Tally := List (Value × Nat)

/-- The slot of a value, and the tally that has it. A value that was not seen
gets a new slot at the end. -/
def Tally.slot (t : Tally) (v : Value) : Nat × Tally :=
  match t.findIdx? (·.1 == v) with
  | some slot => (slot, t)
  | none => (t.length, t ++ [(v, 0)])

/-- A count that goes on: the tally, and the slot of the leader with its
count. -/
structure Poll where
  tally : Tally
  best : Option (Nat × Nat)

namespace Poll

/-- Counts one more value. Its count must exceed that of the leader to replace
it. -/
def vote (poll : Poll) (v : Value) : Poll :=
  let (slot, tally) := poll.tally.slot v
  let tally := tally.modify slot fun e => (e.1, e.2 + 1)
  let count := (tally[slot]?.map Prod.snd).getD 0
  ⟨tally, if poll.best.all fun best => count > best.2 then some (slot, count) else poll.best⟩

/-- The value of the leader. -/
def winner? (poll : Poll) : Option Value :=
  poll.best.bind fun best => poll.tally[best.1]?.map Prod.fst

end Poll

/-- The most frequent of a list of values, the first to reach its count. -/
def mostFrequent? (values : List Value) : Option Value :=
  (values.foldl Poll.vote ⟨[], none⟩).winner?

/-- The ballots by key. -/
structure Board where
  ballots : NameTable Ballot

namespace Board

/-- The board before any submission. -/
def empty : Board := ⟨∅⟩

instance : Inhabited Board := ⟨empty⟩

def isEmpty (b : Board) : Bool :=
  b.ballots.isEmpty

def submit (b : Board) (key : String) (m : Message) : Board :=
  ⟨b.ballots.insert key (Ballot.submit b.ballots[key]? m)⟩

/-- Submits messages in byte order of their keys. -/
def submitAll (b : Board) (messages : Outbox) : Board :=
  messages.toList.foldl (fun b (key, m) => b.submit key m) b

/-- The values that the board settles on. -/
def resolve (b : Board) : Registers :=
  .ofList (b.ballots.toList.map fun (key, ballot) =>
    (key, (mostFrequent? ballot.values).getD .null))

/-- The values that the board settles on, and the board after that, which
starts anew. -/
def drain (b : Board) : Registers × Board :=
  (b.resolve, empty)

end Board

end CritterScript
