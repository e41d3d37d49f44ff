import CritterScript.Reference.Entry
import CritterScript.Text.Basic

/-!
# Searching the reference

A query finds the entries whose name starts with it, a register with or
without its `$`. If these are few and the query is long enough, the entries
whose description contains it follow, unless they are there already. Case does
not matter. A search goes through the instructions and the registers, and
adds to what it has found (`Findings`). What is found is printed as a table of
two columns (`table`).
-/

namespace CritterScript.Reference

/-- The lowercase of a character, as far as it can matter here: names and
descriptions are ASCII, and of the characters beyond ASCII only the Kelvin
sign has a lowercase letter within. -/
def lower (c : Char) : Char :=
  if c = '\u212A' then 'k' else c.toLower

def lowered (s : String) : List Char :=
  s.toList.map lower

/-- The texts that count as the name of an entry. -/
def Topic.keys : Topic → List (List Char)
  | opcode op => [lowered op.name]
  | register bare => [lowered ("$" ++ bare), lowered bare]

/-- Whether the name of an entry starts with a query in lowercase. -/
def Entry.named (e : Entry) (query : List Char) : Bool :=
  e.topic.keys.any query.isPrefixOf

/-- Whether the description of an entry contains a query in lowercase. -/
def Entry.mentions (e : Entry) (query : List Char) : Bool :=
  Text.occursIn query (lowered e.description)

/-- Descriptions are searched if fewer entries than this match by name. -/
def fewEntries : Nat := 3

/-- Descriptions are searched for queries of at least so many bytes. -/
def longQuery : Nat := 3

/-- What a search has found so far, and the names of what was added. -/
structure Findings where
  results : List Entry
  added : List String

namespace Findings

def empty : Findings := ⟨[], []⟩

def add (f : Findings) (e : Entry) : Findings :=
  ⟨f.results ++ [e], e.topic.name :: f.added⟩

/-- Goes through some entries and adds those that are wanted. This may depend
on what was added before. -/
def collect (f : Findings) (wanted : List String → Entry → Bool) (es : List Entry) : Findings :=
  es.foldl (fun f e => if wanted f.added e then f.add e else f) f

end Findings

/-- The entries that a query finds. -/
def search (query : String) : List Entry :=
  let query := lowered query
  let named := fun (_ : List String) (e : Entry) => e.named query
  let mentions := fun (added : List String) (e : Entry) =>
    !added.contains e.topic.name && e.mentions query
  let found := (Findings.empty.collect named instructions).collect named registers
  if found.results.length < fewEntries && longQuery ≤ Text.byteSize query then
    ((found.collect mentions instructions).collect mentions registers).results
  else found.results

/-- Entries one per line, with the descriptions in a column of their own. -/
def table (es : List Entry) : String :=
  let width := ((es.map fun e => e.spec.length).max?).getD 0
  String.join (es.map fun e => s!"{Text.padRight width e.spec}  {e.description}\n")

/-- The whole reference with its heading. -/
def full : String :=
  "crasm reference:\n" ++
    "*Hint - use `crasm docs <query>` to search by name or description\n\n" ++
    table entries

end CritterScript.Reference
