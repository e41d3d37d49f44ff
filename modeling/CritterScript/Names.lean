import Std.Data.ExtTreeMap

/-!
# Tables by name

Registers, labels, messages and settings are tables keyed by a name. Names
are ordered by their code points, which is the order of their UTF-8 bytes,
and a table lists its entries in that order. Two tables with the same entries
are equal.
-/

namespace CritterScript

/-- A table with entries of type `α`, keyed by names in byte order. -/
abbrev NameTable (α : Type) := Std.ExtTreeMap String α

end CritterScript
