import CritterScript.Names
import CritterScript.Value

/-!
# Registers

The store a script works on. A register that was never written reads as
`Value.null` (`get`), yet it is not the same as one that holds `null`: only
the latter is listed (`get?`).
-/

namespace CritterScript

/-- The registers that hold a value. -/
structure Registers where
  cells : NameTable Value

namespace Registers

/-- No register holds a value. -/
def empty : Registers := ⟨∅⟩

instance : EmptyCollection Registers := ⟨empty⟩
instance : Inhabited Registers := ⟨empty⟩

/-- What the register holds. -/
def get? (r : Registers) (name : String) : Option Value :=
  r.cells[name]?

/-- What the register reads as. -/
def get (r : Registers) (name : String) : Value :=
  (r.get? name).getD .null

def set (r : Registers) (name : String) (v : Value) : Registers :=
  ⟨r.cells.insert name v⟩

def erase (r : Registers) (name : String) : Registers :=
  ⟨r.cells.erase name⟩

def contains (r : Registers) (name : String) : Bool :=
  r.cells.contains name

/-- The number of registers that hold a value. -/
def size (r : Registers) : Nat :=
  r.cells.size

def isEmpty (r : Registers) : Bool :=
  r.cells.isEmpty

/-- The registers in byte order of their names. -/
def toList (r : Registers) : List (String × Value) :=
  r.cells.toList

/-- Sets the listed registers in turn. -/
def setAll (r : Registers) (entries : List (String × Value)) : Registers :=
  entries.foldl (fun r (name, v) => r.set name v) r

/-- The registers of `upper` written over those of `lower`. -/
def overlay (lower upper : Registers) : Registers :=
  lower.setAll upper.toList

def ofList (entries : List (String × Value)) : Registers :=
  empty.setAll entries

@[simp] theorem get?_empty (name : String) : empty.get? name = none := by
  simp [get?, empty]

theorem get?_set (r : Registers) (name other : String) (v : Value) :
    (r.set name v).get? other = if name = other then some v else r.get? other := by
  simp [get?, set, Std.ExtTreeMap.getElem?_insert]

@[simp] theorem get?_set_self (r : Registers) (name : String) (v : Value) :
    (r.set name v).get? name = some v := by
  simp [get?_set]

@[simp] theorem get_set_self (r : Registers) (name : String) (v : Value) :
    (r.set name v).get name = v := by
  simp [get]

theorem get?_erase (r : Registers) (name other : String) :
    (r.erase name).get? other = if name = other then none else r.get? other := by
  simp [get?, erase, Std.ExtTreeMap.getElem?_erase]

/-- Registers are what they hold. -/
@[ext] theorem ext {r s : Registers} (h : ∀ name, r.get? name = s.get? name) : r = s := by
  cases r
  cases s
  congr 1
  exact Std.ExtTreeMap.ext_getElem? h

end Registers

end CritterScript
