import CritterScript.Opcode

/-!
# The reference

What every instruction does, and what the registers mean that hosts commonly
provide. The engine itself gives a meaning to `$state` alone.
-/

namespace CritterScript.Reference

/-- What an entry is about. -/
inductive Topic where
  | opcode (op : Opcode)
  /-- A register, whose name here lacks the `$`. -/
  | register (bare : String)
deriving DecidableEq, Repr

def Topic.name : Topic → String
  | opcode op => op.name
  | register bare => "$" ++ bare

/-- An entry of the reference. -/
structure Entry where
  topic : Topic
  /-- The operands of an instruction, or the type and access of a register. -/
  usage : String
  description : String
deriving DecidableEq, Repr

/-- The name and the usage. -/
def Entry.spec (e : Entry) : String :=
  s!"{e.topic.name} {e.usage}"

/-- The instructions. -/
def instructions : List Entry :=
  [⟨.opcode .mov, "in $out", "copy the value (a register or literal) from in to $out"⟩,
    ⟨.opcode .add, "a b $out", "add a to b (element-wise) and store in $out"⟩,
    ⟨.opcode .sub, "a b $out", "subtract b from a (element-wise) and store in $out"⟩,
    ⟨.opcode .mul, "a b $out", "multiply a with b (element-wise) and store in $out"⟩,
    ⟨.opcode .div, "a b $out", "divide a by b (element-wise) and store in $out"⟩,
    ⟨.opcode .mod, "a b $out", "take the modulo of a by b (element-wise) and store in $out"⟩,
    ⟨.opcode .rand, "$out", "store a random number between 0 and 1 in $out"⟩,
    ⟨.opcode .push, "a0 a1 $out", "concatenate or append a1 to a0 and store in $out"⟩,
    ⟨.opcode .get, "array i $out", "get the value at index i from array and store in $out"⟩,
    ⟨.opcode .vlen, "array $out",
      "calculate the Euclidean vector length of array and store in $out"⟩,
    ⟨.opcode .vdir, "array $out",
      "calculate the vector direction in radians (0 = north, 1.57 = east) from array and store in $out"⟩,
    ⟨.opcode .unitv, "angle $out", "calculate the unit vector for angle and store in $out"⟩,
    ⟨.opcode .jmp, "@label", "jump to @label"⟩,
    ⟨.opcode .jez, "value @label", "jump to @label if value == 0 or null"⟩,
    ⟨.opcode .jlz, "value @label", "jump to @label if value < 0"⟩,
    ⟨.opcode .jgz, "value @label", "jump to @label if value > 0"⟩,
    ⟨.opcode .ret, "", "end execution of the program (for this update tick)"⟩,
    ⟨.opcode .send, "priority value $out",
      "propose value for $out at priority; the highest priority wins and shows up in $out next tick"⟩]

/-- The registers that hosts commonly provide. -/
def registers : List Entry :=
  [⟨.register "state", "@lab|null R/W", "entry point for the next update tick"⟩,
    ⟨.register "dst", "x,y|null R/W", "move towards the coordinates x,y"⟩,
    ⟨.register "tgt", "x,y|null R/W", "attack x,y if in range (note: takes precedence over $dst)"⟩,
    ⟨.register "id", "number R", "critter ID (unique, starting from 0)"⟩,
    ⟨.register "pos", "x,y R", "current position"⟩,
    ⟨.register "hlth", "number R", "current health"⟩,
    ⟨.register "ne", "x,y|null R", "nearest enemy critter position"⟩,
    ⟨.register "nf", "x,y|null R", "nearest friendly critter position"⟩,
    ⟨.register "hb", "x,y R", "first (home) base position"⟩,
    ⟨.register "eb", "x,y R", "enemy base position (not neutral)"⟩,
    ⟨.register "nnb", "x,y|null R", "nearest neutral base position"⟩,
    ⟨.register "mark", "x,y|null R", "user-controlled manual marker position"⟩,
    ⟨.register "time", "number R", "simulation time in seconds"⟩,
    ⟨.register "fcc", "number R", "friendly critter count"⟩]

/-- All entries: the instructions, then the registers. -/
def entries : List Entry :=
  instructions ++ registers

end CritterScript.Reference
