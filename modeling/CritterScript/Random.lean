/-!
# Random numbers

A `Sampler` is a source of numbers in `[0, 1)`: drawing gives the number and
the source that comes after it. `SplitMix` is the sampler that seeded runs
use. It counts in steps of `gamma` modulo `2 ^ 64` and scrambles every count
by `mix`; a number in `[0, 1)` is made of the upper 53 bits.
-/

namespace CritterScript

/-- A source of random numbers. -/
class Sampler (ρ : Type) where
  /-- The next number, and the source after it. -/
  draw : ρ → Float × ρ

/-- A stream of 64-bit words, given by its count. -/
structure SplitMix where
  state : UInt64
deriving DecidableEq, Repr

namespace SplitMix

/-- The step of the count: an odd number near `2 ^ 64` over the golden
ratio. -/
def gamma : UInt64 := 0x9E3779B97F4A7C15

/-- The stream of a seed. The seed zero stands for `gamma`. -/
def ofSeed (seed : UInt64) : SplitMix :=
  ⟨if seed = 0 then gamma else seed⟩

/-- Scrambles a count. -/
def mix (z : UInt64) : UInt64 :=
  let z := (z ^^^ (z >>> 30)) * 0xBF58476D1CE4E5B9
  let z := (z ^^^ (z >>> 27)) * 0x94D049BB133111EB
  z ^^^ (z >>> 31)

/-- The next word, and the stream after it. -/
def next (s : SplitMix) : UInt64 × SplitMix :=
  let state := s.state + gamma
  (mix state, ⟨state⟩)

/-- The number in `[0, 1)` that the upper 53 bits of a word make. -/
def toUnit (word : UInt64) : Float :=
  (word >>> 11).toFloat * (1 / (9007199254740992 : UInt64).toFloat)

/-- The next number in `[0, 1)`, and the stream after it. -/
def uniform (s : SplitMix) : Float × SplitMix :=
  let (word, s) := s.next
  (toUnit word, s)

end SplitMix

instance : Sampler SplitMix := ⟨SplitMix.uniform⟩

end CritterScript
