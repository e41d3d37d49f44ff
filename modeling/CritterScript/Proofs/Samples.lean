import CritterScript.Proofs.Draws
import CritterScript.Proofs.Number.Rational
import CritterScript.Proofs.Streams
import Mathlib

/-!
# Numbers from zero up to one

A word is made into a number by its upper 53 bits, as a fraction of `2 ^ 53`.
No step of this rounds: a natural number of 53 bits is converted exactly, the
factor is a power of two, and the product needs no more bits than the number
(`rational?_toUnit`). So the number stays below one even for the greatest word,
where a rounded product would come up to it.

The numbers that `RAND` stores are made of the words of the stream, one after
the other (`sample_eq`).
-/

namespace CritterScript.SplitMix

open Number (rational?)
open Sampler (sample advance)

/-! ## One word -/

theorem toNat_shiftRight_eleven (x : UInt64) : (x >>> 11).toNat = x.toNat / 2 ^ 11 := by
  rw [UInt64.toNat_shiftRight, Nat.shiftRight_eq_div_pow]
  rfl

theorem toNat_div_lt (x : UInt64) : x.toNat / 2 ^ 11 < 2 ^ 53 := by
  have hx := x.toNat_lt
  omega

theorem rational?_upper (x : UInt64) :
    rational? (x >>> 11).toFloat = some ((x.toNat / 2 ^ 11 : ℕ) : ℚ) := by
  have hupper : (x.toNat / 2 ^ 11).toUInt64 = x >>> 11 := by
    rw [← toNat_shiftRight_eleven, Nat.toUInt64_eq, UInt64.ofNat_toNat]
  rw [← hupper]
  exact Number.rational?_toFloat (toNat_div_lt x)

theorem rational?_factor :
    rational? (1 / (9007199254740992 : UInt64).toFloat) = some (1 / 2 ^ 53) := by
  have hunpack : (1 / (9007199254740992 : UInt64).toFloat).toModel.unpack =
      .finite .positive (2 ^ 52) (-105) (by decide) := rfl
  rw [Number.rational?_of_unpack hunpack]
  norm_num

/-- The number of a word is its upper 53 bits over `2 ^ 53`, exactly. -/
theorem rational?_toUnit (x : UInt64) :
    rational? (toUnit x) = some (((x.toNat / 2 ^ 11 : ℕ) : ℚ) / 2 ^ 53) := by
  have hvalue : |((x.toNat / 2 ^ 11 : ℕ) : ℚ) * (1 / 2 ^ 53)| =
      ((x.toNat / 2 ^ 11 : ℕ) : ℚ) * 2 ^ (-53 : ℤ) := by
    rw [abs_of_nonneg (by positivity)]
    norm_num
  rw [toUnit, Number.rational?_mul (rational?_upper x) rational?_factor (toNat_div_lt x)
    (by decide) (by decide) hvalue, mul_one_div]

theorem rational?_one : rational? 1 = some 1 := by
  have hunpack : (1 : Float).toModel.unpack = .finite .positive (2 ^ 52) (-52) (by decide) := rfl
  rw [Number.rational?_of_unpack hunpack]
  norm_num

theorem toUnit_nonneg (x : UInt64) : 0 ≤ toUnit x := by
  have hzero : rational? 0 = some 0 := rfl
  rw [Number.le_iff_of_rational hzero (rational?_toUnit x)]
  positivity

theorem toUnit_lt_one (x : UInt64) : toUnit x < 1 := by
  rw [Number.lt_iff_of_rational (rational?_toUnit x) rational?_one, div_lt_one (by positivity)]
  exact_mod_cast toNat_div_lt x

theorem toUnit_le_toUnit {x y : UInt64} (h : x ≤ y) : toUnit x ≤ toUnit y := by
  rw [Number.le_iff_of_rational (rational?_toUnit x) (rational?_toUnit y)]
  gcongr
  exact h

theorem toUnit_beq_iff {x y : UInt64} :
    (toUnit x == toUnit y) = true ↔ x.toNat / 2 ^ 11 = y.toNat / 2 ^ 11 := by
  rw [Number.beq_iff_of_rational (rational?_toUnit x) (rational?_toUnit y),
    div_left_inj' (by positivity), Nat.cast_inj]

theorem toUnit_eq_iff {x y : UInt64} :
    toUnit x = toUnit y ↔ x.toNat / 2 ^ 11 = y.toNat / 2 ^ 11 := by
  constructor
  · intro h
    have hvalue := rational?_toUnit x
    rw [h, rational?_toUnit, Option.some_inj, div_left_inj' (by positivity), Nat.cast_inj] at hvalue
    exact hvalue.symm
  · intro h
    rw [← toNat_shiftRight_eleven, ← toNat_shiftRight_eleven, UInt64.toNat_inj] at h
    rw [toUnit, h, toUnit]

/-- Words have the same upper 53 bits just if these make the same number. -/
theorem toNat_div_eq_iff {x y : UInt64} :
    x.toNat / 2 ^ 11 = y.toNat / 2 ^ 11 ↔
      ∀ i, 11 ≤ i → i < 64 → x.toNat.testBit i = y.toNat.testBit i := by
  constructor
  · intro h i hi _
    have hbit := congrArg (Nat.testBit · (i - 11)) h
    simpa only [Nat.testBit_div_two_pow, Nat.sub_add_cancel hi] using hbit
  · intro h
    refine Nat.eq_of_testBit_eq fun i => ?_
    rw [Nat.testBit_div_two_pow, Nat.testBit_div_two_pow]
    by_cases hi : i + 11 < 64
    · exact h (i + 11) (by omega) hi
    · have hpow : 2 ^ 64 ≤ 2 ^ (i + 11) := Nat.pow_le_pow_right two_pos (by omega)
      rw [Nat.testBit_lt_two_pow (x.toNat_lt.trans_le hpow),
        Nat.testBit_lt_two_pow (y.toNat_lt.trans_le hpow)]

/-! ## Draws -/

theorem advance_eq (n : Nat) (s : SplitMix) : advance n s = s.after n := by
  induction n with
  | zero => rfl
  | succ n ih =>
    rw [Sampler.advance_add, ih]
    rfl

/-- The numbers of a stream are those of its words. -/
theorem sample_eq (s : SplitMix) (n : Nat) : sample s n = toUnit (s.word n) := by
  rw [sample, advance_eq]
  rfl

/-- The `RAND`s of runs that share a source store its numbers, as far as they
complete. -/
theorem store_of_rand {ρ : Type} [Sampler ρ] {jobs : List Job} {random : ρ} {j : Nat}
    {a : Attempt} {e : Effect} (ha : (rands (attemptsOf jobs random))[j]? = some a)
    (he : a.answer = .ok e) : ∃ name, e = .store name (.number (sample random j)) := by
  rw [(draws_attemptsOf jobs random).answer ha, Instruction.storeAt] at he
  obtain ⟨name, -, rfl⟩ := map_eq_ok_iff.mp he
  exact ⟨name, rfl⟩

/-- The number of a word is exactly its upper 53 bits over `2 ^ 53`, because
neither the conversion nor the product rounds. So it is not less than zero and
less than one, greater words have no smaller numbers, and words have the same
number just if they agree in their upper 53 bits. The `RAND`s of any runs that
share the stream of a seed therefore store numbers from zero up to one, and
never one itself. -/
theorem samples_below_one :
    (∀ x : UInt64,
      rational? (x >>> 11).toFloat = some ((x.toNat / 2 ^ 11 : ℕ) : ℚ) ∧
        rational? (1 / (9007199254740992 : UInt64).toFloat) = some (1 / 2 ^ 53) ∧
        rational? (toUnit x) = some (((x.toNat / 2 ^ 11 : ℕ) : ℚ) / 2 ^ 53) ∧
        0 ≤ toUnit x ∧ toUnit x < 1) ∧
      (∀ x y : UInt64, x ≤ y → toUnit x ≤ toUnit y) ∧
      (∀ x y : UInt64,
        (toUnit x = toUnit y ↔
          ∀ i, 11 ≤ i → i < 64 → x.toNat.testBit i = y.toNat.testBit i) ∧
        ((toUnit x == toUnit y) = true ↔
          ∀ i, 11 ≤ i → i < 64 → x.toNat.testBit i = y.toNat.testBit i)) ∧
      ∀ (seed : UInt64) (jobs : List Job) (j : Nat) (a : Attempt) (e : Effect),
        (rands (attemptsOf jobs (ofSeed seed)))[j]? = some a → a.answer = .ok e →
          ∃ name x, e = .store name (.number x) ∧ x = toUnit ((ofSeed seed).word j) ∧
            0 ≤ x ∧ x < 1 ∧ (x == 1) = false := by
  refine ⟨?_, fun x y => toUnit_le_toUnit, ?_, ?_⟩
  · intro x
    exact ⟨rational?_upper x, rational?_factor, rational?_toUnit x, toUnit_nonneg x,
      toUnit_lt_one x⟩
  · intro x y
    exact ⟨toUnit_eq_iff.trans toNat_div_eq_iff, toUnit_beq_iff.trans toNat_div_eq_iff⟩
  · intro seed jobs j a e ha he
    obtain ⟨name, rfl⟩ := store_of_rand ha he
    have hlt := toUnit_lt_one ((ofSeed seed).word j)
    rw [sample_eq]
    exact ⟨name, _, rfl, rfl, toUnit_nonneg _, hlt, Number.beq_eq_false_of_lt hlt⟩

/-- The greatest word has the same number as the least one with its upper 53
bits, which lacks `1 / 2 ^ 53` to one. The second of two runs with a seed stores
the number of the second word. -/
theorem samples_below_one_greatest :
    let least : UInt64 := 0xFFFFFFFFFFFFF800
    let greatest : UInt64 := 0xFFFFFFFFFFFFFFFF
    let p : Program := ⟨#[⟨.rand, [.register "$a"], 0⟩], ∅⟩
    let jobs : List Job := [⟨p, 1, none, ∅⟩, ⟨p, 9, none, ∅⟩]
    rational? (toUnit greatest) = some ((2 ^ 53 - 1) / 2 ^ 53) ∧ toUnit greatest < 1 ∧
      toUnit least ≤ toUnit greatest ∧ toUnit least = toUnit greatest ∧
      ∃ (a : Attempt) (name : String) (x : Float),
        (rands (attemptsOf jobs (ofSeed 7)))[1]? = some a ∧
          a.answer = .ok (.store name (.number x)) ∧ x = toUnit ((ofSeed 7).word 1) ∧
          0 ≤ x ∧ x < 1 := by
  intro least greatest p jobs
  obtain ⟨hexact, hmono, hsame, hstored⟩ := samples_below_one
  obtain ⟨-, -, hvalue, -, hlt⟩ := hexact greatest
  have hbits : ∀ i, 11 ≤ i → i < 64 → least.toNat.testBit i = greatest.toNat.testBit i :=
    toNat_div_eq_iff.mp (by decide)
  have hsecond : (rands (attemptsOf jobs (ofSeed 7)))[1]? =
      some ⟨⟨.rand, [.register "$a"], 0⟩, .ok (.store "$a" (.number (sample (ofSeed 7) 1)))⟩ := rfl
  obtain ⟨name, x, hstore, hx, hnonneg, hbelow, -⟩ := hstored 7 jobs 1 _ _ hsecond rfl
  refine ⟨?_, hlt, hmono least greatest (by decide), (hsame least greatest).1.mpr hbits,
    _, name, x, hsecond, congrArg Except.ok hstore, hx, hnonneg, hbelow⟩
  rw [hvalue, show greatest.toNat / 2 ^ 11 = 2 ^ 53 - 1 by decide]
  norm_num

end CritterScript.SplitMix
