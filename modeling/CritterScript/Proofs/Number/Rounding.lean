import CritterScript.Number.Shortest
import CritterScript.Proofs.Number.Packing
import Mathlib

/-!
# Decimals that need no rounding

A decimal is read as a quotient or a product of two integers, rounded to 53
bits. Where that value is a binary number already, rounding leaves it alone:
it shifts a mantissa with zeros behind it back into place
(`roundWithAccuracy_exact`). So the decimal expansion of a number, taken to
its end, reads as that number (`toFloat_exact`). No decimal reads as `NaN`
(`isNaN_nearest`).
-/

namespace CritterScript.Number

open Float.Model (Format UnpackedFloat totalExponent)
open Float.Model.UnpackedFloat (Sign ExtendedMantissa roundWithAccuracy shiftToTargetExponent
  shiftToExponent divCore accuracyOfFraction)

/-! ## Shifting back -/

theorem log2_mul_two_pow {m : ℕ} (hm : m ≠ 0) (k : ℕ) : (m * 2 ^ k).log2 = m.log2 + k := by
  induction k with
  | zero => rw [pow_zero, mul_one, add_zero]
  | succ k ih =>
    have hk : m * 2 ^ k ≠ 0 := Nat.mul_ne_zero hm (Nat.two_pow_pos k).ne'
    rw [pow_succ, ← mul_assoc, mul_comm _ 2, Nat.log2_two_mul hk, ih, add_assoc]

theorem targetExponent_eq (t : ℤ) : Format.binary64.targetExponent t = max (t - 53) (-1074) :=
  rfl

/-- Canonical parts are at the exponent that rounding aims for. -/
theorem Canonical.targetExponent_eq_self {m : ℕ} {e : ℤ} (h : Canonical m e) (hm : 0 < m) :
    Format.binary64.targetExponent (totalExponent m e) = e := by
  have hlt : m.log2 < 53 := (Nat.log2_lt hm.ne').mpr h.lt
  have hlower := h.lower
  rw [targetExponent_eq, totalExponent]
  obtain hnormal | rfl := h.normal
  · have hge : 52 ≤ m.log2 := (Nat.le_log2 hm.ne').mpr hnormal
    omega
  · omega

theorem shiftRight_exact (m k : ℕ) :
    ExtendedMantissa.ofMantissaAndAccuracy (m * 2 ^ k) .exact >>> k = ⟨m, false, false⟩ := by
  induction k generalizing m with
  | zero =>
    rw [pow_zero, mul_one]
    rfl
  | succ k ih =>
    have hsplit : m * 2 ^ (k + 1) = 2 * m * 2 ^ k := by ring
    show (ExtendedMantissa.ofMantissaAndAccuracy (m * 2 ^ (k + 1)) .exact >>> k).shiftRightOne = _
    rw [hsplit, ih, ExtendedMantissa.shiftRightOne]
    simp

section Exact

variable {m : ℕ} {e : ℤ} (hm : 0 < m) (h : Canonical m e)

include hm h

theorem shiftToTargetExponent_exact (k : ℕ) :
    shiftToTargetExponent .binary64 (m * 2 ^ k) (e - k) .exact = (⟨m, false, false⟩, e) := by
  have htotal : totalExponent (m * 2 ^ k) (e - k) = totalExponent m e := by
    rw [totalExponent, totalExponent, log2_mul_two_pow hm.ne']
    push_cast
    ring
  have hk : (e - (e - k)).toNat = k := by omega
  rw [shiftToTargetExponent, htotal, h.targetExponent_eq_self hm, shiftToExponent]
  simp only [hk, shiftRight_exact]
  rw [Int.sub_add_cancel]

/-- Zeros behind a canonical mantissa are dropped again. -/
theorem roundWithAccuracy_exact (s : Sign) (k : ℕ) :
    roundWithAccuracy .binary64 s (m * 2 ^ k) (e - k) .exact = .finite s m e hm := by
  have hagain := shiftToTargetExponent_exact hm h 0
  rw [pow_zero, mul_one, Nat.cast_zero, sub_zero] at hagain
  have hrounded : ExtendedMantissa.roundedMantissa ⟨m, false, false⟩ = m := rfl
  simp only [roundWithAccuracy, shiftToTargetExponent_exact hm h k, hrounded, hagain, hm.ne',
    dif_neg, not_false_eq_true]

end Exact

/-! ## Whole expansions -/

theorem ofScientific_mul_two_pow {m j : ℕ} (hm : 0 < m) (h : Canonical m j) :
    UnpackedFloat.ofScientific .binary64 (m * 2 ^ j) 0 = .finite .positive m j hm := by
  have hn : m * 2 ^ j ≠ 0 := Nat.mul_ne_zero hm.ne' (Nat.two_pow_pos j).ne'
  have hscaled : (m * 2 ^ j) <<< 53 * 10 ^ (0 : ℤ).toNat = m * 2 ^ (j + 53) := by
    rw [Nat.shiftLeft_eq, Int.toNat_zero, pow_zero, mul_one, mul_assoc, pow_add]
  have hexp : (-(53 : ℕ) + 0 : ℤ) = (j : ℤ) - (j + 53 : ℕ) := by
    push_cast
    ring
  have hround := roundWithAccuracy_exact hm h .positive (j + 53)
  rw [← hscaled, ← hexp] at hround
  have hsmall : ¬ (0 : ℤ) < -(2 ^ 11 + ((m * 2 ^ j).log2 : ℤ)) := by omega
  rw [UnpackedFloat.ofScientific, dif_neg hn, if_neg (by decide), if_neg hsmall,
    if_pos (le_refl 0)]
  exact hround

/-- The division by a power of ten comes out even, with some zeros behind
the mantissa. -/
theorem divCore_ten_pow {m k : ℕ} (hlt : m < 2 ^ 53) (hk : k ≤ 1074) :
    ∃ j : ℕ, divCore .binary64 (m * 5 ^ k) 0 (10 ^ k) 0 =
      (m * 2 ^ j, (-k - j : ℤ), .exact) := by
  have hfive : 5 ^ k ≠ 0 := by positivity
  have hten : 10 ^ k = 5 ^ k * 2 ^ k := Nat.mul_pow 5 2 k
  have hlog : (m * 5 ^ k).log2 ≤ (5 ^ k).log2 + 53 := by
    rw [← log2_mul_two_pow hfive, mul_comm, Nat.log2_eq_log_two, Nat.log2_eq_log_two]
    exact Nat.log_mono_right (Nat.mul_le_mul_left _ hlt.le)
  have hlogten : (10 ^ k).log2 = (5 ^ k).log2 + k := by rw [hten, log2_mul_two_pow hfive]
  rw [divCore]
  generalize ht : min (0 - 0 : ℤ) (Format.binary64.targetExponent
    (totalExponent (m * 5 ^ k) 0 - totalExponent (10 ^ k) 0)) = t
  have htk : t ≤ -k := by
    rw [← ht, targetExponent_eq, totalExponent, totalExponent, hlogten]
    omega
  obtain ⟨j, rfl⟩ : ∃ j : ℕ, t = (-k - j : ℤ) := ⟨(-k - t).toNat, by omega⟩
  have hshift : (0 - 0 - (-k - j) : ℤ).toNat = k + j := by omega
  have hnum : (m * 5 ^ k) <<< (k + j) = 10 ^ k * (m * 2 ^ j) := by
    rw [Nat.shiftLeft_eq, hten]
    ring
  refine ⟨j, ?_⟩
  rw [hshift, hnum, Nat.mul_div_cancel_left _ (by positivity), Nat.mul_mod_right]
  rfl

theorem ofScientific_mul_five_pow {m k : ℕ} (hm : 0 < m) (hk : 0 < k) (h : Canonical m (-k)) :
    UnpackedFloat.ofScientific .binary64 (m * 5 ^ k) (-k) = .finite .positive m (-k) hm := by
  have hlower := h.lower
  have hn : m * 5 ^ k ≠ 0 := Nat.mul_ne_zero hm.ne' (by positivity)
  have hsmall : ¬ (-k : ℤ) < -(2 ^ 11 + ((m * 5 ^ k).log2 : ℤ)) := by omega
  have hneg : (-(-k : ℤ)).toNat = k := by omega
  obtain ⟨j, hj⟩ := divCore_ten_pow h.lt (show k ≤ 1074 by omega)
  rw [UnpackedFloat.ofScientific, dif_neg hn, if_neg (show ¬ (-k : ℤ) > 2 ^ 11 by omega),
    if_neg hsmall, if_neg (show ¬ 0 ≤ (-k : ℤ) by omega)]
  simp only [hneg]
  rw [UnpackedFloat.div]
  simp only [hj]
  exact roundWithAccuracy_exact hm h .positive j

/-- The whole expansion of a number reads as that number. -/
theorem toFloat_exact {m : ℕ} {e : ℤ} (hm : 0 < m) (h : Canonical m e) :
    (exact m e).toFloat = .ofModel (.pack (.finite .positive m e hm)) := by
  cases e with
  | ofNat j =>
    show Float.ofModel (.pack (.ofScientific .binary64 (m * 2 ^ j) 0)) = _
    rw [ofScientific_mul_two_pow hm h]
    rfl
  | negSucc k =>
    have hexp : Int.negSucc k = -((k + 1 : ℕ) : ℤ) := rfl
    rw [hexp] at h
    show Float.ofModel (.pack (.ofScientific .binary64 (m * 5 ^ (k + 1)) (-(k + 1 : ℕ)))) = _
    rw [ofScientific_mul_five_pow hm (Nat.succ_pos k) h]
    rfl

/-! ## `NaN` -/

theorem isNaN_roundWithAccuracy (s : Sign) (m : ℕ) (e : ℤ) (a : UnpackedFloat.Accuracy) :
    (roundWithAccuracy .binary64 s m e a).isNaN = false := by
  rw [roundWithAccuracy]
  dsimp only
  split <;> rfl

theorem isNaN_nearest (digits : ℕ) (exponent : ℤ) : (nearest digits exponent).isNaN = false := by
  refine isNaN_pack ?_
  rw [UnpackedFloat.ofScientific]
  split
  · rfl
  split
  · rfl
  split
  · rfl
  split
  · exact isNaN_roundWithAccuracy ..
  · exact isNaN_roundWithAccuracy ..

theorem isNaN_neg {x : Float} (h : x.isNaN = false) : (-x).isNaN = false := by
  refine isNaN_pack ?_
  have hx : x.toModel.unpack.isNaN = false := h
  cases hu : x.toModel.unpack with
  | notANumber =>
    rw [hu] at hx
    exact hx
  | infinity s => rfl
  | zero s => rfl
  | finite s m e hm => rfl

end CritterScript.Number
