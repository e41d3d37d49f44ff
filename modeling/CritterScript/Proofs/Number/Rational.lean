import CritterScript.Proofs.Number.Order
import CritterScript.Proofs.Number.Rounding
import Mathlib

/-!
# The rational that a number is

Apart from `NaN` and the infinities, a binary number is a rational
(`rational?`), and the two zeros are the same one. This is what the operations
that round nothing are about:

* numbers compare as their rationals do (`lt_iff_of_rational`);
* what fits into 53 bits keeps its value when it is rounded
  (`rational?_round`), so a small natural number is converted exactly
  (`rational?_toFloat`), and so is a product that needs no more bits
  (`rational?_mul`);
* `natural?` finds the natural numbers (`natural?_eq_some_iff`), and those that
  leave nothing when divided by one are the integers (`remainder_one_beq_iff`).
-/

namespace CritterScript.Number

open Float.Model (Format UnpackedFloat totalExponent)
open Float.Model.UnpackedFloat (Sign decreaseExponent)

/-- The rational that the parts of a number make. -/
def rationalOf : UnpackedFloat → Option ℚ
  | .notANumber | .infinity _ => none
  | .zero _ => some 0
  | .finite s m e _ => some (s.apply m * 2 ^ e)

/-- The rational that a number is. -/
def rational? (x : Float) : Option ℚ :=
  rationalOf x.toModel.unpack

theorem two_zpow_pos (e : ℤ) : (0 : ℚ) < 2 ^ e :=
  zpow_pos two_pos e

theorem isNaN_eq_false_of_rational {x : Float} {a : ℚ} (h : rational? x = some a) :
    x.isNaN = false := by
  show x.toModel.unpack.isNaN = false
  rw [rational?] at h
  cases hu : x.toModel.unpack with
  | notANumber =>
    rw [hu] at h
    cases h
  | _ => rfl

theorem rational?_of_unpack {x : Float} {m : ℕ} {e : ℤ} {hm : 0 < m}
    (h : x.toModel.unpack = .finite .positive m e hm) : rational? x = some ((m : ℚ) * 2 ^ e) := by
  rw [rational?, h, rationalOf, Sign.apply, Int.cast_natCast]

/-! ## Order -/

/-- Canonical parts go by exponent, then by mantissa. -/
theorem mul_two_zpow_lt {m n : ℕ} {e f : ℤ} (hm : Canonical m e) (hn : Canonical n f)
    (h : e < f ∨ e = f ∧ m < n) : (m : ℚ) * 2 ^ e < n * 2 ^ f := by
  rcases h with h | ⟨rfl, h⟩
  · have hlower := hm.lower
    -- the greater exponent is not the least, so its mantissa is full
    have hfull : (2 : ℚ) ^ 52 ≤ n := mod_cast hn.normal.resolve_right (by omega)
    have hlt : (m : ℚ) < 2 ^ 53 := mod_cast hm.lt
    calc (m : ℚ) * 2 ^ e
      _ < 2 ^ 53 * 2 ^ e := mul_lt_mul_of_pos_right hlt (two_zpow_pos e)
      _ = 2 ^ 52 * 2 ^ (e + 1) := by
        rw [zpow_add_one₀ two_ne_zero]
        ring
      _ ≤ 2 ^ 52 * 2 ^ f := by
        gcongr
        · norm_num
        · omega
      _ ≤ n * 2 ^ f := mul_le_mul_of_nonneg_right hfull (two_zpow_pos f).le
  · exact mul_lt_mul_of_pos_right (mod_cast h) (two_zpow_pos e)

/-- A lower rank means a smaller rational. -/
theorem rationalOf_lt {u v : UnpackedFloat} {a b : ℚ} {i j : ℤ ×ₗ ℤ ×ₗ ℤ}
    (hu : ∀ s m e hm, u = .finite s m e hm → Canonical m e)
    (hv : ∀ s m e hm, v = .finite s m e hm → Canonical m e)
    (ha : rationalOf u = some a) (hb : rationalOf v = some b) (hi : rankOf u = some i)
    (hj : rankOf v = some j) (h : i < j) : a < b := by
  have hpos : ∀ (m : ℕ) (e : ℤ), 0 < m → (0 : ℚ) < m * 2 ^ e := fun m e hm =>
    mul_pos (mod_cast hm) (two_zpow_pos e)
  cases u with
  | notANumber => cases ha
  | infinity => cases ha
  | zero s =>
    cases ha
    cases hi
    cases v with
    | notANumber => cases hb
    | infinity => cases hb
    | zero t =>
      cases hj
      exact absurd h (lt_irrefl _)
    | finite t n f hn =>
      cases hb
      cases hj
      cases t with
      | positive => simpa [Sign.apply] using hpos n f hn
      | negative => simp [Sign.apply, Prod.Lex.toLex_lt_toLex] at h
  | finite s m e hm =>
    cases ha
    cases hi
    cases v with
    | notANumber => cases hb
    | infinity => cases hb
    | zero t =>
      cases hb
      cases hj
      cases s with
      | positive => simp [Sign.apply, Prod.Lex.toLex_lt_toLex] at h
      | negative => simpa [Sign.apply] using hpos m e hm
    | finite t n f hn =>
      cases hb
      cases hj
      have hm' := hpos m e hm
      have hn' := hpos n f hn
      cases s with
      | positive =>
        cases t with
        | positive =>
          have hlex : e < f ∨ e = f ∧ m < n := by
            simpa [Sign.apply, Prod.Lex.toLex_lt_toLex] using h
          simpa [Sign.apply] using mul_two_zpow_lt (hu _ m e hm rfl) (hv _ n f hn rfl) hlex
        | negative => simp [Sign.apply, Prod.Lex.toLex_lt_toLex] at h
      | negative =>
        cases t with
        | positive =>
          have hlt : -((m : ℚ) * 2 ^ e) < n * 2 ^ f := by linarith
          simpa [Sign.apply] using hlt
        | negative =>
          have hlex : f < e ∨ e = f ∧ n < m := by
            simpa [Sign.apply, Prod.Lex.toLex_lt_toLex] using h
          have hlt := mul_two_zpow_lt (hv _ n f hn rfl) (hu _ m e hm rfl) (by omega)
          simpa [Sign.apply] using hlt

/-- The rational can be told from the rank: a class, a signed exponent and a
signed mantissa. -/
theorem rationalOf_eq_of_rank {u : UnpackedFloat} {a : ℚ} {i : ℤ ×ₗ ℤ ×ₗ ℤ}
    (ha : rationalOf u = some a) (hi : rankOf u = some i) :
    a = (ofLex (ofLex i).2).2 * 2 ^ ((ofLex i).1 * (ofLex (ofLex i).2).1) := by
  cases u with
  | notANumber => cases ha
  | infinity => cases ha
  | zero s =>
    cases ha
    cases hi
    simp
  | finite s m e hm =>
    cases ha
    cases hi
    cases s <;> simp [Sign.apply]

section Compare

variable {x y : Float} {a b : ℚ} (hx : rational? x = some a) (hy : rational? y = some b)

include hx hy

theorem lt_iff_of_rational : x < y ↔ a < b := by
  obtain ⟨i, hi⟩ := exists_rank (isNaN_eq_false_of_rational hx)
  obtain ⟨j, hj⟩ := exists_rank (isNaN_eq_false_of_rational hy)
  have hxc : ∀ s m e hm, x.toModel.unpack = .finite s m e hm → Canonical m e :=
    fun _ _ _ _ => canonical_of_unpack
  have hyc : ∀ s m e hm, y.toModel.unpack = .finite s m e hm → Canonical m e :=
    fun _ _ _ _ => canonical_of_unpack
  have hij : x < y ↔ i < j := by simp [lt_iff, hi, hj]
  rw [hij]
  constructor
  · exact rationalOf_lt hxc hyc hx hy hi hj
  · intro hab
    rcases lt_trichotomy i j with h | rfl | h
    · exact h
    · rw [rationalOf_eq_of_rank hx hi, rationalOf_eq_of_rank hy hj] at hab
      exact absurd hab (lt_irrefl _)
    · exact absurd (rationalOf_lt hyc hxc hy hx hj hi h) hab.not_gt

theorem le_iff_of_rational : x ≤ y ↔ a ≤ b := by
  rw [← not_lt, ← lt_iff_of_rational hy hx]
  exact ⟨Number.not_lt_of_le, Number.le_of_not_lt (isNaN_eq_false_of_rational hx)
    (isNaN_eq_false_of_rational hy)⟩

theorem beq_iff_of_rational : (x == y) = true ↔ a = b := by
  constructor
  · intro h
    exact le_antisymm ((le_iff_of_rational hx hy).mp (Number.le_of_beq h))
      ((le_iff_of_rational hy hx).mp (Number.le_of_beq (Number.beq_symm h)))
  · rintro rfl
    exact beq_of_le_of_le ((le_iff_of_rational hx hy).mpr le_rfl)
      ((le_iff_of_rational hy hx).mpr le_rfl)

end Compare

/-! ## What fits is not rounded -/

theorem rational?_pack (s : Sign) {m : ℕ} {e : ℤ} (hm : 0 < m) (h : Canonical m e) :
    rational? (.ofModel (.pack (.finite s m e hm))) = some (((s.apply m : ℤ) : ℚ) * 2 ^ e) := by
  show rationalOf (Float.Model.pack (.finite s m e hm)).unpack = _
  rw [unpack_pack s hm h]
  rfl

/-- Zeros behind a small mantissa make it canonical, at the exponent that
rounding aims for. -/
theorem exists_canonical {r : ℕ} {e : ℤ} (hr : 0 < r) (hlt : r < 2 ^ 53) (hlower : -1074 ≤ e)
    (hupper : e ≤ 971) :
    ∃ k : ℕ, Format.binary64.targetExponent (totalExponent r e) = e - k ∧
      Canonical (r * 2 ^ k) (e - k) := by
  have hlog : r.log2 < 53 := (Nat.log2_lt hr.ne').mpr hlt
  have hbelow : 2 ^ r.log2 ≤ r := Nat.log2_self_le hr.ne'
  have habove : r < 2 ^ (r.log2 + 1) := Nat.lt_log2_self
  rw [targetExponent_eq, totalExponent]
  generalize r.log2 = l at hlog hbelow habove
  refine ⟨(e - max (l + 1 + e - 53) (-1074)).toNat, by omega, ?_⟩
  generalize hk : (e - max (l + 1 + e - 53) (-1074)).toNat = k
  refine ⟨?_, by omega, by omega, ?_⟩
  · calc r * 2 ^ k
      _ < 2 ^ (l + 1) * 2 ^ k := Nat.mul_lt_mul_of_pos_right habove (Nat.two_pow_pos k)
      _ = 2 ^ (l + 1 + k) := (pow_add ..).symm
      _ ≤ 2 ^ 53 := Nat.pow_le_pow_right two_pos (by omega)
  · by_cases hfull : l + k = 52
    · left
      calc 2 ^ 52
        _ = 2 ^ l * 2 ^ k := by rw [← pow_add, hfull]
        _ ≤ r * 2 ^ k := Nat.mul_le_mul_right _ hbelow
    · right
      omega

theorem rational?_round (s : Sign) {r : ℕ} {e : ℤ} (hr : 0 < r) (hlt : r < 2 ^ 53)
    (hlower : -1074 ≤ e) (hupper : e ≤ 971) :
    rational? (.ofModel (.pack (.round .binary64 s r e))) =
      some (((s.apply r : ℤ) : ℚ) * 2 ^ e) := by
  obtain ⟨k, htarget, hcanonical⟩ := exists_canonical hr hlt hlower hupper
  have hpos : 0 < r * 2 ^ k := Nat.mul_pos hr (Nat.two_pow_pos k)
  have hshift : (e - (e - k)).toNat = k := by omega
  have hround : UnpackedFloat.round .binary64 s r e = .finite s (r * 2 ^ k) (e - k) hpos := by
    have h := roundWithAccuracy_exact hpos hcanonical s 0
    rw [pow_zero, mul_one, Nat.cast_zero, sub_zero] at h
    simp only [UnpackedFloat.round, htarget, decreaseExponent, hshift, Nat.shiftLeft_eq, h]
  have hscale : (2 : ℚ) ^ k * 2 ^ (e - k) = 2 ^ e := by
    rw [← zpow_natCast, ← zpow_add₀ two_ne_zero, add_sub_cancel]
  rw [hround, rational?_pack s hpos hcanonical]
  cases s <;> simp [Sign.apply, mul_assoc, hscale]

theorem rational?_ofMantissa (s : Sign) {r : ℕ} {e : ℤ} (hlt : r < 2 ^ 53) (hlower : -1074 ≤ e)
    (hupper : e ≤ 971) : rational? (ofMantissa s r e) = some (((s.apply r : ℤ) : ℚ) * 2 ^ e) := by
  rcases Nat.eq_zero_or_pos r with rfl | hpos
  · have hzero : rational? (.ofModel (.pack (.zero s))) = some 0 := by cases s <;> rfl
    rw [ofMantissa, if_pos rfl, hzero]
    cases s <;> simp [Sign.apply]
  · rw [ofMantissa, if_neg hpos.ne', rational?_round s hpos hlt hlower hupper]

/-- A natural number of at most 53 bits is converted exactly. -/
theorem rational?_toFloat {n : ℕ} (h : n < 2 ^ 53) :
    rational? n.toUInt64.toFloat = some (n : ℚ) := by
  have hn : n.toUInt64.toNat = n := by
    rw [Nat.toUInt64_eq, UInt64.toNat_ofNat']
    omega
  show rational? (.ofModel (.pack (.normalize .binary64 (n.toUInt64.toNat : ℤ) 0 .positive))) = _
  rw [hn, UnpackedFloat.normalize]
  rcases Nat.eq_zero_or_pos n with rfl | hpos
  · rfl
  · have hcompare : compare (n : ℤ) 0 = .gt := by simpa [compare_gt_iff_gt] using hpos
    simp only [hcompare, Int.toNat_natCast]
    rw [rational?_round .positive hpos h (by omega) (by omega)]
    simp [Sign.apply]

/-! ## Products -/

/-- A number that is a rational is a zero, or has canonical parts. -/
theorem zero_or_parts_of_rational {x : Float} {a : ℚ} (h : rational? x = some a) :
    (∃ s, x.toModel.unpack = .zero s ∧ a = 0) ∨
      ∃ s m e hm, x.toModel.unpack = .finite s m e hm ∧ Canonical m e ∧
        a = ((s.apply m : ℤ) : ℚ) * 2 ^ e := by
  rw [rational?] at h
  cases hu : x.toModel.unpack with
  | notANumber =>
    rw [hu] at h
    cases h
  | infinity s =>
    rw [hu] at h
    cases h
  | zero s =>
    rw [hu] at h
    exact .inl ⟨s, rfl, (Option.some.inj h).symm⟩
  | finite s m e hm =>
    rw [hu] at h
    exact .inr ⟨s, m, e, hm, rfl, canonical_of_unpack hu, (Option.some.inj h).symm⟩

theorem abs_apply_mul (s : Sign) (m : ℕ) (e : ℤ) :
    |((s.apply m : ℤ) : ℚ) * 2 ^ e| = m * 2 ^ e := by
  have hpos := (two_zpow_pos e).le
  cases s <;> simp [Sign.apply, abs_mul, abs_of_nonneg hpos]

theorem apply_mul_apply_mul (s t : Sign) (m n : ℕ) (e f : ℤ) :
    ((s.apply m : ℤ) : ℚ) * 2 ^ e * (((t.apply n : ℤ) : ℚ) * 2 ^ f) =
      (((s * t).apply (m * n : ℕ) : ℤ) : ℚ) * 2 ^ (e + f) := by
  rw [zpow_add₀ two_ne_zero]
  cases s <;> cases t <;> simp [Sign.apply] <;> ring

/-- A product of canonical parts has some zeros behind the canonical mantissa of
the same value. -/
theorem exists_mul_eq {m n r : ℕ} {e f g : ℤ} (hm : Canonical m e) (hn : Canonical n f)
    (hr : Canonical r g) (hpos : 0 < m * n) (h : ((m * n : ℕ) : ℚ) * 2 ^ (e + f) = r * 2 ^ g) :
    ∃ k : ℕ, m * n = r * 2 ^ k ∧ e + f = g - k := by
  have hle : e + f ≤ g := by
    by_contra hlt
    have hlower := hr.lower
    have hfull : 2 ^ 52 ≤ m * n := by
      rcases hm.normal with hm' | rfl
      · exact hm'.trans (Nat.le_mul_of_pos_right m (Nat.pos_of_mul_pos_left hpos))
      · rcases hn.normal with hn' | rfl
        · exact hn'.trans (Nat.le_mul_of_pos_left n (Nat.pos_of_mul_pos_right hpos))
        · omega
    have hgreater : (r : ℚ) * 2 ^ g < (m * n : ℕ) * 2 ^ (e + f) := by
      calc (r : ℚ) * 2 ^ g
        _ < 2 ^ 53 * 2 ^ g := mul_lt_mul_of_pos_right (mod_cast hr.lt) (two_zpow_pos g)
        _ = 2 ^ 52 * 2 ^ (g + 1) := by
          rw [zpow_add_one₀ two_ne_zero]
          ring
        _ ≤ (m * n : ℕ) * 2 ^ (e + f) :=
          mul_le_mul (mod_cast hfull) (zpow_le_zpow_right₀ one_le_two (by omega))
            (two_zpow_pos _).le (Nat.cast_nonneg _)
    exact hgreater.ne' h
  obtain ⟨k, hk⟩ := Int.eq_ofNat_of_zero_le (Int.sub_nonneg_of_le hle)
  have hexponent : e + f = g - k := by omega
  refine ⟨k, ?_, hexponent⟩
  rw [hexponent, zpow_sub₀ two_ne_zero, zpow_natCast, ← mul_div_assoc,
    div_eq_iff (by positivity), mul_right_comm] at h
  exact_mod_cast mul_right_cancel₀ (two_zpow_pos g).ne' h

/-- Rounding keeps the value of a product of canonical parts that fits. -/
theorem roundWithAccuracy_mul {m n r : ℕ} {e f g : ℤ} (hm : Canonical m e) (hn : Canonical n f)
    (hpos : 0 < m * n) (hlt : r < 2 ^ 53) (hlower : -1074 ≤ g) (hupper : g ≤ 971)
    (h : ((m * n : ℕ) : ℚ) * 2 ^ (e + f) = r * 2 ^ g) (s : Sign) :
    ∃ (c : ℕ) (d : ℤ) (hc : 0 < c), Canonical c d ∧ (c : ℚ) * 2 ^ d = r * 2 ^ g ∧
      UnpackedFloat.roundWithAccuracy .binary64 s (m * n) (e + f) .exact = .finite s c d hc := by
  have hr : 0 < r := by
    have hproduct : (0 : ℚ) < (m * n : ℕ) * 2 ^ (e + f) :=
      mul_pos (mod_cast hpos) (two_zpow_pos _)
    rw [h] at hproduct
    exact_mod_cast pos_of_mul_pos_left hproduct (two_zpow_pos g).le
  obtain ⟨j, -, hcanonical⟩ := exists_canonical hr hlt hlower hupper
  have hc : 0 < r * 2 ^ j := Nat.mul_pos hr (Nat.two_pow_pos j)
  have hscale : ((r * 2 ^ j : ℕ) : ℚ) * 2 ^ (g - j) = r * 2 ^ g := by
    push_cast
    rw [mul_assoc, ← zpow_natCast, ← zpow_add₀ two_ne_zero, add_sub_cancel]
  obtain ⟨k, hmantissa, hexponent⟩ :=
    exists_mul_eq hm hn hcanonical hpos (h.trans hscale.symm)
  refine ⟨r * 2 ^ j, g - j, hc, hcanonical, hscale, ?_⟩
  rw [hmantissa, hexponent]
  exact roundWithAccuracy_exact hc hcanonical s k

/-- A product that fits into 53 bits is not rounded. -/
theorem rational?_mul {x y : Float} {a b : ℚ} (hx : rational? x = some a)
    (hy : rational? y = some b) {r : ℕ} {g : ℤ} (hlt : r < 2 ^ 53) (hlower : -1074 ≤ g)
    (hupper : g ≤ 971) (h : |a * b| = r * 2 ^ g) : rational? (x * y) = some (a * b) := by
  have hzero : ∀ s, rationalOf (Float.Model.pack (.zero s)).unpack = some 0 := by
    intro s
    cases s <;> rfl
  show rationalOf (Float.Model.pack
    (.mul .binary64 x.toModel.unpack y.toModel.unpack)).unpack = some (a * b)
  rcases zero_or_parts_of_rational hx with ⟨s, hu, rfl⟩ | ⟨s, m, e, hm, hu, hme, rfl⟩
  · rw [hu, zero_mul]
    rcases zero_or_parts_of_rational hy with ⟨t, hv, rfl⟩ | ⟨t, n, f, hn, hv, hnf, rfl⟩
    · rw [hv]
      exact hzero (s * t)
    · rw [hv]
      exact hzero (s * t)
  · rcases zero_or_parts_of_rational hy with ⟨t, hv, rfl⟩ | ⟨t, n, f, hn, hv, hnf, rfl⟩
    · rw [hu, hv, mul_zero]
      exact hzero (s * t)
    · rw [apply_mul_apply_mul, abs_apply_mul] at h
      obtain ⟨c, d, hc, hcanonical, hvalue, hround⟩ :=
        roundWithAccuracy_mul hme hnf (Nat.mul_pos hm hn) hlt hlower hupper h (s * t)
      rw [hu, hv, apply_mul_apply_mul]
      show rationalOf (Float.Model.pack
        (.roundWithAccuracy .binary64 (s * t) (m * n) (e + f) .exact)).unpack = _
      rw [hround, unpack_pack _ hc hcanonical, rationalOf, Option.some_inj]
      rw [← h] at hvalue
      cases s * t with
      | positive => simpa [Sign.apply] using hvalue
      | negative => simpa [Sign.apply] using hvalue

/-! ## Natural numbers and integers -/

theorem mul_two_zpow_neg_eq_iff (m n k : ℕ) :
    (m : ℚ) * 2 ^ (-(k : ℤ)) = n ↔ m = n * 2 ^ k := by
  rw [zpow_neg, zpow_natCast, ← div_eq_mul_inv, div_eq_iff (by positivity)]
  norm_cast

theorem eq_positive_of_eq_natCast {s : Sign} {m n : ℕ} {e : ℤ} (hm : 0 < m)
    (h : ((s.apply m : ℤ) : ℚ) * 2 ^ e = n) : s = .positive := by
  cases s with
  | positive => rfl
  | negative =>
    have hneg : ((Sign.negative.apply m : ℤ) : ℚ) < 0 := by simpa [Sign.apply] using hm
    have hlt := mul_neg_of_neg_of_pos hneg (two_zpow_pos e)
    rw [h] at hlt
    exact absurd n.cast_nonneg hlt.not_ge

/-- `natural?` finds the natural number that a number is. -/
theorem natural?_eq_some_iff {x : Float} {n : ℕ} :
    natural? x = some n ↔ rational? x = some (n : ℚ) := by
  rw [natural?, rational?]
  cases x.toModel.unpack with
  | notANumber => simp [rationalOf]
  | infinity s => simp [rationalOf]
  | zero s => simp [rationalOf, eq_comm]
  | finite s m e hm =>
    cases s with
    | negative =>
      refine iff_of_false (fun h => by cases h) fun h => ?_
      cases eq_positive_of_eq_natCast hm (Option.some.inj h)
    | positive =>
      cases e with
      | ofNat e =>
        have hcast : ((m : ℤ) : ℚ) * 2 ^ (Int.ofNat e) = ((m * 2 ^ e : ℕ) : ℚ) := by simp
        show some (m * 2 ^ e) = some n ↔ some (((m : ℤ) : ℚ) * 2 ^ (Int.ofNat e)) = _
        rw [hcast, Option.some_inj, Option.some_inj, Nat.cast_inj]
      | negSucc e =>
        show (if m % 2 ^ (e + 1) = 0 then some (m / 2 ^ (e + 1)) else none) = some n ↔
          some (((m : ℤ) : ℚ) * 2 ^ (-((e + 1 : ℕ) : ℤ))) = some (n : ℚ)
        rw [Option.some_inj, Int.cast_natCast, mul_two_zpow_neg_eq_iff]
        have hpos : 0 < 2 ^ (e + 1) := Nat.two_pow_pos _
        generalize 2 ^ (e + 1) = k at hpos
        constructor
        · intro h
          by_cases hmod : m % k = 0
          · rw [if_pos hmod] at h
            obtain rfl := Option.some.inj h
            exact (Nat.div_mul_cancel (Nat.dvd_of_mod_eq_zero hmod)).symm
          · rw [if_neg hmod] at h
            cases h
        · rintro rfl
          rw [Nat.mul_mod_left, if_pos rfl, Nat.mul_div_cancel _ hpos]

theorem mul_two_zpow_eq_div (m : ℕ) (low : ℤ) {e : ℤ} (hle : low ≤ e) (hlow : low ≤ 0) :
    (m : ℚ) * 2 ^ e = ((m * 2 ^ (e - low).toNat : ℕ) : ℚ) / ((2 ^ (-low).toNat : ℕ) : ℚ) := by
  push_cast
  rw [eq_div_iff (by positivity), mul_assoc, ← zpow_natCast, ← zpow_natCast,
    ← zpow_add₀ two_ne_zero]
  congr 2
  omega

theorem dvd_iff_exists_div_eq {a k : ℕ} (hk : 0 < k) : k ∣ a ↔ ∃ z : ℤ, (a : ℚ) / k = z := by
  have hk' : (k : ℚ) ≠ 0 := by positivity
  rw [← Int.natCast_dvd_natCast]
  refine exists_congr fun z => ?_
  rw [div_eq_iff hk', mul_comm]
  norm_cast

/-- The sign does not matter for being an integer. -/
theorem exists_apply_mul_eq_iff (s : Sign) (m : ℕ) (q : ℚ) :
    (∃ z : ℤ, ((s.apply m : ℤ) : ℚ) * q = z) ↔ ∃ z : ℤ, (m : ℚ) * q = z := by
  cases s with
  | positive => rfl
  | negative =>
    rw [neg_surjective.exists]
    simp only [Sign.apply, Int.cast_neg, Int.cast_natCast, neg_mul, neg_inj]

/-- A number is an integer just if nothing is left of it after division by
one. -/
theorem remainder_one_beq_iff {x : Float} :
    (remainder x 1 == 0) = true ↔ ∃ z : ℤ, rational? x = some (z : ℚ) := by
  have hone : (1 : Float).toModel.unpack = .finite .positive (2 ^ 52) (-52) (by decide) := rfl
  have hzero : rational? 0 = some 0 := rfl
  have hnone : (notANumber == 0) = false := beq_eq_false_of_isNaN_left rfl
  rw [remainder, rational?, hone]
  cases hx : x.toModel.unpack with
  | notANumber => simp [rationalOf, hnone]
  | infinity s => simp [rationalOf, hnone]
  | zero s =>
    refine iff_of_true ?_ ⟨0, by simp [rationalOf]⟩
    have hrational : rational? x = some 0 := by simp [rational?, hx, rationalOf]
    exact (beq_iff_of_rational hrational hzero).mpr rfl
  | finite s m e hm =>
    have hlt := (canonical_of_unpack hx).lt
    have hlower := (canonical_of_unpack hx).lower
    simp only [rationalOf, Option.some_inj]
    generalize hlow : min e (-52) = low
    -- At the exponent `low`, one is `2 ^ (-low)`.
    have hunit : 2 ^ 52 * Nat.pow 2 (-52 - low).toNat = 2 ^ (-low).toNat := by
      show 2 ^ 52 * 2 ^ (-52 - low).toNat = _
      rw [← pow_add]
      congr 1
      omega
    have hpow : Nat.pow 2 (e - low).toNat = 2 ^ (e - low).toNat := rfl
    rw [exists_apply_mul_eq_iff, mul_two_zpow_eq_div m low (by omega) (by omega),
      ← dvd_iff_exists_div_eq (Nat.two_pow_pos _), Nat.dvd_iff_mod_eq_zero, hunit, hpow]
    have hsmall : m * 2 ^ (e - low).toNat % 2 ^ (-low).toNat < 2 ^ 53 := by
      rcases Int.le_total e (-52) with h | h
      · rw [show (e - low).toNat = 0 by omega, pow_zero, mul_one]
        exact (Nat.mod_le _ _).trans_lt hlt
      · rw [show (-low).toNat = 52 by omega]
        omega
    generalize m * 2 ^ (e - low).toNat % 2 ^ (-low).toNat = r at hsmall
    have hscale := (two_zpow_pos low).ne'
    rw [beq_iff_of_rational (rational?_ofMantissa s hsmall (by omega) (by omega)) hzero]
    cases s <;> simp [Sign.apply, hscale]

/-- A natural number is converted to an integer without loss. -/
theorem roundToInt_of_eq {m n : ℕ} {e : ℤ} (h : (m : ℚ) * 2 ^ e = n) :
    UnpackedFloat.roundToInt .positive m e = n := by
  have hshift : ∀ j k : ℕ, m * 2 ^ j = n * 2 ^ k → e.toNat = j → (-(e - j)).toNat = k →
      UnpackedFloat.roundToInt .positive m e = n := by
    intro j k hn hj hk
    simp only [UnpackedFloat.roundToInt, decreaseExponent, UnpackedFloat.shiftToExponent, sub_zero,
      zero_sub, hj, hk, Nat.shiftLeft_eq, hn, shiftRight_exact]
    rfl
  cases e with
  | ofNat j =>
    refine hshift j 0 ?_ rfl (by simp)
    have hcast : ((m * 2 ^ j : ℕ) : ℚ) = n := by simpa using h
    rw [pow_zero, mul_one]
    exact_mod_cast hcast
  | negSucc k =>
    refine hshift 0 (k + 1) ?_ rfl (by simp)
    rw [pow_zero, mul_one]
    exact (mul_two_zpow_neg_eq_iff m n (k + 1)).mp h

theorem toNat_toUInt64_of_rational {x : Float} {n : ℕ} (h : rational? x = some (n : ℚ))
    (hn : n < 2 ^ 64) : x.toUInt64.toNat = n := by
  have hint : x.toModel.unpack.toInt 0 (UInt64.size - 1) = n := by
    rw [rational?] at h
    cases hx : x.toModel.unpack with
    | notANumber =>
      rw [hx] at h
      cases h
    | infinity s =>
      rw [hx] at h
      cases h
    | zero s =>
      rw [hx, rationalOf, Option.some_inj, eq_comm, Nat.cast_eq_zero] at h
      rw [h]
      rfl
    | finite s m e hm =>
      rw [hx] at h
      obtain rfl := eq_positive_of_eq_natCast hm (Option.some.inj h)
      simp only [rationalOf, Option.some_inj, Sign.apply, Int.cast_natCast] at h
      exact roundToInt_of_eq h
  show (UInt64.ofNatClamp (x.toModel.unpack.toInt 0 (UInt64.size - 1)).toNat).toNat = n
  rw [hint, Int.toNat_natCast, UInt64.ofNatClamp, dif_pos (show n < UInt64.size from hn)]
  exact UInt64.toNat_ofNatLT

end CritterScript.Number
