import CritterScript.Number.Exact
import Mathlib

/-!
# The order of binary numbers

Every number but `NaN` has a rank, and the ranks are linearly ordered
(`rank?`): the infinities are outermost, the two zeros share one rank, and
finite numbers of one sign go by exponent, then by mantissa.

Numbers compare as their ranks do, and every comparison with `NaN` is false
(`lt_iff`, `le_iff`, `beq_iff`). So numbers other than `NaN` are totally
preordered, which the rest of the module spells out in the form that proofs
about priorities use.
-/

namespace CritterScript.Number

open Float.Model (UnpackedFloat)

/-- The rank of a number: sign and class, then exponent, then mantissa. -/
def rankOf : UnpackedFloat → Option (ℤ ×ₗ ℤ ×ₗ ℤ)
  | .notANumber => none
  | .infinity s => some (toLex (s.apply 2, toLex (0, 0)))
  | .zero _ => some (toLex (0, toLex (0, 0)))
  | .finite s m e _ => some (toLex (s.apply 1, toLex (s.apply e, s.apply m)))

def rank? (x : Float) : Option (ℤ ×ₗ ℤ ×ₗ ℤ) :=
  rankOf x.toModel.unpack

/-! ## Comparing ranks -/

/-- Ranks of one class go by exponent, then by mantissa. -/
theorem cmp_toLex (c e f m n : ℤ) :
    cmp (toLex (c, toLex (e, m))) (toLex (c, toLex (f, n))) = (cmp e f).then (cmp m n) := by
  simp only [cmp_eq_compare, Prod.Lex.compare_def, compareLex, compareOn, ofLex_toLex,
    compare_eq_iff_eq.mpr, Ordering.eq_then]

theorem cmp_neg_neg (a b : ℤ) : cmp (-a) (-b) = (cmp a b).swap := by
  rw [cmp_swap]
  rcases lt_trichotomy a b with h | rfl | h
  · rw [(cmp_eq_gt_iff _ _).mpr (neg_lt_neg h), (cmp_eq_gt_iff _ _).mpr h]
  · rw [cmp_self_eq_eq, cmp_self_eq_eq]
  · rw [(cmp_eq_lt_iff _ _).mpr (neg_lt_neg h), (cmp_eq_lt_iff _ _).mpr h]

theorem cmp_natCast (m n : ℕ) : cmp (m : ℤ) (n : ℤ) = cmp m n := by
  simp only [cmp, cmpUsing, Int.ofNat_lt]

/-- Finite numbers of one sign go by exponent, then by mantissa; with the
negative ones it is the other way round. -/
theorem compare_finite (s t : UnpackedFloat.Sign) (m n : ℕ) (e f : ℤ) (hm : 0 < m) (hn : 0 < n) :
    (UnpackedFloat.finite s m e hm).compare (.finite t n f hn) =
      some (cmp (toLex (s.apply 1, toLex (s.apply e, s.apply m)))
        (toLex (t.apply 1, toLex (t.apply f, t.apply n)))) := by
  cases s with
  | negative =>
    cases t with
    | negative =>
      rw [cmp_toLex]
      show some ((compare e f).then (compare m n)).swap = some ((cmp (-e) (-f)).then (cmp (-(m : ℤ)) (-n)))
      rw [cmp_neg_neg, cmp_neg_neg, cmp_natCast, ← Ordering.swap_then, cmp_eq_compare, cmp_eq_compare]
    | positive => rfl
  | positive =>
    cases t with
    | negative => rfl
    | positive =>
      rw [cmp_toLex]
      show some ((compare e f).then (compare m n)) = some ((cmp e f).then (cmp (m : ℤ) n))
      rw [cmp_natCast, cmp_eq_compare, cmp_eq_compare]

theorem compare_eq_cmp (u v : UnpackedFloat) :
    u.compare v = (rankOf u).bind fun a => (rankOf v).map fun b => cmp a b := by
  cases u with
  | notANumber => rfl
  | infinity s =>
    cases v with
    | notANumber => rfl
    | infinity t => cases s <;> cases t <;> rfl
    | zero t => cases s <;> rfl
    | finite t n f hn => cases s <;> cases t <;> rfl
  | zero s =>
    cases v with
    | notANumber => rfl
    | infinity t => cases t <;> rfl
    | zero t => rfl
    | finite t n f hn => cases t <;> rfl
  | finite s m e hm =>
    cases v with
    | notANumber => rfl
    | infinity t => cases s <;> cases t <;> rfl
    | zero t => cases s <;> rfl
    | finite t n f hn => exact compare_finite s t m n e f hm hn

/-! ## Comparing numbers -/

variable {x y z : Float}

theorem isNaN_iff : x.isNaN = true ↔ rank? x = none := by
  rw [rank?]
  show x.toModel.unpack.isNaN = true ↔ _
  cases x.toModel.unpack with
  | notANumber => exact iff_of_true rfl rfl
  | infinity s => exact iff_of_false Bool.false_ne_true (Option.some_ne_none _)
  | zero s => exact iff_of_false Bool.false_ne_true (Option.some_ne_none _)
  | finite s m e hm => exact iff_of_false Bool.false_ne_true (Option.some_ne_none _)

theorem exists_rank (h : x.isNaN = false) : ∃ a, rank? x = some a := by
  rw [← Option.ne_none_iff_exists', ne_eq, ← isNaN_iff, h]
  exact Bool.false_ne_true

/-- What comparing two numbers comes to, if the answer depends on the ranks
only. -/
theorem any_compare_iff (x y : Float) (answer : Ordering → Bool) :
    (x.toModel.unpack.compare y.toModel.unpack).any answer = true ↔
      ∃ a ∈ rank? x, ∃ b ∈ rank? y, answer (cmp a b) = true := by
  rw [compare_eq_cmp, rank?, rank?]
  cases rankOf x.toModel.unpack with
  | none => simp
  | some a =>
    cases rankOf y.toModel.unpack with
    | none => simp
    | some b => simp

theorem beq_some_eq_any (o : Option Ordering) (a : Ordering) : (o == some a) = o.any (· == a) := by
  cases o <;> rfl

theorem lt_iff : x < y ↔ ∃ a ∈ rank? x, ∃ b ∈ rank? y, a < b := by
  show decide ((x.toModel.unpack.compare y.toModel.unpack == some .lt) = true) = true ↔ _
  rw [decide_eq_true_iff, beq_some_eq_any, any_compare_iff]
  simp only [beq_iff_eq, cmp_eq_lt_iff]

theorem beq_iff : (x == y) = true ↔ ∃ a ∈ rank? x, ∃ b ∈ rank? y, a = b := by
  show (x.toModel.unpack.compare y.toModel.unpack == some .eq) = true ↔ _
  rw [beq_some_eq_any, any_compare_iff]
  simp only [beq_iff_eq, cmp_eq_eq_iff]

theorem le_iff : x ≤ y ↔ ∃ a ∈ rank? x, ∃ b ∈ rank? y, a ≤ b := by
  show decide ((x.toModel.unpack.compare y.toModel.unpack).any Ordering.isLE = true) = true ↔ _
  rw [decide_eq_true_iff, any_compare_iff]
  simp only [← Ordering.ne_gt_iff_isLE, cmp_eq_gt_iff, not_lt]

/-! ## A total preorder -/

theorem not_lt_of_isNaN_left (h : x.isNaN = true) : ¬ x < y := by
  rw [lt_iff, isNaN_iff.mp h]
  rintro ⟨a, ha, -⟩
  cases ha

theorem not_lt_of_isNaN_right (h : y.isNaN = true) : ¬ x < y := by
  rw [lt_iff, isNaN_iff.mp h]
  rintro ⟨a, -, b, hb, -⟩
  cases hb

theorem beq_eq_false_of_isNaN_left (h : x.isNaN = true) : (x == y) = false := by
  rw [Bool.eq_false_iff, ne_eq, beq_iff, isNaN_iff.mp h]
  rintro ⟨a, ha, -⟩
  cases ha

theorem beq_eq_false_of_isNaN_right (h : y.isNaN = true) : (x == y) = false := by
  rw [Bool.eq_false_iff, ne_eq, beq_iff, isNaN_iff.mp h]
  rintro ⟨a, -, b, hb, -⟩
  cases hb

theorem isNaN_of_le (h : x ≤ y) : x.isNaN = false ∧ y.isNaN = false := by
  obtain ⟨a, ha, b, hb, -⟩ := le_iff.mp h
  rw [Bool.eq_false_iff, Bool.eq_false_iff, ne_eq, ne_eq, isNaN_iff, isNaN_iff, ha, hb]
  exact ⟨Option.some_ne_none a, Option.some_ne_none b⟩

theorem le_self (h : x.isNaN = false) : x ≤ x := by
  obtain ⟨a, ha⟩ := exists_rank h
  exact le_iff.mpr ⟨a, ha, a, ha, le_refl a⟩

protected theorem beq_self (h : x.isNaN = false) : (x == x) = true := by
  obtain ⟨a, ha⟩ := exists_rank h
  exact beq_iff.mpr ⟨a, ha, a, ha, rfl⟩

protected theorem beq_symm (h : (x == y) = true) : (y == x) = true := by
  obtain ⟨a, ha, b, hb, hab⟩ := beq_iff.mp h
  exact beq_iff.mpr ⟨b, hb, a, ha, hab.symm⟩

protected theorem beq_trans (h : (x == y) = true) (k : (y == z) = true) : (x == z) = true := by
  obtain ⟨a, ha, b, hb, hab⟩ := beq_iff.mp h
  obtain ⟨b', hb', c, hc, hbc⟩ := beq_iff.mp k
  obtain rfl : b = b' := Option.mem_unique hb hb'
  exact beq_iff.mpr ⟨a, ha, c, hc, hab.trans hbc⟩

theorem beq_of_le_of_le (h : x ≤ y) (k : y ≤ x) : (x == y) = true := by
  obtain ⟨a, ha, b, hb, hab⟩ := le_iff.mp h
  obtain ⟨b', hb', a', ha', hba⟩ := le_iff.mp k
  obtain rfl : a = a' := Option.mem_unique ha ha'
  obtain rfl : b = b' := Option.mem_unique hb hb'
  exact beq_iff.mpr ⟨a, ha, b, hb, le_antisymm hab hba⟩

protected theorem lt_irrefl (x : Float) : ¬ x < x := by
  rw [lt_iff]
  rintro ⟨a, ha, b, hb, hab⟩
  obtain rfl : a = b := Option.mem_unique ha hb
  exact hab.false

protected theorem le_of_lt (h : x < y) : x ≤ y := by
  obtain ⟨a, ha, b, hb, hab⟩ := lt_iff.mp h
  exact le_iff.mpr ⟨a, ha, b, hb, hab.le⟩

protected theorem le_of_beq (h : (x == y) = true) : x ≤ y := by
  obtain ⟨a, ha, b, hb, hab⟩ := beq_iff.mp h
  exact le_iff.mpr ⟨a, ha, b, hb, hab.le⟩

protected theorem lt_of_le_of_lt (h : x ≤ y) (k : y < z) : x < z := by
  obtain ⟨a, ha, b, hb, hab⟩ := le_iff.mp h
  obtain ⟨b', hb', c, hc, hbc⟩ := lt_iff.mp k
  obtain rfl : b = b' := Option.mem_unique hb hb'
  exact lt_iff.mpr ⟨a, ha, c, hc, hab.trans_lt hbc⟩

protected theorem le_trans (h : x ≤ y) (k : y ≤ z) : x ≤ z := by
  obtain ⟨a, ha, b, hb, hab⟩ := le_iff.mp h
  obtain ⟨b', hb', c, hc, hbc⟩ := le_iff.mp k
  obtain rfl : b = b' := Option.mem_unique hb hb'
  exact le_iff.mpr ⟨a, ha, c, hc, hab.trans hbc⟩

protected theorem not_lt_of_le (h : x ≤ y) : ¬ y < x := by
  obtain ⟨a, ha, b, hb, hab⟩ := le_iff.mp h
  rw [lt_iff]
  rintro ⟨b', hb', a', ha', hba⟩
  obtain rfl : a = a' := Option.mem_unique ha ha'
  obtain rfl : b = b' := Option.mem_unique hb hb'
  exact hab.not_gt hba

theorem beq_eq_false_of_lt (h : x < y) : (x == y) = false := by
  rw [Bool.eq_false_iff]
  intro hxy
  obtain ⟨a, ha, b, hb, hab⟩ := lt_iff.mp h
  obtain ⟨a', ha', b', hb', rfl⟩ := beq_iff.mp hxy
  obtain rfl : a = a' := Option.mem_unique ha ha'
  obtain rfl : b = a := Option.mem_unique hb hb'
  exact hab.false

protected theorem le_of_not_lt (hx : x.isNaN = false) (hy : y.isNaN = false) (h : ¬ y < x) :
    x ≤ y := by
  obtain ⟨a, ha⟩ := exists_rank hx
  obtain ⟨b, hb⟩ := exists_rank hy
  refine le_iff.mpr ⟨a, ha, b, hb, le_of_not_gt fun hba => ?_⟩
  exact h (lt_iff.mpr ⟨b, hb, a, ha, hba⟩)

theorem lt_of_le_of_not_beq (h : x ≤ y) (hne : ¬ (x == y) = true) : x < y := by
  obtain ⟨a, ha, b, hb, hab⟩ := le_iff.mp h
  refine lt_iff.mpr ⟨a, ha, b, hb, lt_of_le_of_ne hab ?_⟩
  rintro rfl
  exact hne (beq_iff.mpr ⟨a, ha, a, hb, rfl⟩)

end CritterScript.Number
