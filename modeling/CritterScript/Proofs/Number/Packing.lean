import Mathlib

/-!
# Binary numbers and their parts

A finite number is `±mantissa * 2 ^ exponent`, and of the many ways to write
it like this one is canonical: the mantissa fills its 53 bits unless the
exponent is the least. `pack_unpack` and `unpack_pack` say that a number is
its bits and that the canonical parts can be read off them; `isNaN_pack`
that nothing but `NaN` is packed as `NaN`.
-/

namespace CritterScript.Number

open Float.Model (Format UnpackedFloat)
open Float.Model.UnpackedFloat (Sign packComponents unpackSign unpackExponent unpackMantissa
  unpackExponent_packComponents unpackMantissa_packComponents)

/-- The parts that a finite number is stored with. -/
structure Canonical (m : ℕ) (e : ℤ) : Prop where
  lt : m < 2 ^ 53
  lower : -1074 ≤ e
  upper : e ≤ 971
  normal : 2 ^ 52 ≤ m ∨ e = -1074

/-! ## Signs, exponents and mantissas -/

theorem ofBitVec_toBitVec (s : Sign) : Sign.ofBitVec s.toBitVec = s := by
  cases s <;> rfl

theorem toBitVec_ofBitVec : ∀ b : BitVec 1, (Sign.ofBitVec b).toBitVec = b := by
  decide

theorem toNat_one_append (m : BitVec 52) : (1#1 ++ m).toNat = 2 ^ 52 + m.toNat := by
  rw [BitVec.toNat_append, ← Nat.shiftLeft_add_eq_or_of_lt m.isLt]
  rfl

theorem unpackSign_packComponents (s : Sign) (e : BitVec 11) (m : BitVec 52) :
    unpackSign (packComponents .binary64 s e m) = s.toBitVec := by
  apply BitVec.eq_of_getLsbD_eq
  intro i hi
  obtain rfl : i = 0 := by omega
  simp only [unpackSign, packComponents, BitVec.getLsbD_cast, BitVec.getLsbD_extractLsb,
    BitVec.getLsbD_append]
  simp

/-- Sixty-four bits are a sign, an exponent and a mantissa. -/
theorem packComponents_unpack (b : BitVec 64) :
    packComponents .binary64 (Sign.ofBitVec (@unpackSign .binary64 b)) (@unpackExponent .binary64 b)
      (@unpackMantissa .binary64 b) = b := by
  rw [packComponents, toBitVec_ofBitVec]
  apply BitVec.eq_of_getLsbD_eq
  intro i hi
  have hi' : i < 64 := hi
  simp only [unpackSign, unpackExponent, unpackMantissa, BitVec.getLsbD_append,
    BitVec.getLsbD_cast, BitVec.getLsbD_extractLsb]
  by_cases hm : i < 52
  · simp [hm]
  by_cases he : i < 63
  · simp [hm, show i - 52 < 11 by omega, show 52 + (i - 52) = i by omega]
  · obtain rfl : i = 63 := by omega
    simp only [Nat.reduceLT, Nat.reduceSub, Nat.reduceAdd, decide_true, Bool.true_and, if_false]

section Unpack

variable (s : Sign) {e : BitVec 11} {m : BitVec 52}

theorem unpack_infinity :
    UnpackedFloat.unpack .binary64 (packComponents .binary64 s (-1#11) 0#52) = .infinity s := by
  simp only [UnpackedFloat.unpack, unpackMantissa_packComponents, unpackExponent_packComponents,
    unpackSign_packComponents, ofBitVec_toBitVec, if_true]

theorem unpack_notANumber (hm : m ≠ 0#52) :
    UnpackedFloat.unpack .binary64 (packComponents .binary64 s (-1#11) m) = .notANumber := by
  simp only [UnpackedFloat.unpack, unpackMantissa_packComponents, unpackExponent_packComponents,
    hm, if_true, if_false]

theorem unpack_zero :
    UnpackedFloat.unpack .binary64 (packComponents .binary64 s 0#11 0#52) = .zero s := by
  simp only [UnpackedFloat.unpack, unpackMantissa_packComponents, unpackExponent_packComponents,
    unpackSign_packComponents, ofBitVec_toBitVec]
  rfl

theorem unpack_subnormal (hm : m ≠ 0#52) (hpos : 0 < m.toNat) :
    UnpackedFloat.unpack .binary64 (packComponents .binary64 s 0#11 m) =
      .finite s m.toNat (-1074) hpos := by
  simp only [UnpackedFloat.unpack, unpackMantissa_packComponents, unpackExponent_packComponents,
    unpackSign_packComponents, ofBitVec_toBitVec]
  rw [if_neg (by decide), dif_neg hm, if_pos trivial]
  rfl

theorem unpack_normal (h₀ : e ≠ 0#11) (h₁ : e ≠ -1#11) :
    UnpackedFloat.unpack .binary64 (packComponents .binary64 s e m) =
      .finite s (2 ^ 52 + m.toNat) (e.toNat - 1075) (by omega) := by
  simp only [UnpackedFloat.unpack, unpackMantissa_packComponents, unpackExponent_packComponents,
    unpackSign_packComponents, ofBitVec_toBitVec, toNat_one_append, h₀, h₁, if_false]
  rfl

/-- Only the greatest exponent is kept for `NaN`. -/
theorem isNaN_unpack (h : e ≠ -1#11) :
    (UnpackedFloat.unpack .binary64 (packComponents .binary64 s e m)).isNaN = false := by
  by_cases h₀ : e = 0#11
  · subst h₀
    by_cases hm : m = 0#52
    · rw [hm, unpack_zero]
      rfl
    · rw [unpack_subnormal s hm (by bv_omega)]
      rfl
  · rw [unpack_normal s h₀ h]
    rfl

end Unpack

section Pack

variable {s : Sign} {m : ℕ} {e : ℤ}

theorem pack_normal (hm : 0 < m) (h : 2 ^ 52 ≤ m) (hlt : m < 2 ^ 53) (hu : e ≤ 971) :
    UnpackedFloat.pack .binary64 (.finite s m e hm) =
      packComponents .binary64 s (BitVec.ofNat 11 (e + 1075).toNat) (BitVec.ofNat 52 m) := by
  have hlog : m.log2 + 1 = 53 := by
    have hge := (Nat.le_log2 hm.ne').mpr h
    have hle := (Nat.log2_lt hm.ne').mpr hlt
    omega
  have hexp : e + (1023 : ℕ) + (52 : ℕ) = e + 1075 := by omega
  show (if 2 ^ 11 ≤ (e + (1023 : ℕ) + (52 : ℕ)).toNat + 1 then _
    else if m.log2 + 1 = 53 then
      packComponents .binary64 s (BitVec.ofNat 11 (e + (1023 : ℕ) + (52 : ℕ)).toNat) _
    else _) = _
  rw [hexp, if_neg (by omega), if_pos hlog]

theorem pack_subnormal (hm : 0 < m) (hlt : m < 2 ^ 52) :
    UnpackedFloat.pack .binary64 (.finite s m (-1074) hm) =
      packComponents .binary64 s 0#11 (BitVec.ofNat 52 m) := by
  have hlog : m.log2 < 52 := (Nat.log2_lt hm.ne').mpr hlt
  show (if m.log2 + 1 = 53 then _ else packComponents .binary64 s 0#11 (BitVec.ofNat 52 m)) = _
  rw [if_neg (by omega)]

end Pack

/-! ## Packing and unpacking -/

/-- Bits are the parts they unpack to, and those are canonical. -/
theorem unpack_bits {b : BitVec 64} (hb : Format.binary64.Valid b) :
    UnpackedFloat.pack .binary64 (.unpack .binary64 b) = b ∧
      ∀ s m e hm, UnpackedFloat.unpack .binary64 b = .finite s m e hm → Canonical m e := by
  have hnan := hb.eq_packedNaN
  have hparts := packComponents_unpack b
  generalize Sign.ofBitVec (@unpackSign .binary64 b) = s at hparts
  generalize @unpackExponent .binary64 b = e at hparts hnan
  generalize @unpackMantissa .binary64 b = m at hparts hnan
  subst hparts
  by_cases h₁ : e = -1#11
  · subst h₁
    by_cases hm : m = 0#52
    · subst hm
      rw [unpack_infinity]
      exact ⟨rfl, fun _ _ _ _ h => by cases h⟩
    · rw [unpack_notANumber s hm]
      exact ⟨(hnan rfl hm).symm, fun _ _ _ _ h => by cases h⟩
  have hmlt : m.toNat < 2 ^ 52 := m.isLt
  by_cases h₀ : e = 0#11
  · subst h₀
    by_cases hm : m = 0#52
    · subst hm
      rw [unpack_zero]
      exact ⟨rfl, fun _ _ _ _ h => by cases h⟩
    · have hpos : 0 < m.toNat := by bv_omega
      rw [unpack_subnormal s hm hpos, pack_subnormal hpos hmlt, BitVec.ofNat_toNat,
        BitVec.setWidth_eq]
      refine ⟨rfl, ?_⟩
      rintro s' m' e' hm' h
      cases h
      exact ⟨by omega, le_refl _, by omega, .inr rfl⟩
  · have hpos : 1 ≤ e.toNat := by bv_omega
    have hle : e.toNat ≤ 2046 := by bv_omega
    have hexp : ((e.toNat : ℤ) - 1075 + 1075).toNat = e.toNat := by omega
    have hmant : BitVec.ofNat 52 (2 ^ 52 + m.toNat) = m := by
      apply BitVec.eq_of_toNat_eq
      rw [BitVec.toNat_ofNat, Nat.add_mod_left, Nat.mod_eq_of_lt hmlt]
    rw [unpack_normal s h₀ h₁, pack_normal (by omega) (by omega) (by omega) (by omega), hexp,
      hmant, BitVec.ofNat_toNat, BitVec.setWidth_eq]
    refine ⟨rfl, ?_⟩
    rintro s' m' e' hm' h
    cases h
    exact ⟨by omega, by omega, by omega, .inl (by omega)⟩

/-- A number is its parts. -/
theorem pack_unpack (f : Float.Model) : .pack f.unpack = f := by
  obtain ⟨⟨b⟩, hb⟩ := f
  show Float.Model.mk ⟨UnpackedFloat.pack .binary64 (.unpack .binary64 b)⟩ _ = _
  simp only [(unpack_bits hb).1]

theorem canonical_of_unpack {f : Float.Model} {s : Sign} {m : ℕ} {e : ℤ} {hm : 0 < m}
    (h : f.unpack = .finite s m e hm) : Canonical m e :=
  (unpack_bits f.valid).2 s m e hm h

/-- The exponent of a finite number is not the greatest. -/
theorem ofNat_ne_neg_one {n : ℕ} (h : n + 1 < 2 ^ 11) : BitVec.ofNat 11 n ≠ -1#11 := by
  intro hn
  have hnat := congrArg BitVec.toNat hn
  rw [BitVec.toNat_ofNat, Nat.mod_eq_of_lt (by omega)] at hnat
  have hone : (-1#11).toNat = 2047 := rfl
  omega

/-- Canonical parts survive. -/
theorem unpack_pack (s : Sign) {m : ℕ} {e : ℤ} (hm : 0 < m) (h : Canonical m e) :
    (Float.Model.pack (.finite s m e hm)).unpack = .finite s m e hm := by
  have hlt := h.lt
  have hlower := h.lower
  have hupper := h.upper
  show UnpackedFloat.unpack .binary64 (UnpackedFloat.pack .binary64 (.finite s m e hm)) = _
  by_cases hnormal : 2 ^ 52 ≤ m
  · have he : (BitVec.ofNat 11 (e + 1075).toNat).toNat = (e + 1075).toNat := by
      rw [BitVec.toNat_ofNat, Nat.mod_eq_of_lt (by omega)]
    have hm52 : (BitVec.ofNat 52 m).toNat = m - 2 ^ 52 := by
      rw [BitVec.toNat_ofNat]
      omega
    have h₀ : BitVec.ofNat 11 (e + 1075).toNat ≠ 0#11 := by
      intro hzero
      rw [hzero, BitVec.toNat_zero] at he
      omega
    have h₁ : BitVec.ofNat 11 (e + 1075).toNat ≠ -1#11 := ofNat_ne_neg_one (by omega)
    rw [pack_normal hm hnormal hlt hupper, unpack_normal s h₀ h₁]
    congr 1
    · omega
    · rw [he]
      omega
  · obtain rfl : e = -1074 := h.normal.resolve_left hnormal
    have hm52 : (BitVec.ofNat 52 m).toNat = m := by
      rw [BitVec.toNat_ofNat, Nat.mod_eq_of_lt (by omega)]
    rw [pack_subnormal hm (by omega), unpack_subnormal s (by bv_omega) (by omega)]
    congr 1

theorem isNaN_pack {u : UnpackedFloat} (h : u.isNaN = false) :
    (Float.Model.pack u).isNaN = false := by
  show (UnpackedFloat.unpack .binary64 (UnpackedFloat.pack .binary64 u)).isNaN = false
  have hinf (s : Sign) : (UnpackedFloat.unpack .binary64
      (packComponents .binary64 s (-1#11) 0#52)).isNaN = false := by
    rw [unpack_infinity]
    rfl
  cases u with
  | notANumber => exact h
  | infinity s => exact hinf s
  | zero s => exact isNaN_unpack s (by decide)
  | finite s m e hm =>
    rw [UnpackedFloat.pack]
    dsimp only
    split
    · exact hinf s
    · rename_i hexp
      split
      · exact isNaN_unpack s (ofNat_ne_neg_one (by omega))
      · exact isNaN_unpack s (by decide)

end CritterScript.Number
