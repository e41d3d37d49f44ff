import CritterScript.Random
import Mathlib

/-!
# Streams of random words

Scrambling a count loses nothing. It is made of steps that can be undone, an
exclusive or of a word with its own shift and a product with an odd number
(`xor_shiftRight_injective`, `mul_injective`), and so different counts give
different words (`mix_injective`).

Hence two streams give the same word just where their counts agree modulo
`2 ^ 64` (`word_eq_iff`). The step of the count is odd, so that a stream goes
through all words before one of them comes again (`existsUnique_word`), and
streams that agree in one draw are one stream (`word_eq_word_iff`).
`words_collide_iff` says this of the streams of seeds.
-/

namespace CritterScript.SplitMix

/-! ## Scrambling -/

/-- A word is told by its exclusive or with its own shift. -/
theorem xor_shiftRight_injective {k : UInt64} (hk : k.toNat % 64 ≠ 0) :
    Function.Injective fun z : UInt64 => z ^^^ (z >>> k) := by
  intro a b (h : a ^^^ (a >>> k) = b ^^^ (b >>> k))
  -- the bits in which the two words differ are not changed by the shift
  have hshift : (a ^^^ b) >>> k = a ^^^ b := by
    have hxor : (a >>> k) ^^^ (b >>> k) ^^^ (a ^^^ b) = 0 := by
      calc (a >>> k) ^^^ (b >>> k) ^^^ (a ^^^ b)
        _ = (a ^^^ (a >>> k)) ^^^ (b ^^^ (b >>> k)) := by ac_rfl
        _ = 0 := by rw [h, UInt64.xor_self]
    rw [UInt64.shiftRight_xor]
    exact UInt64.xor_eq_zero_iff.mp hxor
  have hdiv : (a ^^^ b).toNat / 2 ^ (k.toNat % 64) = (a ^^^ b).toNat := by
    rw [← Nat.shiftRight_eq_div_pow, ← UInt64.toNat_shiftRight, hshift]
  have hzero : (a ^^^ b).toNat = 0 := by
    by_contra hne
    have hlt := Nat.div_lt_self (Nat.pos_of_ne_zero hne) (Nat.one_lt_two_pow hk)
    omega
  exact UInt64.xor_eq_zero_iff.mp (UInt64.toNat_inj.mp hzero)

/-- Products with an odd number agree modulo `2 ^ 64` just if the other factors
do. -/
theorem mul_modEq_iff {a m n : Nat} (ha : Odd a) :
    m * a ≡ n * a [MOD 2 ^ 64] ↔ m ≡ n [MOD 2 ^ 64] := by
  have hcoprime : Nat.gcd (2 ^ 64) a = 1 :=
    Nat.Coprime.pow_left 64 (Nat.coprime_two_left.mpr ha)
  exact ⟨Nat.ModEq.cancel_right_of_coprime hcoprime, fun h => h.mul_right a⟩

theorem eq_of_modEq {a b : UInt64} (h : a.toNat ≡ b.toNat [MOD 2 ^ 64]) : a = b :=
  UInt64.toNat_inj.mp (Nat.ModEq.eq_of_lt_of_lt h a.toNat_lt b.toNat_lt)

theorem mul_injective {a : UInt64} (ha : Odd a.toNat) :
    Function.Injective fun z : UInt64 => z * a := by
  intro y z h
  have hmul : y.toNat * a.toNat ≡ z.toNat * a.toNat [MOD 2 ^ 64] := by
    have hnat := congrArg UInt64.toNat h
    rwa [UInt64.toNat_mul, UInt64.toNat_mul] at hnat
  exact eq_of_modEq ((mul_modEq_iff ha).mp hmul)

/-- Different counts are scrambled to different words. -/
theorem mix_injective : Function.Injective mix := by
  have hfirst : Function.Injective fun z : UInt64 => (z ^^^ (z >>> 30)) * 0xBF58476D1CE4E5B9 :=
    (mul_injective (by decide)).comp (xor_shiftRight_injective (by decide))
  have hsecond : Function.Injective fun z : UInt64 => (z ^^^ (z >>> 27)) * 0x94D049BB133111EB :=
    (mul_injective (by decide)).comp (xor_shiftRight_injective (by decide))
  exact (xor_shiftRight_injective (by decide)).comp (hsecond.comp hfirst)

/-! ## Draws -/

/-- The stream after `n` draws. -/
def after (s : SplitMix) : Nat → SplitMix
  | 0 => s
  | n + 1 => (s.after n).next.2

/-- The word that a stream gives after `i` others: that of draw number
`i + 1`. -/
def word (s : SplitMix) (i : Nat) : UInt64 :=
  (s.after i).next.1

theorem toNat_state_after (s : SplitMix) (n : Nat) :
    (s.after n).state.toNat = (s.state.toNat + n * gamma.toNat) % 2 ^ 64 := by
  induction n with
  | zero =>
    rw [Nat.zero_mul, Nat.add_zero, Nat.mod_eq_of_lt s.state.toNat_lt]
    rfl
  | succ n ih =>
    show ((s.after n).state + gamma).toNat = _
    rw [UInt64.toNat_add, ih, Nat.mod_add_mod, Nat.add_one_mul, Nat.add_assoc]

variable {s t : SplitMix} {i j : Nat}

/-- Two streams give the same word just where their counts agree. -/
theorem word_eq_iff :
    s.word i = t.word j ↔
      s.state.toNat + (i + 1) * gamma.toNat ≡
        t.state.toNat + (j + 1) * gamma.toNat [MOD 2 ^ 64] := by
  have hword : ∀ (s : SplitMix) (i : Nat), s.word i = mix (s.after (i + 1)).state :=
    fun s i => rfl
  rw [hword, hword, mix_injective.eq_iff, ← UInt64.toNat_inj, toNat_state_after,
    toNat_state_after]
  rfl

/-- Streams that agree in a draw are one stream. -/
theorem word_eq_word_iff : s.word i = t.word i ↔ s = t := by
  constructor
  · intro h
    have hstate : s.state = t.state :=
      eq_of_modEq (Nat.ModEq.add_right_cancel' _ (word_eq_iff.mp h))
    cases s
    cases t
    exact congrArg SplitMix.mk hstate
  · rintro rfl
    rfl

theorem odd_gamma : Odd gamma.toNat := by decide

/-- A stream gives the same word twice after a multiple of `2 ^ 64` draws. -/
theorem word_eq_iff_modEq : s.word i = s.word j ↔ i ≡ j [MOD 2 ^ 64] := by
  rw [word_eq_iff]
  constructor
  · intro h
    exact ((mul_modEq_iff odd_gamma).mp (h.add_left_cancel' _)).add_right_cancel' 1
  · intro h
    exact ((h.add_right 1).mul_right _).add_left _

/-- Of `2 ^ 64` draws in a row, every word is given by one. -/
theorem existsUnique_word (s : SplitMix) (first : Nat) (w : UInt64) :
    ∃! i, first ≤ i ∧ i < first + 2 ^ 64 ∧ s.word i = w := by
  have hinjective : Function.Injective fun k : Fin (2 ^ 64) => s.word (first + k) := by
    intro k l h
    have hmod := (word_eq_iff_modEq.mp h).add_left_cancel' first
    exact Fin.ext (hmod.eq_of_lt_of_lt k.isLt l.isLt)
  -- there are as many words as draws, so none is left out
  let words : Fin (2 ^ 64) ≃ UInt64 := ⟨UInt64.ofFin, UInt64.toFin, fun _ => rfl, fun _ => rfl⟩
  obtain ⟨k, hk⟩ := (Finite.injective_iff_surjective_of_equiv words).mp hinjective w
  refine ⟨first + k, ⟨Nat.le_add_right _ _, Nat.add_lt_add_left k.isLt first, hk⟩, ?_⟩
  rintro i ⟨hle, hlt, hi⟩
  obtain ⟨l, rfl⟩ := Nat.exists_eq_add_of_le hle
  have hl : (⟨l, by omega⟩ : Fin (2 ^ 64)) = k := hinjective (hi.trans hk.symm)
  rw [← hl]

/-! ## Seeds -/

/-- The count that the stream of a seed starts from. -/
def start (seed : UInt64) : Nat :=
  (if seed = 0 then gamma else seed).toNat

theorem ofSeed_eq_iff {a b : UInt64} (h : a ≠ b) :
    ofSeed a = ofSeed b ↔ (a = 0 ∧ b = gamma) ∨ (a = gamma ∧ b = 0) := by
  rw [ofSeed, ofSeed, SplitMix.mk.injEq]
  by_cases ha : a = 0
  · have hb : b ≠ 0 := fun hb => h (ha.trans hb.symm)
    rw [if_pos ha, if_neg hb]
    simp [ha, hb, eq_comm]
  · by_cases hb : b = 0
    · rw [if_neg ha, if_pos hb]
      simp [ha, hb]
    · rw [if_neg ha, if_neg hb]
      simp [ha, hb, h]

/-- Draws of the streams of two seeds give the same word just if their counts
agree modulo `2 ^ 64`. So the stream of a seed gives every word once in
`2 ^ 64` draws in a row; and two seeds have the same first word, and then all
words, just if one is zero and the other the number that it stands for. -/
theorem words_collide_iff :
    (∀ a b i j, (ofSeed a).word i = (ofSeed b).word j ↔
      start a + (i + 1) * gamma.toNat ≡ start b + (j + 1) * gamma.toNat [MOD 2 ^ 64]) ∧
    (∀ a first w, ∃! i, first ≤ i ∧ i < first + 2 ^ 64 ∧ (ofSeed a).word i = w) ∧
    ∀ a b, a ≠ b →
      ((ofSeed a).word 0 = (ofSeed b).word 0 ↔ (a = 0 ∧ b = gamma) ∨ (a = gamma ∧ b = 0)) ∧
      ((ofSeed a).word 0 = (ofSeed b).word 0 ↔ ∀ i, (ofSeed a).word i = (ofSeed b).word i) := by
  refine ⟨fun a b i j => word_eq_iff, fun a first w => existsUnique_word _ first w,
    fun a b h => ⟨word_eq_word_iff.trans (ofSeed_eq_iff h), ?_⟩⟩
  simp only [word_eq_word_iff, forall_const]

/-- The seeds zero and `gamma` have one stream. -/
theorem words_collide_iff_zero :
    (0 : UInt64) ≠ gamma ∧ ∀ i, (ofSeed 0).word i = (ofSeed gamma).word i := by
  have hne : (0 : UInt64) ≠ gamma := by decide
  obtain ⟨hfirst, hall⟩ := words_collide_iff.2.2 0 gamma hne
  exact ⟨hne, hall.mp (hfirst.mpr (.inl ⟨rfl, rfl⟩))⟩

end CritterScript.SplitMix
