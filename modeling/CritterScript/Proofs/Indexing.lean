import CritterScript.Proofs.Number.Rational
import CritterScript.Proofs.Operations
import Mathlib

/-!
# Appending and indexing

`PUSH` joins the numbers of two values, where a number stands for an array of
one (`Value.Lists`), and so it is associative. `GET` finds the number at an
index, which has to be a natural number below the length, whatever else the
index is: `push_then_get` says where it finds a number of two values that were
joined.

A machine tests an index by comparisons, of which none alone tells the natural
numbers from the rest: every comparison with `NaN` is false. `Value.item?` is
`GET` with these comparisons in front and an access that finds nothing if they
let a bad index pass. `item?_eq` shows that they never do.
-/

namespace CritterScript

/-! ## Appending -/

/-- The numbers of an array, or a single number. -/
inductive Value.Lists : Value → List Float → Prop
  | array (xs : List Float) : Lists (.array xs) xs
  | number (x : Float) : Lists (.number x) [x]

namespace Value

variable {a b c v : Value}

theorem items_eq_ok_iff {xs : List Float} : v.items = .ok xs ↔ v.Lists xs := by
  constructor
  · intro h
    cases v with
    | array ys =>
      obtain rfl := Except.ok.inj h
      exact .array ys
    | number x =>
      cases h
      exact .number x
    | _ => cases h
  · rintro (_ | _) <;> rfl

theorem append_eq_ok_iff :
    a.append b = .ok v ↔ ∃ xs ys, a.Lists xs ∧ b.Lists ys ∧ v = .array (xs ++ ys) := by
  simp only [append, bind_eq_ok_iff, items_eq_ok_iff]
  constructor
  · rintro ⟨xs, hxs, ys, hys, h⟩
    exact ⟨xs, ys, hxs, hys, (Except.ok.inj h).symm⟩
  · rintro ⟨xs, ys, hxs, hys, rfl⟩
    exact ⟨xs, hxs, ys, hys, rfl⟩

theorem lists_array_iff {xs ys : List Float} : (array xs).Lists ys ↔ ys = xs := by
  constructor
  · rintro (_ | _)
    rfl
  · rintro rfl
    exact .array ys

/-- Three values joined from the left. -/
theorem append_left_iff :
    (∃ u, a.append b = .ok u ∧ u.append c = .ok v) ↔
      ∃ xs ys zs, a.Lists xs ∧ b.Lists ys ∧ c.Lists zs ∧ v = .array (xs ++ ys ++ zs) := by
  simp only [append_eq_ok_iff]
  constructor
  · rintro ⟨_, ⟨xs, ys, hxs, hys, rfl⟩, us, zs, hus, hzs, rfl⟩
    obtain rfl := lists_array_iff.mp hus
    exact ⟨xs, ys, zs, hxs, hys, hzs, rfl⟩
  · rintro ⟨xs, ys, zs, hxs, hys, hzs, rfl⟩
    exact ⟨_, ⟨xs, ys, hxs, hys, rfl⟩, xs ++ ys, zs, .array _, hzs, rfl⟩

/-- Three values joined from the right. -/
theorem append_right_iff :
    (∃ u, b.append c = .ok u ∧ a.append u = .ok v) ↔
      ∃ xs ys zs, a.Lists xs ∧ b.Lists ys ∧ c.Lists zs ∧ v = .array (xs ++ ys ++ zs) := by
  simp only [append_eq_ok_iff]
  constructor
  · rintro ⟨_, ⟨ys, zs, hys, hzs, rfl⟩, xs, us, hxs, hus, rfl⟩
    obtain rfl := lists_array_iff.mp hus
    exact ⟨xs, ys, zs, hxs, hys, hzs, by rw [List.append_assoc]⟩
  · rintro ⟨xs, ys, zs, hxs, hys, hzs, rfl⟩
    exact ⟨_, ⟨ys, zs, hys, hzs, rfl⟩, xs, ys ++ zs, hxs, .array _, by rw [List.append_assoc]⟩

end Value

/-! ## Indexing -/

namespace Value

theorem item_of_rational {xs : List Float} {x : Float} {n : ℕ} {y : Float}
    (hx : Number.rational? x = some (n : ℚ)) (hy : xs[n]? = some y) :
    (array xs).item (.number x) = .ok (.number y) :=
  item_eq_ok_iff.mpr ⟨x, n, y, rfl, Number.natural?_eq_some_iff.mpr hx, hy, rfl⟩

theorem item_of_not_rational {xs : List Float} {x : Float}
    (h : ∀ n < xs.length, Number.rational? x ≠ some (n : ℚ)) :
    (array xs).item (.number x) = .error (.indexOutOfBounds x) := by
  have hnone : (Number.natural? x).bind (xs[·]?) = none := by
    rw [Option.bind_eq_none_iff]
    intro n hn
    refine List.getElem?_eq_none (Nat.le_of_not_lt fun hlt => h n hlt ?_)
    exact Number.natural?_eq_some_iff.mp hn
  rw [item, hnone]

theorem exists_item_iff {xs : List Float} {x : Float} :
    (∃ w, (array xs).item (.number x) = .ok w) ↔
      ∃ n : ℕ, n < xs.length ∧ Number.rational? x = some (n : ℚ) := by
  constructor
  · rintro ⟨w, hw⟩
    by_contra h
    rw [item_of_not_rational fun n hn hx => h ⟨n, hn, hx⟩] at hw
    cases hw
  · rintro ⟨n, hn, hx⟩
    exact ⟨_, item_of_rational hx (List.getElem?_eq_getElem hn)⟩

end Value

/-- The comparisons that reject an index into an array of `length` items: it is
negative, or not below the length, or not whole. -/
def IndexRejected (length : Nat) (x : Float) : Prop :=
  x < 0 ∨ length.toUInt64.toFloat ≤ x ∨ ¬ (Number.remainder x 1 == 0) = true

instance (length : Nat) (x : Float) : Decidable (IndexRejected length x) :=
  inferInstanceAs (Decidable (_ ∨ _ ∨ _))

/-- The comparisons let just the natural numbers below the length pass. -/
theorem indexRejected_iff {length : ℕ} (hlength : length < 2 ^ 53) {x : Float} :
    IndexRejected length x ↔ ∀ n < length, Number.rational? x ≠ some (n : ℚ) := by
  rw [IndexRejected, Number.remainder_one_beq_iff]
  cases hx : Number.rational? x with
  | none =>
    -- `NaN` and the infinities are no whole numbers, whatever the other two comparisons say
    exact iff_of_true (.inr (.inr (by simp))) (by simp)
  | some a =>
    rw [Number.lt_iff_of_rational hx (b := 0) rfl,
      Number.le_iff_of_rational (Number.rational?_toFloat hlength) hx]
    simp only [Option.some_inj, ne_eq]
    constructor
    · rintro (hneg | hle | hpart) n hn rfl
      · exact absurd n.cast_nonneg hneg.not_ge
      · exact absurd (Nat.cast_le.mp hle) hn.not_ge
      · exact hpart ⟨n, (Int.cast_natCast n).symm⟩
    · intro h
      by_contra hpass
      push Not at hpass
      obtain ⟨hnonneg, hlt, z, rfl⟩ := hpass
      obtain ⟨n, rfl⟩ := Int.eq_ofNat_of_zero_le (Int.cast_nonneg_iff.mp hnonneg)
      rw [Int.cast_natCast] at hlt
      exact h n (Nat.cast_lt.mp hlt) (Int.cast_natCast n)

/-- `Value.item`, with the index compared first and the item then fetched as
it is. -/
def Value.item? : Value → Value → Option (Except Cause Value)
  | .array xs, .number x =>
    if IndexRejected xs.length x then some (.error (.indexOutOfBounds x))
    else xs[x.toUInt64.toNat]?.map fun y => .ok (.number y)
  | v, index => some (v.item index)

/-- The item is always there. -/
theorem Value.item?_eq {xs : List Float} (hlength : xs.length < 2 ^ 53) (x : Float) :
    (array xs).item? (.number x) = some ((array xs).item (.number x)) := by
  rw [item?]
  by_cases hx : IndexRejected xs.length x
  · rw [if_pos hx, item_of_not_rational ((indexRejected_iff hlength).mp hx)]
  · rw [if_neg hx]
    rw [indexRejected_iff hlength] at hx
    push Not at hx
    obtain ⟨n, hn, hrational⟩ := hx
    have hy : xs[n]? = some xs[n] := List.getElem?_eq_getElem hn
    rw [Number.toNat_toUInt64_of_rational hrational (by omega), hy,
      item_of_rational hrational hy]
    rfl

/-- Values are joined just if each is a number or an array, and the result is the
numbers of both, so it does not matter which two of three values are joined
first. Of the joined numbers, any index finds one just if it is a natural number
below their count: that of the first value, or that of the second as far
behind. Any other index is out of bounds, and the comparisons that a machine
makes find that out before the access. -/
theorem push_then_get :
    (∀ a b v, Opcode.push.Gives a b (.ok v) ↔
      ∃ xs ys, a.Lists xs ∧ b.Lists ys ∧ v = .array (xs ++ ys)) ∧
    (∀ a b, (∃ v, Opcode.push.Gives a b (.ok v)) ↔ (∃ xs, a.Lists xs) ∧ ∃ ys, b.Lists ys) ∧
    (∀ a b c v,
      (∃ u, Opcode.push.Gives a b (.ok u) ∧ Opcode.push.Gives u c (.ok v)) ↔
        ∃ u, Opcode.push.Gives b c (.ok u) ∧ Opcode.push.Gives a u (.ok v)) ∧
    ∀ a b u xs ys, a.Lists xs → b.Lists ys → Opcode.push.Gives a b (.ok u) → ∀ x : Float,
      ((∃ w, Opcode.get.Gives u (.number x) (.ok w)) ↔
        ∃ n : ℕ, n < xs.length + ys.length ∧ Number.rational? x = some (n : ℚ)) ∧
      (∀ (n : ℕ) y, Number.rational? x = some (n : ℚ) →
        (xs[n]? = some y ∨ xs.length ≤ n ∧ ys[n - xs.length]? = some y) →
        Opcode.get.Gives u (.number x) (.ok (.number y))) ∧
      ((¬ ∃ n : ℕ, n < xs.length + ys.length ∧ Number.rational? x = some (n : ℚ)) →
        Opcode.get.Gives u (.number x) (.error (.indexOutOfBounds x))) ∧
      (xs.length + ys.length < 2 ^ 53 → u.item? (.number x) = some (u.item (.number x))) := by
  have hpush : Opcode.push.compute? = some Value.append := rfl
  have hget : Opcode.get.compute? = some Value.item := rfl
  simp only [gives_iff hpush, gives_iff hget]
  refine ⟨fun a b v => Value.append_eq_ok_iff, fun a b => ?_,
    fun a b c v => Value.append_left_iff.trans Value.append_right_iff.symm, ?_⟩
  · simp only [Value.append_eq_ok_iff]
    constructor
    · rintro ⟨v, xs, ys, hxs, hys, -⟩
      exact ⟨⟨xs, hxs⟩, ys, hys⟩
    · rintro ⟨⟨xs, hxs⟩, ys, hys⟩
      exact ⟨_, xs, ys, hxs, hys, rfl⟩
  · intro a b u xs ys hxs hys hu x
    rw [Value.append_eq_ok_iff.mpr ⟨xs, ys, hxs, hys, rfl⟩] at hu
    obtain rfl := Except.ok.inj hu
    rw [← List.length_append]
    refine ⟨Value.exists_item_iff, ?_, ?_, fun hlength => Value.item?_eq hlength x⟩
    · intro n y hx hy
      refine Value.item_of_rational hx ?_
      rcases hy with hy | ⟨hle, hy⟩
      · rw [List.getElem?_append_left (List.getElem?_eq_some_iff.mp hy).1, hy]
      · rw [List.getElem?_append_right hle, hy]
    · intro h
      exact Value.item_of_not_rational fun n hn hx => h ⟨n, hn, hx⟩

/-- A number behind an array: negative zero finds the first item, two finds the
number, and there is nothing at one half, at infinity or at `NaN`. -/
theorem push_then_get_number :
    let u : Value := .array ([5, 6] ++ [7])
    Value.Lists (.array [5, 6]) [5, 6] ∧ Value.Lists (.number 7) [7] ∧
      Opcode.push.Gives (.array [5, 6]) (.number 7) (.ok u) ∧
      Opcode.get.Gives u (.number (-0.0)) (.ok (.number 5)) ∧
      Opcode.get.Gives u (.number 2) (.ok (.number 7)) ∧
      ∀ x ∈ [0.5, 1 / 0, 0 / 0],
        Opcode.get.Gives u (.number x) (.error (.indexOutOfBounds x)) := by
  intro u
  obtain ⟨hpush, -, -, hget⟩ := push_then_get
  have hu : Opcode.push.Gives (.array [5, 6]) (.number 7) (.ok u) :=
    (hpush _ _ _).mpr ⟨_, _, .array _, .number _, rfl⟩
  have hindex := hget _ _ u _ _ (.array [5, 6]) (.number 7) hu
  have hzero : Number.natural? (-0.0) = some 0 := by decide +kernel
  have htwo : Number.natural? 2 = some 2 := by decide +kernel
  have hnone : ∀ x ∈ [0.5, 1 / 0, 0 / 0], Number.natural? x = none := by decide +kernel
  refine ⟨.array _, .number _, hu, ?_, ?_, fun x hx => ?_⟩
  · exact (hindex _).2.1 0 5 (Number.natural?_eq_some_iff.mp hzero) (.inl rfl)
  · exact (hindex _).2.1 2 7 (Number.natural?_eq_some_iff.mp htwo) (.inr ⟨Nat.le_refl 2, rfl⟩)
  · refine (hindex x).2.2.1 ?_
    rintro ⟨n, -, hn⟩
    rw [← Number.natural?_eq_some_iff, hnone x hx] at hn
    cases hn

end CritterScript
