import CritterScript.Number.Text
import CritterScript.Proofs.Number.Order
import CritterScript.Proofs.Number.Rounding
import Mathlib

/-!
# Numbers written and read back

The text of a finite number is a numeral: perhaps a minus sign, digits, and
perhaps a point and more digits (`Numeral`). A numeral reads as the number
nearest to it (`Numeral.read?_eq`), and the numeral of a number was chosen to
read as that number (`toFloat_shortest`). So writing and reading loses
nothing but the sign of a zero (`exists_read?_text`).

The texts of the infinities are no numerals (`read?_text_of_isInf`), and no
numeral reads as `NaN` (`isNaN_of_read?`).
-/

namespace CritterScript.Number

open Float.Model (UnpackedFloat)

/-! ## Numerals -/

/-- Digits, and a point and more digits if there are any. -/
structure Numeral (whole fraction cs : List Char) : Prop where
  ne_nil : whole ≠ []
  digits : ∀ c ∈ whole ++ fraction, c.isDigit = true
  text : cs = whole ++ if fraction = [] then [] else '.' :: fraction

/-- The digits at the start of a text end where something else follows. -/
theorem splitDigits_append {cs rest : List Char} (hcs : ∀ c ∈ cs, c.isDigit = true)
    (hrest : ∀ c ∈ rest.head?, c.isDigit = false) : splitDigits (cs ++ rest) = (cs, rest) := by
  rw [splitDigits, List.takeWhile_append_of_pos hcs, List.dropWhile_append_of_pos hcs]
  cases rest with
  | nil => simp
  | cons c rest =>
    have hc := hrest c rfl
    simp [hc]

section Numeral

variable {whole fraction cs : List Char}

theorem Numeral.splitSign_eq (h : Numeral whole fraction cs) : splitSign cs = (false, cs) := by
  obtain ⟨c, whole, rfl⟩ := List.exists_cons_of_ne_nil h.ne_nil
  have hc : c.isDigit = true := h.digits c (by simp)
  rw [h.text, List.cons_append]
  refine splitSign.eq_3 _ ?_ ?_
  · intro rest hplus
    cases hplus
    cases hc
  · intro rest hminus
    cases hminus
    cases hc

theorem Numeral.splitSignificand?_eq (h : Numeral whole fraction cs) :
    splitSignificand? cs = some (whole, fraction, []) := by
  have hwhole : ∀ c ∈ whole, c.isDigit = true :=
    fun c hc => h.digits c (List.mem_append_left fraction hc)
  have hfraction : ∀ c ∈ fraction, c.isDigit = true :=
    fun c hc => h.digits c (List.mem_append_right whole hc)
  obtain ⟨w, ws, rfl⟩ := List.exists_cons_of_ne_nil h.ne_nil
  rw [h.text, splitSignificand?]
  by_cases hf : fraction = []
  · subst hf
    rw [if_pos rfl, splitDigits_append hwhole (fun c hc => by cases hc)]
  · have hsplit := @splitDigits_append fraction [] hfraction (fun c hc => by cases hc)
    rw [List.append_nil] at hsplit
    rw [if_neg hf, splitDigits_append hwhole (fun c hc => by cases hc; rfl)]
    simp only [hsplit]

/-- A numeral, with a sign or without, reads as the number nearest to it. -/
theorem Numeral.read?_eq (h : Numeral whole fraction cs) :
    read? cs = some (nearest (ofDigits (whole ++ fraction)) (-fraction.length)) ∧
      read? ('-' :: cs) = some (-nearest (ofDigits (whole ++ fraction)) (-fraction.length)) := by
  have hsplit := h.splitSignificand?_eq
  constructor
  · simp [read?, h.splitSign_eq, hsplit, readExponent?]
  · simp [read?, splitSign, hsplit, readExponent?]

end Numeral

/-! ## Decimals -/

theorem ofDigits_toDigits (n : ℕ) : ofDigits (toDigits n) = n :=
  Nat.ofDigitChars_toDigits (by decide) (by decide)

theorem isDigit_of_mem_toDigits {n : ℕ} {c : Char} (h : c ∈ toDigits n) : c.isDigit = true :=
  Nat.isDigit_of_mem_toDigits (by decide) (by decide) h

theorem ofDigits_append (xs ys : List Char) :
    ofDigits (xs ++ ys) = 10 ^ ys.length * ofDigits xs + ofDigits ys := by
  show Nat.ofDigitChars 10 (xs ++ ys) 0 = _
  rw [Nat.ofDigitChars_append, Nat.ofDigitChars_eq_ofDigitChars_zero]
  rfl

theorem ofDigits_replicate_append (k : ℕ) (cs : List Char) :
    ofDigits (List.replicate k '0' ++ cs) = ofDigits cs := by
  have hzeros : ofDigits (List.replicate k '0') = 0 := Nat.ofDigitChars_replicate_zero
  rw [ofDigits_append, hzeros, Nat.mul_zero, Nat.zero_add]

/-- The text of a plain decimal is a numeral with its digits and places. -/
theorem Plain.exists_numeral (d : Plain) :
    ∃ whole fraction, Numeral whole fraction d.text ∧ fraction.length = d.places ∧
      ofDigits (whole ++ fraction) = d.digits := by
  obtain ⟨digits, places⟩ := d
  by_cases hp : places = 0
  · subst hp
    refine ⟨toDigits digits, [], ⟨Nat.toDigits_ne_nil, ?_, ?_⟩, rfl, ?_⟩
    · intro c hc
      rw [List.append_nil] at hc
      exact isDigit_of_mem_toDigits hc
    · rw [Plain.text, if_pos rfl, if_pos rfl, List.append_nil]
    · rw [List.append_nil, ofDigits_toDigits]
  · set rest := toDigits (digits % 10 ^ places) with hrest
    have hlen : rest.length ≤ places := by
      rw [hrest, toDigits, Nat.length_toDigits_le_iff (by decide) (Nat.pos_of_ne_zero hp)]
      exact Nat.mod_lt _ (by positivity)
    have hplaces : (List.replicate (places - rest.length) '0' ++ rest).length = places := by
      rw [List.length_append, List.length_replicate]
      omega
    refine ⟨toDigits (digits / 10 ^ places), List.replicate (places - rest.length) '0' ++ rest,
      ⟨Nat.toDigits_ne_nil, ?_, ?_⟩, hplaces, ?_⟩
    · intro c hc
      rw [List.mem_append, List.mem_append] at hc
      obtain hc | hc | hc := hc
      · exact isDigit_of_mem_toDigits hc
      · rw [List.eq_of_mem_replicate hc]
        rfl
      · exact isDigit_of_mem_toDigits hc
    · have hne : List.replicate (places - rest.length) '0' ++ rest ≠ [] := by
        rw [← List.length_pos_iff, hplaces]
        exact Nat.pos_of_ne_zero hp
      rw [Plain.text, if_neg hp, if_neg hne]
      rfl
    · rw [ofDigits_append, hplaces, ofDigits_replicate_append, hrest, ofDigits_toDigits,
        ofDigits_toDigits, Nat.div_add_mod]

/-- A plain decimal, with a sign or without, reads as its number. -/
theorem Plain.read?_text (d : Plain) :
    read? d.text = some d.toFloat ∧ read? ('-' :: d.text) = some (-d.toFloat) := by
  obtain ⟨whole, fraction, hnumeral, hplaces, hdigits⟩ := d.exists_numeral
  have hread := hnumeral.read?_eq
  rw [hplaces, hdigits] at hread
  exact hread

/-! ## Shortest decimals -/

theorem toFloat_of_candidate? {x : Float} {digits : ℕ} {exponent : ℤ} {cut : ℕ} {d : Plain}
    (h : candidate? x digits exponent cut = some d) : d.toFloat = x := by
  rw [candidate?] at h
  generalize Plain.ofScaled (digits / Nat.pow 10 cut) (exponent + cut) = below at h
  generalize Plain.ofScaled (digits / Nat.pow 10 cut + 1) (exponent + cut) = above at h
  by_cases hbelow : below.toFloat = x
  · rw [if_pos hbelow] at h
    by_cases habove : (decide (above.toFloat = x) &&
        decide (Nat.pow 10 cut ≤ 2 * (digits % Nat.pow 10 cut))) = true
    · rw [if_pos habove] at h
      cases h
      exact of_decide_eq_true (Bool.and_eq_true_iff.mp habove).1
    · rw [if_neg habove] at h
      cases h
      exact hbelow
  · rw [if_neg hbelow] at h
    by_cases habove : above.toFloat = x
    · rw [if_pos habove] at h
      cases h
      exact habove
    · rw [if_neg habove] at h
      cases h

theorem toFloat_of_search? {x : Float} {digits : ℕ} {exponent : ℤ} {tries cut : ℕ} {d : Plain}
    (h : search? x digits exponent tries cut = some d) : d.toFloat = x := by
  induction tries generalizing cut with
  | zero => cases h
  | succ tries ih =>
    rw [search?] at h
    cases hc : candidate? x digits exponent cut with
    | some c =>
      rw [hc] at h
      cases h
      exact toFloat_of_candidate? hc
    | none =>
      rw [hc] at h
      by_cases hcut : cut = 0
      · rw [if_pos hcut] at h
        cases h
      · rw [if_neg hcut] at h
        exact ih h

/-- The shortest decimal of a number reads as that number. -/
theorem toFloat_shortest {m : ℕ} {e : ℤ} (hm : 0 < m) (h : Canonical m e) {x : Float}
    (hx : x = .ofModel (.pack (.finite .positive m e hm))) : (shortest x m e).toFloat = x := by
  rw [shortest]
  dsimp only
  generalize hs : search? x _ _ _ _ = found
  cases found with
  | some d => exact toFloat_of_search? hs
  | none =>
    rw [Option.getD_none, toFloat_exact hm h, hx]

/-! ## Numbers -/

/-- A finite number other than zero is written as a numeral, perhaps behind a
minus sign, that reads as that number. -/
theorem read?_text_of_finite {x : Float} {s : UnpackedFloat.Sign} {m : ℕ} {e : ℤ} {hm : 0 < m}
    (hx : x.toModel.unpack = .finite s m e hm) :
    read? (text x) = some x ∧
      ∃ whole fraction cs, Numeral whole fraction cs ∧ (text x = cs ∨ text x = '-' :: cs) := by
  have hc : Canonical m e := canonical_of_unpack hx
  have hpack : x = .ofModel (.pack (.finite s m e hm)) := by
    rw [← hx, pack_unpack]
  cases s with
  | positive =>
    have htext : text x = (shortest x m e).text := by
      simp only [text, hx]
    obtain ⟨whole, fraction, hnumeral, -⟩ := (shortest x m e).exists_numeral
    rw [htext, (shortest x m e).read?_text.1, toFloat_shortest hm hc hpack]
    exact ⟨rfl, whole, fraction, _, hnumeral, .inl rfl⟩
  | negative =>
    have hneg : -x = .ofModel (.pack (.finite .positive m e hm)) := by
      show Float.ofModel (.pack x.toModel.unpack.neg) = _
      rw [hx]
      rfl
    have hnegneg : -(-x) = x := by
      show Float.ofModel (.pack (-x).toModel.unpack.neg) = _
      rw [hneg, unpack_pack .positive hm hc, hpack]
      rfl
    have htext : text x = '-' :: (shortest (-x) m e).text := by
      simp only [text, hx]
    obtain ⟨whole, fraction, hnumeral, -⟩ := (shortest (-x) m e).exists_numeral
    rw [htext, (shortest (-x) m e).read?_text.2, toFloat_shortest hm hc hneg, hnegneg]
    exact ⟨rfl, whole, fraction, _, hnumeral, .inr rfl⟩

theorem unpack_nearest_zero (exponent : ℤ) :
    (nearest 0 exponent).toModel.unpack = .zero .positive := by
  show (Float.Model.pack (.ofScientific .binary64 0 exponent)).unpack = _
  rw [UnpackedFloat.ofScientific, dif_pos rfl]
  exact unpack_zero .positive

theorem numeral_zero : Numeral ['0'] [] ['0'] where
  ne_nil := List.cons_ne_nil _ _
  digits := by
    intro c hc
    rw [List.mem_singleton.mp hc]
    rfl
  text := rfl

/-- The text of a finite number reads as an equal number. -/
theorem exists_read?_text {x : Float} (hnan : x.isNaN = false) (hinf : x.isInf = false) :
    (∃ y, read? (text x) = some y ∧ (x == y) = true) ∧
      ∃ whole fraction cs, Numeral whole fraction cs ∧ (text x = cs ∨ text x = '-' :: cs) := by
  cases hx : x.toModel.unpack with
  | notANumber =>
    have hnan' : x.toModel.unpack.isNaN = false := hnan
    rw [hx] at hnan'
    cases hnan'
  | infinity s =>
    have hinf' : x.toModel.unpack.isInf = false := hinf
    rw [hx] at hinf'
    cases hinf'
  | zero s =>
    have htext : text x = ['0'] := by
      simp only [text, hx]
      rfl
    rw [htext]
    refine ⟨⟨_, numeral_zero.read?_eq.1, ?_⟩, _, _, _, numeral_zero, .inl rfl⟩
    show (x.toModel.unpack.compare (nearest 0 (-0)).toModel.unpack == some .eq) = true
    rw [hx, unpack_nearest_zero]
    rfl
  | finite s m e hm =>
    obtain ⟨hread, hnumeral⟩ := read?_text_of_finite hx
    exact ⟨⟨x, hread, Number.beq_self hnan⟩, hnumeral⟩

theorem read?_text_of_isInf {x : Float} (h : x.isInf = true) : read? (text x) = none := by
  have hinf : x.toModel.unpack.isInf = true := h
  cases hx : x.toModel.unpack with
  | infinity s => cases s <;> simp only [text, hx] <;> rfl
  | notANumber =>
    rw [hx] at hinf
    cases hinf
  | zero s =>
    rw [hx] at hinf
    cases hinf
  | finite s m e hm =>
    rw [hx] at hinf
    cases hinf

theorem isNaN_of_read? {cs : List Char} {x : Float} (h : read? cs = some x) :
    x.isNaN = false := by
  rw [read?] at h
  generalize splitSign cs = signed at h
  obtain ⟨negative, cs⟩ := signed
  obtain ⟨⟨whole, fraction, rest⟩, -, h⟩ := Option.bind_eq_some_iff.mp h
  obtain ⟨exponent, -, h⟩ := Option.bind_eq_some_iff.mp h
  have hsize := isNaN_nearest (ofDigits (whole ++ fraction)) (exponent - fraction.length)
  generalize nearest (ofDigits (whole ++ fraction)) (exponent - fraction.length) = size at h hsize
  cases negative with
  | true =>
    rw [← show -size = x from Option.some.inj h]
    exact isNaN_neg hsize
  | false =>
    rw [← show size = x from Option.some.inj h]
    exact hsize

theorem Numeral.mem {whole fraction cs : List Char} (h : Numeral whole fraction cs) {c : Char}
    (hc : c ∈ cs) : c.isDigit = true ∨ c = '.' := by
  rw [h.text, List.mem_append] at hc
  obtain hc | hc := hc
  · exact .inl (h.digits c (List.mem_append_left fraction hc))
  by_cases hf : fraction = []
  · rw [if_pos hf] at hc
    cases hc
  · rw [if_neg hf, List.mem_cons] at hc
    exact hc.symm.imp_left fun hc => h.digits c (List.mem_append_right whole hc)

/-- The characters of the text of a number: letters in the names of those
that no text reads as, and what a numeral is made of. -/
def isTextChar (c : Char) : Bool :=
  c.isAlphanum || c == '.' || c == '-'

theorem all_text (x : Float) : text x ≠ [] ∧ (text x).all isTextChar = true := by
  cases hx : x.toModel.unpack with
  | notANumber =>
    simp only [text, hx]
    exact ⟨List.cons_ne_nil _ _, rfl⟩
  | infinity s =>
    cases s <;> simp only [text, hx] <;> exact ⟨List.cons_ne_nil _ _, rfl⟩
  | zero s =>
    simp only [text, hx]
    exact ⟨List.cons_ne_nil _ _, rfl⟩
  | finite s m e hm =>
    obtain ⟨-, whole, fraction, cs, hnumeral, htext⟩ := read?_text_of_finite hx
    have hne : cs ≠ [] := by
      rw [hnumeral.text]
      exact List.append_ne_nil_of_left_ne_nil hnumeral.ne_nil _
    have hcs : cs.all isTextChar = true := by
      rw [List.all_eq_true]
      intro c hc
      obtain hc | rfl := hnumeral.mem hc
      · simp [isTextChar, Char.isAlphanum, hc]
      · rfl
    obtain htext | htext := htext
    · rw [htext]
      exact ⟨hne, hcs⟩
    · rw [htext, List.all_cons, hcs]
      exact ⟨List.cons_ne_nil _ _, rfl⟩

end CritterScript.Number
