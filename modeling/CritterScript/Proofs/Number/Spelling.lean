import CritterScript.Proofs.Number.ReadBack
import Mathlib

/-!
# How numbers are spelled

The grammar of numbers (`NumberText`): a sign, then digits with a point among
them, then an exponent, of which the sign and the exponent may be missing. A
text reads as a number just if it is spelled like that, and as the number that
it spells (`read?_eq_some_iff`).
-/

namespace CritterScript.Number

/-! ## The grammar -/

/-- One digit or more. -/
structure DigitText (cs : List Char) : Prop where
  ne_nil : cs ≠ []
  digits : ∀ c ∈ cs, c.isDigit = true

/-- A sign or none, and whether it is a minus. -/
inductive SignText : List Char → Bool → Prop
  | absent : SignText [] false
  | plus : SignText ['+'] false
  | minus : SignText ['-'] true

/-- Digits and perhaps a point, and which of the digits are in front of the point
and which behind it. -/
inductive SignificandText : List Char → List Char → List Char → Prop
  | whole {ds : List Char} : DigitText ds → SignificandText ds ds []
  | point {ds es : List Char} : DigitText ds → (∀ c ∈ es, c.isDigit = true) →
    SignificandText (ds ++ '.' :: es) ds es
  | fraction {es : List Char} : DigitText es → SignificandText ('.' :: es) [] es

/-- A power of ten or none, and its exponent. -/
inductive ExponentText : List Char → ℤ → Prop
  | absent : ExponentText [] 0
  | present {mark : Char} {sign ds : List Char} {negative : Bool} :
    mark = 'e' ∨ mark = 'E' → SignText sign negative → DigitText ds →
    ExponentText (mark :: (sign ++ ds)) (if negative then -(ofDigits ds : ℤ) else ofDigits ds)

/-- A number, and the binary number nearest to what it spells. -/
inductive NumberText : List Char → Float → Prop
  | mk {sign significand power whole fraction : List Char} {negative : Bool} {exponent : ℤ}
    {size : Float} :
    SignText sign negative → SignificandText significand whole fraction →
    ExponentText power exponent →
    size = nearest (ofDigits (whole ++ fraction)) (exponent - fraction.length) →
    NumberText (sign ++ significand ++ power) (if negative then -size else size)

/-! ## What is spelled reads -/

section Spelled

variable {sign significand power whole fraction rest : List Char} {negative : Bool} {exponent : ℤ}

theorem DigitText.head? {ds : List Char} (h : DigitText ds) (rest : List Char) :
    ∀ c ∈ (ds ++ rest).head?, c.isDigit = true := by
  intro c hc
  rw [List.head?_append_of_ne_nil ds h.ne_nil] at hc
  exact h.digits c (List.mem_of_head? hc)

theorem SignText.splitSign_eq (h : SignText sign negative)
    (hrest : ∀ c ∈ rest.head?, c ≠ '+' ∧ c ≠ '-') :
    splitSign (sign ++ rest) = (negative, rest) := by
  cases h with
  | absent =>
    refine splitSign.eq_3 rest ?_ ?_
    · rintro cs rfl
      exact (hrest '+' rfl).1 rfl
    · rintro cs rfl
      exact (hrest '-' rfl).2 rfl
  | plus => rfl
  | minus => rfl

theorem ne_sign_of_isDigit {c : Char} (h : c.isDigit = true) : c ≠ '+' ∧ c ≠ '-' := by
  constructor
  · rintro rfl
    cases h
  · rintro rfl
    cases h

/-- The significand starts with a digit or a point. -/
theorem SignificandText.head? (h : SignificandText significand whole fraction) (rest : List Char) :
    ∀ c ∈ (significand ++ rest).head?, c ≠ '+' ∧ c ≠ '-' := by
  intro c hc
  cases h with
  | whole hds => exact ne_sign_of_isDigit (hds.head? rest c hc)
  | point hds hes =>
    rw [List.append_assoc] at hc
    exact ne_sign_of_isDigit (hds.head? _ c hc)
  | fraction hes =>
    cases hc
    decide

/-- What follows the significand starts with a letter. -/
theorem ExponentText.head? (h : ExponentText power exponent) :
    ∀ c ∈ power.head?, c.isDigit = false ∧ c ≠ '.' := by
  intro c hc
  cases h with
  | absent => cases hc
  | present hmark hsign hds =>
    cases hc
    obtain rfl | rfl := hmark
    · decide
    · decide

theorem SignificandText.splitSignificand?_eq (h : SignificandText significand whole fraction)
    (hrest : ∀ c ∈ rest.head?, c.isDigit = false ∧ c ≠ '.') :
    splitSignificand? (significand ++ rest) = some (whole, fraction, rest) := by
  have hend : ∀ c ∈ rest.head?, c.isDigit = false := fun c hc => (hrest c hc).1
  have hpoint : ∀ {cs : List Char}, ∀ c ∈ ('.' :: cs).head?, c.isDigit = false := by
    intro cs c hc
    cases hc
    rfl
  cases h with
  | @whole ds hds =>
    obtain ⟨d, ds, rfl⟩ := List.exists_cons_of_ne_nil hds.ne_nil
    rw [splitSignificand?, splitDigits_append hds.digits hend]
    cases rest with
    | nil => rfl
    | cons c rest =>
      have hc := (hrest c rfl).2
      simp [hc]
  | point hds hes =>
    obtain ⟨d, ds, rfl⟩ := List.exists_cons_of_ne_nil hds.ne_nil
    have hsplit : splitDigits (d :: ds ++ ('.' :: fraction ++ rest)) =
        (d :: ds, '.' :: (fraction ++ rest)) := splitDigits_append hds.digits hpoint
    rw [splitSignificand?, List.append_assoc, hsplit]
    simp only [splitDigits_append hes hend]
  | @fraction es hes =>
    obtain ⟨e, es, rfl⟩ := List.exists_cons_of_ne_nil hes.ne_nil
    have hsplit : splitDigits ('.' :: (e :: es) ++ rest) = ([], '.' :: (e :: es ++ rest)) :=
      @splitDigits_append [] _ (fun c hc => by cases hc) hpoint
    rw [splitSignificand?, hsplit]
    simp only [splitDigits_append hes.digits hend]

theorem ExponentText.readExponent?_eq (h : ExponentText power exponent) :
    readExponent? power = some exponent := by
  cases h with
  | absent => rfl
  | @present mark sign ds negative hmark hsign hds =>
    have hstart : ∀ c ∈ ds.head?, c ≠ '+' ∧ c ≠ '-' :=
      fun c hc => ne_sign_of_isDigit (hds.digits c (List.mem_of_head? hc))
    have hsplit := @splitDigits_append ds [] hds.digits (fun c hc => by cases hc)
    rw [List.append_nil] at hsplit
    obtain ⟨d, ds, rfl⟩ := List.exists_cons_of_ne_nil hds.ne_nil
    have hmark : (decide (mark = 'e') || decide (mark = 'E')) = true := by simpa using hmark
    simp only [readExponent?, hmark, if_true, hsign.splitSign_eq hstart, hsplit]

theorem NumberText.read?_eq {cs : List Char} {x : Float} (h : NumberText cs x) :
    read? cs = some x := by
  obtain ⟨hsign, hsignificand, hpower, rfl⟩ := h
  simp only [read?, List.append_assoc, hsign.splitSign_eq (hsignificand.head? _),
    hsignificand.splitSignificand?_eq hpower.head?, hpower.readExponent?_eq, Option.bind_eq_bind,
    Option.bind_some, Option.pure_def]

end Spelled

/-! ## What reads is spelled -/

section Read

variable {cs rest whole fraction : List Char}

theorem exists_signText (cs : List Char) :
    ∃ sign, cs = sign ++ (splitSign cs).2 ∧ SignText sign (splitSign cs).1 := by
  rw [splitSign.eq_def]
  split
  · exact ⟨['+'], rfl, .plus⟩
  · exact ⟨['-'], rfl, .minus⟩
  · exact ⟨[], rfl, .absent⟩

theorem eq_append_of_splitDigits {ds : List Char} (h : splitDigits cs = (ds, rest)) :
    cs = ds ++ rest ∧ ∀ c ∈ ds, c.isDigit = true := by
  cases h
  exact ⟨List.takeWhile_append_dropWhile.symm, fun c => List.mem_takeWhile_imp⟩

theorem exists_significandText (h : splitSignificand? cs = some (whole, fraction, rest)) :
    ∃ significand, cs = significand ++ rest ∧ SignificandText significand whole fraction := by
  rw [splitSignificand?] at h
  -- the digits in front of the point may be missing, or the point, but not both
  split at h
  · next back hback =>
    obtain ⟨rfl, -⟩ := eq_append_of_splitDigits hback
    split at h
    · cases h
    · next hne hsplit =>
      obtain ⟨rfl, hdigits⟩ := eq_append_of_splitDigits hsplit
      cases h
      exact ⟨_, rfl, .fraction ⟨hne, hdigits⟩⟩
  · cases h
  · next hne hback =>
    obtain ⟨rfl, hwhole⟩ := eq_append_of_splitDigits hback
    split at h
    next hsplit =>
    obtain ⟨rfl, hfraction⟩ := eq_append_of_splitDigits hsplit
    cases h
    refine ⟨_, ?_, .point ⟨hne, hwhole⟩ hfraction⟩
    rw [List.append_assoc, List.cons_append]
  · next hne _ hsplit =>
    obtain ⟨rfl, hwhole⟩ := eq_append_of_splitDigits hsplit
    cases h
    exact ⟨_, rfl, .whole ⟨hne, hwhole⟩⟩

theorem exponentText_of_readExponent? {exponent : ℤ} (h : readExponent? cs = some exponent) :
    ExponentText cs exponent := by
  cases cs with
  | nil =>
    cases h
    exact .absent
  | cons mark cs =>
    rw [readExponent?] at h
    split at h
    · next hmark =>
      obtain ⟨sign, hcs, hsign⟩ := exists_signText cs
      generalize splitSign cs = signed at h hcs hsign
      obtain ⟨negative, ds⟩ := signed
      subst hcs
      dsimp only at h
      split at h
      · cases h
      · next hne hsplit =>
        obtain ⟨rfl, hdigits⟩ := eq_append_of_splitDigits hsplit
        cases h
        rw [List.append_nil]
        exact .present (by simpa using hmark) hsign ⟨hne, hdigits⟩
      · cases h
    · cases h

theorem numberText_of_read? {x : Float} (h : read? cs = some x) : NumberText cs x := by
  obtain ⟨sign, hcs, hsign⟩ := exists_signText cs
  rw [read?] at h
  generalize splitSign cs = signed at h hcs hsign
  obtain ⟨negative, back⟩ := signed
  obtain ⟨⟨whole, fraction, rest⟩, hsplit, h⟩ := Option.bind_eq_some_iff.mp h
  obtain ⟨exponent, hexponent, h⟩ := Option.bind_eq_some_iff.mp h
  obtain ⟨significand, hrest, hsignificand⟩ := exists_significandText hsplit
  rw [hcs, show back = _ from hrest, ← List.append_assoc, ← Option.some.inj h]
  exact .mk hsign hsignificand (exponentText_of_readExponent? hexponent) rfl

/-- A text reads as a number just if it spells that number. -/
theorem read?_eq_some_iff {x : Float} : read? cs = some x ↔ NumberText cs x :=
  ⟨numberText_of_read?, NumberText.read?_eq⟩

theorem read?_eq_none_iff : read? cs = none ↔ ∀ x, ¬ NumberText cs x := by
  rw [Option.eq_none_iff_forall_ne_some]
  exact forall_congr' fun x => not_congr read?_eq_some_iff

end Read

/-! ## Characters of a number -/

/-- The character may stand in a number. -/
def isNumberChar (c : Char) : Bool :=
  c.isDigit || c == '+' || c == '-' || c == '.' || c == 'e' || c == 'E'

theorem isNumberChar_of_isDigit {c : Char} (h : c.isDigit = true) : isNumberChar c = true := by
  simp [isNumberChar, h]

theorem SignText.all {cs : List Char} {negative : Bool} (h : SignText cs negative) :
    cs.all isNumberChar = true := by
  cases h <;> rfl

theorem DigitText.all {cs : List Char} (h : DigitText cs) : cs.all isNumberChar = true := by
  rw [List.all_eq_true]
  exact fun c hc => isNumberChar_of_isDigit (h.digits c hc)

theorem NumberText.all {cs : List Char} {x : Float} (h : NumberText cs x) :
    cs.all isNumberChar = true := by
  obtain ⟨hsign, hsignificand, hpower, -⟩ := h
  rw [List.all_append, List.all_append, hsign.all, Bool.true_and, Bool.and_eq_true]
  constructor
  · cases hsignificand with
    | whole hds => exact hds.all
    | point hds hes =>
      rw [List.all_append, hds.all, Bool.true_and, List.all_cons, List.all_eq_true.mpr]
      · rfl
      · exact fun c hc => isNumberChar_of_isDigit (hes c hc)
    | fraction hes => exact hes.all
  · cases hpower with
    | absent => rfl
    | present hmark hsign hds =>
      rw [List.all_cons, List.all_append, hsign.all, hds.all]
      obtain rfl | rfl := hmark
      · rfl
      · rfl

theorem DigitText.getLast? {cs : List Char} (h : DigitText cs) (front : List Char) :
    ∀ c ∈ (front ++ cs).getLast?, c.isDigit = true := by
  intro c hc
  rw [List.getLast?_append_of_ne_nil front h.ne_nil] at hc
  exact h.digits c (List.mem_of_getLast? hc)

/-- A number ends with a digit or a point. -/
theorem NumberText.getLast? {cs : List Char} {x : Float} (h : NumberText cs x) :
    ∀ c ∈ cs.getLast?, c.isDigit = true ∨ c = '.' := by
  intro c hc
  obtain @⟨sign, significand, power, whole, fraction, negative, exponent, size, hsign,
    hsignificand, hpower, -⟩ := h
  cases hpower with
  | absent =>
    rw [List.append_nil] at hc
    cases hsignificand with
    | whole hds => exact .inl (hds.getLast? sign c hc)
    | point hds hes =>
      by_cases hnil : fraction = []
      · subst hnil
        rw [← List.append_assoc, List.getLast?_concat] at hc
        exact .inr (Option.some.inj hc).symm
      · rw [← List.append_assoc, List.append_cons] at hc
        exact .inl (DigitText.getLast? ⟨hnil, hes⟩ _ c hc)
    | fraction hes =>
      rw [List.append_cons] at hc
      exact .inl (hes.getLast? _ c hc)
  | present hmark hsign hds =>
    rw [List.append_cons, ← List.append_assoc] at hc
    exact .inl (hds.getLast? _ c hc)

end CritterScript.Number
