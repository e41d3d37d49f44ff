import Mathlib.Data.List.Forall2

/-!
# Answers that may be refused

Readers and machines answer with a value or an error, and ask for a whole
list item by item. Such a request is granted just if each item is
(`mapM_eq_ok_iff`), and is refused for the first that is not
(`mapM_eq_error_iff`). `Alike` compares two answers, and `Alike.mapM` two
requests whose items are alike.
-/

namespace CritterScript

/-! ## The first that fails -/

section FirstFailing

variable {α β : Type} {P : α → Prop} {x y : α} {xs before : List α}

/-- `x` is the first member of a list that fails `P`, and `before` are the
members in front of it. -/
structure FirstFailing (P : α → Prop) (xs before : List α) (x : α) : Prop where
  front : before ++ [x] <+: xs
  passed : ∀ y ∈ before, P y
  failed : ¬ P x

theorem not_firstFailing_nil : ¬ FirstFailing P [] before x := by
  intro h
  have hnil := List.prefix_nil.mp h.front
  exact List.append_ne_nil_of_right_ne_nil before (List.cons_ne_nil x []) hnil

theorem firstFailing_cons_iff :
    FirstFailing P (y :: xs) before x ↔
      (before = [] ∧ x = y ∧ ¬ P y) ∨
        ∃ before', before = y :: before' ∧ P y ∧ FirstFailing P xs before' x := by
  constructor
  · rintro ⟨hfront, hpassed, hfailed⟩
    cases before with
    | nil =>
      obtain ⟨rfl, -⟩ := List.cons_prefix_cons.mp hfront
      exact .inl ⟨rfl, rfl, hfailed⟩
    | cons z before =>
      rw [List.cons_append, List.cons_prefix_cons] at hfront
      obtain ⟨rfl, hfront⟩ := hfront
      obtain ⟨hz, hpassed⟩ := List.forall_mem_cons.mp hpassed
      exact .inr ⟨before, rfl, hz, hfront, hpassed, hfailed⟩
  · rintro (⟨rfl, rfl, hfailed⟩ | ⟨before, rfl, hy, hfront, hpassed, hfailed⟩)
    · refine ⟨List.cons_prefix_cons.mpr ⟨rfl, List.nil_prefix⟩, ?_, hfailed⟩
      exact fun u hu => absurd hu List.not_mem_nil
    · refine ⟨List.cons_prefix_cons.mpr ⟨rfl, hfront⟩, ?_, hfailed⟩
      exact List.forall_mem_cons.mpr ⟨hy, hpassed⟩

/-- Behind a member that passes, the first to fail is that of the rest. -/
theorem exists_firstFailing_cons_of_passed (hy : P y) {Q : List α → α → Prop} :
    (∃ before x, FirstFailing P (y :: xs) before x ∧ Q before x) ↔
      ∃ before x, FirstFailing P xs before x ∧ Q (y :: before) x := by
  constructor
  · rintro ⟨before, x, h, hq⟩
    obtain ⟨-, -, hn⟩ | ⟨before, rfl, -, h⟩ := firstFailing_cons_iff.mp h
    · exact absurd hy hn
    · exact ⟨before, x, h, hq⟩
  · rintro ⟨before, x, h, hq⟩
    exact ⟨y :: before, x, firstFailing_cons_iff.mpr (.inr ⟨before, rfl, hy, h⟩), hq⟩

/-- A member that fails at the front of a list is the first to fail. -/
theorem exists_firstFailing_cons_of_failed (hy : ¬ P y) {Q : List α → α → Prop} :
    (∃ before x, FirstFailing P (y :: xs) before x ∧ Q before x) ↔ Q [] y := by
  constructor
  · rintro ⟨before, x, h, hq⟩
    obtain ⟨rfl, rfl, -⟩ | ⟨-, -, h, -⟩ := firstFailing_cons_iff.mp h
    · exact hq
    · exact absurd h hy
  · intro hq
    exact ⟨[], y, firstFailing_cons_iff.mpr (.inl ⟨rfl, rfl, hy⟩), hq⟩

theorem FirstFailing.mem (h : FirstFailing P xs before x) : x ∈ xs :=
  h.front.subset (List.mem_append_right before List.mem_cons_self)

/-- The first to fail stands right behind those that pass. -/
theorem FirstFailing.getElem? (h : FirstFailing P xs before x) :
    xs[before.length]? = some x ∧ ∀ k < before.length, ∀ y, xs[k]? = some y → P y := by
  obtain ⟨⟨after, rfl⟩, hpassed, -⟩ := h
  rw [List.append_assoc]
  constructor
  · rw [List.getElem?_append_right (Nat.le_refl _), Nat.sub_self]
    rfl
  · intro k hk y hy
    rw [List.getElem?_append_left hk] at hy
    exact hpassed y (List.mem_of_getElem? hy)

/-- A map that keeps passing and failing keeps the first to fail. -/
theorem FirstFailing.map {Q : β → Prop} {f : α → β} (hf : ∀ a, Q (f a) ↔ P a)
    (h : FirstFailing P xs before x) : FirstFailing Q (xs.map f) (before.map f) (f x) where
  front := by
    have hfront := h.front.map f
    rwa [List.map_append] at hfront
  passed := List.forall_mem_map.mpr fun a ha => (hf a).mpr (h.passed a ha)
  failed := fun hx => h.failed ((hf x).mp hx)

/-- A search through numbered members that stops at the first to fail. -/
theorem findSome?_zipIdx_eq_some_iff {test : α → Bool} {answer : α → Nat → β} {n : Nat} {b : β} :
    (xs.zipIdx n).findSome? (fun x => if test x.1 then none else some (answer x.1 x.2)) = some b ↔
      ∃ before x, FirstFailing (fun y => test y = true) xs before x ∧
        answer x (n + before.length) = b := by
  induction xs generalizing n with
  | nil =>
    refine iff_of_false (fun h => by cases h) ?_
    rintro ⟨before, x, h, -⟩
    exact not_firstFailing_nil h
  | cons y xs ih =>
    rw [List.zipIdx_cons, List.findSome?_cons]
    by_cases hy : test y = true
    · rw [exists_firstFailing_cons_of_passed (P := fun y => test y = true) hy, if_pos hy]
      simp only [ih, List.length_cons, Nat.add_assoc, Nat.add_comm 1]
    · rw [exists_firstFailing_cons_of_failed (P := fun y => test y = true) hy, if_neg hy]
      exact Option.some_inj

end FirstFailing

/-! ## Values and errors -/

section Except

variable {ε α β : Type}

theorem bind_eq_ok_iff {x : Except ε α} {f : α → Except ε β} {b : β} :
    x >>= f = .ok b ↔ ∃ a, x = .ok a ∧ f a = .ok b := by
  constructor
  · intro h
    cases x with
    | ok a => exact ⟨a, rfl, h⟩
    | error e => cases h
  · rintro ⟨a, rfl, h⟩
    exact h

theorem map_eq_ok_iff {x : Except ε α} {f : α → β} {b : β} :
    x.map f = .ok b ↔ ∃ a, x = .ok a ∧ f a = b := by
  cases x with
  | ok a => simp only [Except.map, Except.ok.injEq, exists_eq_left']
  | error e => simp only [Except.map, reduceCtorEq, false_and, exists_false]

theorem map_eq_error_iff {x : Except ε α} {f : α → β} {e : ε} :
    x.map f = .error e ↔ x = .error e := by
  cases x with
  | ok a => simp only [Except.map, reduceCtorEq]
  | error e' => simp only [Except.map, Except.error.injEq]

theorem mapError_eq_ok_iff {ε' : Type} {x : Except ε α} {f : ε → ε'} {a : α} :
    x.mapError f = .ok a ↔ x = .ok a := by
  cases x with
  | ok b => simp only [Except.mapError, Except.ok.injEq]
  | error e => simp only [Except.mapError, reduceCtorEq]

theorem mapError_eq_error_iff {ε' : Type} {x : Except ε α} {f : ε → ε'} {e' : ε'} :
    x.mapError f = .error e' ↔ ∃ e, x = .error e ∧ f e = e' := by
  cases x with
  | ok b => simp only [Except.mapError, reduceCtorEq, false_and, exists_false]
  | error e => simp only [Except.mapError, Except.error.injEq, exists_eq_left']

theorem mapM_cons_of_ok {f : α → Except ε β} {x : α} {y : β} (hx : f x = .ok y) (xs : List α) :
    (x :: xs).mapM f = (xs.mapM f).map (y :: ·) := by
  rw [List.mapM_cons, hx]
  cases xs.mapM f <;> rfl

theorem mapM_cons_of_error {f : α → Except ε β} {x : α} {e : ε} (hx : f x = .error e)
    (xs : List α) : (x :: xs).mapM f = .error e := by
  rw [List.mapM_cons, hx]
  rfl

/-- A list is answered just if each of its items is. -/
theorem mapM_eq_ok_iff {f : α → Except ε β} {xs : List α} {ys : List β} :
    xs.mapM f = .ok ys ↔ List.Forall₂ (fun x y => f x = .ok y) xs ys := by
  induction xs generalizing ys with
  | nil =>
    rw [List.mapM_nil, List.forall₂_nil_left_iff]
    exact ⟨fun h => (Except.ok.inj h).symm, fun h => congrArg Except.ok h.symm⟩
  | cons x xs ih =>
    rw [List.mapM_cons, bind_eq_ok_iff, List.forall₂_cons_left_iff]
    constructor
    · rintro ⟨y, hy, h⟩
      obtain ⟨ys', hys, h⟩ := bind_eq_ok_iff.mp h
      exact ⟨y, ys', hy, ih.mp hys, (Except.ok.inj h).symm⟩
    · rintro ⟨y, ys', hy, hys, rfl⟩
      exact ⟨y, hy, bind_eq_ok_iff.mpr ⟨ys', ih.mpr hys, rfl⟩⟩

/-- A list is refused for the first of its items that is. -/
theorem mapM_eq_error_iff {f : α → Except ε β} {xs : List α} {e : ε} :
    xs.mapM f = .error e ↔
      ∃ before x, FirstFailing (fun y => ∃ b, f y = .ok b) xs before x ∧ f x = .error e := by
  induction xs with
  | nil =>
    refine iff_of_false (fun h => by cases h) ?_
    rintro ⟨before, x, h, -⟩
    exact not_firstFailing_nil h
  | cons y xs ih =>
    cases hy : f y with
    | ok b =>
      rw [exists_firstFailing_cons_of_passed (P := fun y => ∃ b, f y = .ok b) ⟨b, hy⟩, ← ih,
        mapM_cons_of_ok hy]
      exact map_eq_error_iff
    | error e' =>
      have hfail : ¬ ∃ b, f y = .ok b := by
        rintro ⟨b, hb⟩
        rw [hy] at hb
        cases hb
      rw [exists_firstFailing_cons_of_failed (P := fun y => ∃ b, f y = .ok b) hfail,
        mapM_cons_of_error hy, hy, Except.error.injEq, Except.error.injEq]

/-- If one of two properties holds, of a value or of an error, and each says
what the answer is, then the answer is what they say. -/
theorem eq_iff_of_covered {x : Except ε α} {W : α → Prop} {S : ε → Prop}
    (hw : ∀ a, W a → x = .ok a) (hs : ∀ e, S e → x = .error e) (h : (∃ a, W a) ∨ ∃ e, S e) :
    (∀ a, x = .ok a ↔ W a) ∧ ∀ e, x = .error e ↔ S e := by
  obtain ⟨a, ha⟩ | ⟨e, he⟩ := h
  · have hx := hw a ha
    refine ⟨fun b => ⟨fun hb => ?_, hw b⟩, fun e => ⟨fun he => ?_, hs e⟩⟩
    · rw [hx] at hb
      cases hb
      exact ha
    · rw [hx] at he
      cases he
  · have hx := hs e he
    refine ⟨fun b => ⟨fun hb => ?_, hw b⟩, fun e' => ⟨fun he' => ?_, hs e'⟩⟩
    · rw [hx] at hb
      cases hb
    · rw [hx] at he'
      cases he'
      exact he

theorem getElem?_zipIdx_of_getElem? {xs : List α} {k : Nat} {x : α} (h : xs[k]? = some x) :
    xs.zipIdx[k]? = some (x, k) := by
  rw [List.getElem?_zipIdx, h, Option.map_some, Nat.zero_add]

theorem exists_getElem?_of_forall₂ {R : α → β → Prop} {xs : List α} {ys : List β}
    (h : List.Forall₂ R xs ys) {k : Nat} {x : α} (hx : xs[k]? = some x) :
    ∃ y, ys[k]? = some y ∧ R x y := by
  obtain ⟨hk, rfl⟩ := List.getElem?_eq_some_iff.mp hx
  have hk' : k < ys.length := h.length_eq ▸ hk
  exact ⟨ys[k], List.getElem?_eq_getElem hk', h.get hk hk'⟩

theorem exists_of_mem_forall₂ {R : α → β → Prop} {xs : List α} {ys : List β}
    (h : List.Forall₂ R xs ys) {y : β} (hy : y ∈ ys) : ∃ x ∈ xs, R x y := by
  induction h with
  | nil => cases hy
  | @cons x z xs ys hxz _ ih =>
    obtain rfl | hy := List.mem_cons.mp hy
    · exact ⟨x, List.mem_cons_self, hxz⟩
    · obtain ⟨x', hx', hR⟩ := ih hy
      exact ⟨x', List.mem_cons_of_mem x hx', hR⟩

theorem exists_forall₂ {R : α → β → Prop} {xs : List α} (h : ∀ x ∈ xs, ∃ y, R x y) :
    ∃ ys, List.Forall₂ R xs ys := by
  induction xs with
  | nil => exact ⟨[], .nil⟩
  | cons x xs ih =>
    obtain ⟨y, hy⟩ := h x List.mem_cons_self
    obtain ⟨ys, hys⟩ := ih fun z hz => h z (List.mem_cons_of_mem x hz)
    exact ⟨y :: ys, .cons hy hys⟩

end Except

/-! ## Two answers -/

section Alike

variable {ε ε' α α' β β' : Type} {E : ε → ε' → Prop} {A : α → α' → Prop}

/-- Both answers are given, and related by `A`, or both are refused, for
reasons related by `E`. -/
inductive Alike (E : ε → ε' → Prop) (A : α → α' → Prop) : Except ε α → Except ε' α' → Prop
  | ok {a : α} {a' : α'} : A a a' → Alike E A (.ok a) (.ok a')
  | error {e : ε} {e' : ε'} : E e e' → Alike E A (.error e) (.error e')

theorem Alike.imp {D : ε → ε' → Prop} {B : α → α' → Prop} {x : Except ε α} {x' : Except ε' α'}
    (h : Alike E A x x') (he : ∀ e e', E e e' → D e e') (ha : ∀ a a', A a a' → B a a') :
    Alike D B x x' := by
  cases h with
  | ok h => exact .ok (ha _ _ h)
  | error h => exact .error (he _ _ h)

theorem Alike.map {B : β → β' → Prop} {f : α → β} {f' : α' → β'} {x : Except ε α}
    {x' : Except ε' α'} (h : Alike E A x x') (hf : ∀ a a', A a a' → B (f a) (f' a')) :
    Alike E B (x.map f) (x'.map f') := by
  cases h with
  | ok ha => exact .ok (hf _ _ ha)
  | error he => exact .error he

theorem Alike.mapM {f : β → Except ε α} {f' : β' → Except ε' α'} {xs : List β} {xs' : List β'}
    (h : List.Forall₂ (fun x x' => Alike E A (f x) (f' x')) xs xs') :
    Alike E (List.Forall₂ A) (xs.mapM f) (xs'.mapM f') := by
  induction h with
  | nil => exact .ok .nil
  | @cons x x' xs xs' hx _ ih =>
    generalize hy : f x = y at hx
    generalize hy' : f' x' = y' at hx
    cases hx with
    | error he =>
      rw [mapM_cons_of_error hy, mapM_cons_of_error hy']
      exact .error he
    | ok ha =>
      rw [mapM_cons_of_ok hy, mapM_cons_of_ok hy']
      exact ih.map fun _ _ has => .cons ha has

end Alike

end CritterScript
