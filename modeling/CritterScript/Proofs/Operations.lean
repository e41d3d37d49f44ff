import CritterScript.Proofs.Answers
import CritterScript.Proofs.Atomicity
import Mathlib

/-!
# What an opcode makes of two values

Seven opcodes compute a value from two others. What they compute depends on
nothing else: neither on how the operands are written, nor on the rest of the
machine, nor on which register receives the result, which may be one that was
read. `Opcode.Gives` says this once for all machines, and `gives_iff` that it is
decided by a function on values (`Opcode.compute?`).

With that, arithmetic on arrays is arithmetic on their items, taken one by one
(`arithmetic_itemwise`).
-/

namespace CritterScript

/-- The instruction applies an opcode to two values, as the registers stand, and
has a register for the result. -/
structure Instruction.Applies (i : Instruction) (r : Registers) (op : Opcode)
    (left right : Value) (name : String) : Prop where
  opcode : i.opcode = op
  left : i.value r 0 = .ok left
  right : i.value r 1 = .ok right
  target : i.target 2 = .ok name

/-- What a machine does with an answer: it puts the value into a register and
moves on, or it stays as it is and faults. -/
def Machine.settle {ρ : Type} (s : Machine ρ) (name : String) :
    Except Cause Value → Machine ρ × Option Cause
  | .ok v => ({ s with position := s.position + 1, registers := s.registers.set name v }, none)
  | .error c => (s, some c)

/-- On these two values the opcode has this answer, in every program, for every
machine and however the instruction is written. -/
def Opcode.Gives (op : Opcode) (left right : Value) (answer : Except Cause Value) : Prop :=
  ∀ {ρ : Type} [Sampler ρ] (p : Program) (s : Machine ρ) (i : Instruction) (name : String),
    i.Applies s.registers op left right name → s.step p i = s.settle name answer

/-! ## One function for each opcode -/

/-- The operator of an opcode, if it does arithmetic. -/
def Opcode.operator? : Opcode → Option (Float → Float → Float)
  | .add => some (· + ·)
  | .sub => some (· - ·)
  | .mul => some (· * ·)
  | .div => some (· / ·)
  | .mod => some Number.remainder
  | _ => none

/-- Appends what one value contributes to what another does. -/
def Value.append (left right : Value) : Except Cause Value := do
  let front ← left.items
  let back ← right.items
  return .array (front ++ back)

/-- What an opcode computes from two values, if it stores a value that depends
on two. -/
def Opcode.compute? : Opcode → Option (Value → Value → Except Cause Value)
  | .push => some Value.append
  | .get => some Value.item
  | op => op.operator?.map (Value.combine op)

section Compute

variable {op : Opcode} {f : Value → Value → Except Cause Value} {left right : Value}
  {name : String} {i : Instruction}

theorem Instruction.Applies.effect_eq {r : Registers} (h : i.Applies r op left right name)
    (hf : op.compute? = some f) (p : Program) (sample : Float) :
    i.effect p r sample = (f left right).map (.store name ·) := by
  obtain ⟨rfl, hleft, hright, htarget⟩ := h
  have hstore : ∀ v, i.storeAt 2 v = .ok (.store name v) := fun v => by
    rw [storeAt, htarget]
    rfl
  have harithmetic : ∀ g, i.arithmetic r g =
      (Value.combine i.opcode g left right).map (.store name ·) := by
    intro g
    rw [arithmetic, hleft, hright]
    show (Value.combine i.opcode g left right >>= fun v => i.storeAt 2 v) = _
    cases Value.combine i.opcode g left right with
    | ok v => exact hstore v
    | error c => rfl
  rw [effect]
  cases hop : i.opcode with
  | add | sub | mul | div | mod =>
    rw [hop] at hf
    cases hf
    simp only
    rw [harithmetic, hop]
  | push =>
    rw [hop] at hf
    cases hf
    rw [hleft, hright, Value.append]
    show (left.items >>= fun front => right.items >>= fun back =>
      i.storeAt 2 (.array (front ++ back))) = _
    cases left.items with
    | error c => rfl
    | ok front =>
      cases right.items with
      | error c => rfl
      | ok back => exact hstore _
  | get =>
    rw [hop] at hf
    cases hf
    rw [hleft, hright]
    show (left.item right >>= fun v => i.storeAt 2 v) = _
    cases left.item right with
    | error c => rfl
    | ok v => exact hstore v
  | _ =>
    rw [hop] at hf
    cases hf

theorem Instruction.Applies.step_eq {ρ : Type} [Sampler ρ] {s : Machine ρ}
    (h : i.Applies s.registers op left right name) (hf : op.compute? = some f) (p : Program) :
    s.step p i = s.settle name (f left right) := by
  have hdraw : s.draw i = (0, s.random) := by
    refine if_neg fun hrand => ?_
    rw [← h.opcode, hrand] at hf
    cases hf
  rw [Machine.step_eq, hdraw]
  simp only [h.effect_eq hf]
  cases f left right <;> rfl

theorem Machine.settle_injective {ρ : Type} (s : Machine ρ) (name : String)
    {x y : Except Cause Value} (h : s.settle name x = s.settle name y) : x = y := by
  cases x with
  | ok v =>
    cases y with
    | ok w =>
      have hset : (s.registers.set name v).get name = (s.registers.set name w).get name := by
        injection h with h
        injection h with _ h
        rw [h]
      rw [Registers.get_set_self, Registers.get_set_self] at hset
      rw [hset]
    | error c => cases congrArg Prod.snd h
  | error c =>
    cases y with
    | ok w => cases congrArg Prod.snd h
    | error d => rw [Option.some.inj (congrArg Prod.snd h)]

theorem gives_iff (hf : op.compute? = some f) {answer : Except Cause Value} :
    op.Gives left right answer ↔ f left right = answer := by
  constructor
  · intro h
    let s : Machine SplitMix := ⟨0, ∅, ∅, .ofSeed 0⟩
    let i : Instruction := ⟨op, [.literal left, .literal right, .register "$"], 0⟩
    have hi : i.Applies s.registers op left right "$" := ⟨rfl, rfl, rfl, rfl⟩
    exact s.settle_injective "$" ((hi.step_eq hf .empty).symm.trans (h .empty s i "$" hi))
  · rintro rfl ρ _ p s i name hi
    exact hi.step_eq hf p

end Compute

/-! ## Items -/

namespace Value

theorem item_eq_ok_iff {xs : List Float} {index w : Value} :
    (array xs).item index = .ok w ↔ ∃ x n y, index = .number x ∧ Number.natural? x = some n ∧
      xs[n]? = some y ∧ w = .number y := by
  cases index with
  | number x =>
    rw [item]
    constructor
    · intro h
      cases hy : (Number.natural? x).bind (xs[·]?) with
      | none =>
        rw [hy] at h
        cases h
      | some y =>
        rw [hy] at h
        obtain ⟨n, hn, hget⟩ := Option.bind_eq_some_iff.mp hy
        exact ⟨x, n, y, rfl, hn, hget, (Except.ok.inj h).symm⟩
    · rintro ⟨_, n, y, hx, hn, hget, rfl⟩
      cases hx
      rw [hn, Option.bind_some, hget]
  | _ => simp [item]

/-- What is wrong with an index depends on the length of the array only. -/
theorem item_eq_error_iff_of_length_eq {xs ys : List Float} (h : xs.length = ys.length)
    (index : Value) (c : Cause) :
    (array xs).item index = .error c ↔ (array ys).item index = .error c := by
  cases index with
  | number x =>
    simp only [item]
    cases Number.natural? x with
    | none => rfl
    | some n =>
      rw [Option.bind_some, Option.bind_some]
      by_cases hn : n < xs.length
      · rw [List.getElem?_eq_getElem hn, List.getElem?_eq_getElem (h ▸ hn)]
        exact iff_of_false (fun h => by cases h) (fun h => by cases h)
      · rw [List.getElem?_eq_none (by omega), List.getElem?_eq_none (by omega)]
  | _ => rfl

end Value

/-! ## Arithmetic -/

/-- Two numbers, or two arrays of one length. -/
inductive Value.SameShape : Value → Value → Prop
  | number (x y : Float) : SameShape (.number x) (.number y)
  | array {xs ys : List Float} : xs.length = ys.length → SameShape (.array xs) (.array ys)

namespace Value

theorem combine_of_not_sameShape {left right : Value} (h : ¬ left.SameShape right) (op : Opcode)
    (f : Float → Float → Float) :
    combine op f left right = .error (.typeMismatch op left right) := by
  cases left with
  | number x =>
    cases right with
    | number y => exact absurd (.number x y) h
    | _ => rfl
  | array xs =>
    cases right with
    | array ys => exact if_neg fun hlength => h (.array hlength)
    | _ => rfl
  | _ => rfl

theorem combine_array (op : Opcode) (f : Float → Float → Float) {xs ys : List Float}
    (h : xs.length = ys.length) :
    combine op f (array xs) (array ys) = .ok (array (xs.zipWith f ys)) :=
  if_pos h

theorem SameShape.exists_combine {left right : Value} (h : left.SameShape right) (op : Opcode)
    (f : Float → Float → Float) : ∃ v, combine op f left right = .ok v := by
  cases h with
  | number x y => exact ⟨_, rfl⟩
  | array hlength => exact ⟨_, combine_array op f hlength⟩

/-- An item of the result is the result for the two items. -/
theorem item_zipWith_eq_ok_iff (op : Opcode) (f : Float → Float → Float) {xs ys : List Float}
    {index w : Value} :
    (array (xs.zipWith f ys)).item index = .ok w ↔
      ∃ u v, (array xs).item index = .ok u ∧ (array ys).item index = .ok v ∧
        combine op f u v = .ok w := by
  simp only [item_eq_ok_iff, List.getElem?_zipWith_eq_some]
  constructor
  · rintro ⟨x, n, _, rfl, hn, ⟨y, z, hy, hz, rfl⟩, rfl⟩
    exact ⟨.number y, .number z, ⟨x, n, y, rfl, hn, hy, rfl⟩, ⟨x, n, z, rfl, hn, hz, rfl⟩, rfl⟩
  · rintro ⟨_, _, ⟨x, n, y, rfl, hn, hy, rfl⟩, ⟨_, n', z, hx, hn', hz, rfl⟩, hw⟩
    cases hx
    obtain rfl : n = n' := Option.some.inj (hn.symm.trans hn')
    cases hw
    exact ⟨x, n, f y z, rfl, hn, ⟨y, z, hy, hz, rfl⟩, rfl⟩

end Value

namespace Opcode

variable {op : Opcode} {f : Float → Float → Float}

theorem compute?_of_operator (h : op.operator? = some f) :
    op.compute? = some (Value.combine op f) := by
  cases op <;> cases h <;> rfl

theorem exists_gives_iff_sameShape (h : op.operator? = some f) (a b : Value) :
    (∃ v, op.Gives a b (.ok v)) ↔ a.SameShape b := by
  simp only [gives_iff (compute?_of_operator h)]
  refine ⟨?_, fun hshape => hshape.exists_combine op f⟩
  rintro ⟨v, hv⟩
  by_contra hshape
  rw [Value.combine_of_not_sameShape hshape] at hv
  cases hv

/-- The result for two arrays has the length of both, and so the same good
indices; its items are the results for theirs. -/
theorem gives_get_iff (h : op.operator? = some f) {xs ys : List Float} {v : Value}
    (hv : op.Gives (.array xs) (.array ys) (.ok v)) :
    (∃ zs, v = .array zs ∧ zs.length = xs.length ∧ zs.length = ys.length) ∧
      ∀ index : Value,
        (∀ w, get.Gives v index (.ok w) ↔
          ∃ x y, get.Gives (.array xs) index (.ok x) ∧ get.Gives (.array ys) index (.ok y) ∧
            op.Gives x y (.ok w)) ∧
        ∀ c, (get.Gives v index (.error c) ↔ get.Gives (.array xs) index (.error c)) ∧
          (get.Gives v index (.error c) ↔ get.Gives (.array ys) index (.error c)) := by
  have hcompute := compute?_of_operator h
  have hget : get.compute? = some Value.item := rfl
  have hlength : xs.length = ys.length := by
    cases (exists_gives_iff_sameShape h _ _).mp ⟨v, hv⟩ with
    | array hlength => exact hlength
  have hzip : (xs.zipWith f ys).length = xs.length := by
    rw [List.length_zipWith, hlength, Nat.min_self]
  rw [gives_iff hcompute, Value.combine_array op f hlength] at hv
  cases hv
  simp only [gives_iff hcompute, gives_iff hget]
  refine ⟨⟨_, rfl, hzip, hzip.trans hlength⟩, fun index => ⟨fun w => ?_, fun c => ⟨?_, ?_⟩⟩⟩
  · exact Value.item_zipWith_eq_ok_iff op f
  · exact Value.item_eq_error_iff_of_length_eq hzip index c
  · exact Value.item_eq_error_iff_of_length_eq (hzip.trans hlength) index c

end Opcode

/-- Arithmetic goes item by item and never stretches a number over an array.
It has a result just for two numbers and for two arrays of one length, whatever
the numbers in them, and otherwise the fault shows the opcode and both values.
The result for two arrays is as long as they are, and an item of it is the
result for the two items at that index; an index that is bad for one of the
three arrays is bad for all, and for the same reason. So it is for any three
registers, even if the one that receives the result is among those that are
read. -/
theorem arithmetic_itemwise {op : Opcode} {f : Float → Float → Float}
    (hop : op.operator? = some f) :
    (∀ a b, ((∃ v, op.Gives a b (.ok v)) ↔ a.SameShape b) ∧
      (¬ a.SameShape b → op.Gives a b (.error (.typeMismatch op a b)))) ∧
    (∀ x y, op.Gives (.number x) (.number y) (.ok (.number (f x y)))) ∧
    (∀ xs ys v, op.Gives (.array xs) (.array ys) (.ok v) →
      (∃ zs, v = .array zs ∧ zs.length = xs.length ∧ zs.length = ys.length) ∧
      ∀ index : Value,
        (∀ w, Opcode.get.Gives v index (.ok w) ↔
          ∃ x y, Opcode.get.Gives (.array xs) index (.ok x) ∧
            Opcode.get.Gives (.array ys) index (.ok y) ∧ op.Gives x y (.ok w)) ∧
        ∀ c, (Opcode.get.Gives v index (.error c) ↔
            Opcode.get.Gives (.array xs) index (.error c)) ∧
          (Opcode.get.Gives v index (.error c) ↔
            Opcode.get.Gives (.array ys) index (.error c))) ∧
    ∀ {ρ : Type} [Sampler ρ] (p : Program) (s : Machine ρ) (left right name : String)
      (line : Nat) (answer : Except Cause Value),
      op.Gives (s.registers.get left) (s.registers.get right) answer →
        s.step p ⟨op, [.register left, .register right, .register name], line⟩ =
          s.settle name answer := by
  have hcompute := Opcode.compute?_of_operator hop
  refine ⟨fun a b => ⟨Opcode.exists_gives_iff_sameShape hop a b, fun hshape => ?_⟩, fun x y => ?_,
    fun xs ys v hv => Opcode.gives_get_iff hop hv, ?_⟩
  · exact (gives_iff hcompute).mpr (Value.combine_of_not_sameShape hshape op f)
  · exact (gives_iff hcompute).mpr rfl
  · intro ρ _ p s left right name line answer hgives
    exact hgives p s _ name ⟨rfl, rfl, rfl, rfl⟩

/-- Arrays with a zero among the divisors, divided onto the first of them. -/
theorem arithmetic_itemwise_onto_source :
    let r := ((∅ : Registers).set "$b" (.array [4, 0])).set "$a" (.array [1, 0])
    let s : Machine SplitMix := ⟨0, r, ∅, .ofSeed 7⟩
    let i : Instruction := ⟨.div, [.register "$a", .register "$b", .register "$a"], 0⟩
    Opcode.div.operator? = some (· / ·) ∧
      ∃ v, s.step .empty i = ({ s with position := 1, registers := r.set "$a" v }, none) ∧
        Opcode.get.Gives v (.number 0) (.ok (.number (1 / 4))) ∧
        Opcode.get.Gives v (.number 2) (.error (.indexOutOfBounds 2)) := by
  intro r s i
  have hleft : r.get "$a" = .array [1, 0] := Registers.get_set_self _ _ _
  have hright : r.get "$b" = .array [4, 0] := by
    rw [Registers.get, Registers.get?_set, if_neg (by decide), Registers.get?_set_self,
      Option.getD_some]
  obtain ⟨hshape, hnumbers, hitems, hregisters⟩ := @arithmetic_itemwise .div (· / ·) rfl
  obtain ⟨v, hv⟩ := (hshape (.array [1, 0]) (.array [4, 0])).1.mpr (.array (by simp))
  obtain ⟨-, hindex⟩ := hitems _ _ v hv
  have hget : ∀ {xs x answer}, Value.item (.array xs) (.number x) = answer →
      Opcode.get.Gives (.array xs) (.number x) answer := fun h => (gives_iff rfl).mpr h
  have hfirst : Opcode.get.Gives (.array [1, 0]) (.number 0) (.ok (.number 1)) :=
    hget (by decide +kernel)
  have hsecond : Opcode.get.Gives (.array [4, 0]) (.number 0) (.ok (.number 4)) :=
    hget (by decide +kernel)
  have hbeyond : Opcode.get.Gives (.array [1, 0]) (.number 2) (.error (.indexOutOfBounds 2)) :=
    hget (by decide +kernel)
  refine ⟨rfl, v, ?_, ?_, ?_⟩
  · rw [← hleft, ← hright] at hv
    exact hregisters .empty s "$a" "$b" "$a" 0 (.ok v) hv
  · exact ((hindex (.number 0)).1 _).mpr ⟨_, _, hfirst, hsecond, hnumbers 1 4⟩
  · exact ((hindex (.number 2)).2 _).1.mpr hbeyond

end CritterScript
