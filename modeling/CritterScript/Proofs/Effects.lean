import CritterScript.Proofs.Answers
import CritterScript.Proofs.Atomicity

/-!
# What an instruction reads and writes

The table of slots says which operands of an instruction are read and which
one receives the result. `Instruction.Reads`, `Instruction.Stores` and
`Instruction.Sends` are the register names that stand in these places.

`effect_allows` is that the effect of an instruction concerns no other
register and no other key than its operands name, even if operands are
missing or of the wrong kind. `Mirrors.effect_eq` is that nothing but the
values of the operands that are read decides what the effect is: two
instructions that have these in common do the same, each to its own target
and with jumps inside its own program.
-/

namespace CritterScript

/-- An opcode whose result goes into a register. -/
def Opcode.stores : Opcode → Bool
  | mov | add | sub | mul | div | mod | rand | push | get | vlen | vdir | unitv => true
  | jmp | jez | jlz | jgz | ret | send => false

namespace Instruction

/-- The register is an operand in a slot of this kind. -/
def Names (i : Instruction) (slot : Slot) (name : String) : Prop :=
  (slot, Operand.register name) ∈ i.opcode.slots.zip i.operands

instance (i : Instruction) (slot : Slot) (name : String) : Decidable (i.Names slot name) :=
  inferInstanceAs (Decidable (_ ∈ _))

/-- The register is an operand that is read. -/
def Reads (i : Instruction) (name : String) : Prop :=
  i.Names .source name

/-- The register is the operand that receives the result. -/
def Stores (i : Instruction) (name : String) : Prop :=
  i.opcode.stores = true ∧ i.Names .target name

/-- The instruction sends, and the register is the key. -/
def Sends (i : Instruction) (key : String) : Prop :=
  i.opcode = .send ∧ i.operands[2]? = some (.register key)

instance (i : Instruction) (name : String) : Decidable (i.Stores name) :=
  inferInstanceAs (Decidable (_ ∧ _))

instance (i : Instruction) (key : String) : Decidable (i.Sends key) :=
  inferInstanceAs (Decidable (_ ∧ _))

variable {i j : Instruction} {position : Nat} {r r' : Registers}

theorem names_of_getElem? {slot : Slot} {name : String}
    (hs : i.opcode.slots[position]? = some slot)
    (ha : i.operands[position]? = some (.register name)) : i.Names slot name :=
  List.mem_iff_getElem?.mpr ⟨position, List.getElem?_zip_eq_some.mpr ⟨hs, ha⟩⟩

theorem target_eq_ok_iff {name : String} :
    i.target position = .ok name ↔ i.operands[position]? = some (.register name) := by
  rw [target, operand]
  cases ha : i.operands[position]? with
  | none => simp [Except.bind]
  | some a => cases a <;> simp [Except.bind]

/-! ## Effects and targets -/

/-- The effect concerns only what the operands name. -/
def Allows (i : Instruction) : Effect → Prop
  | .store name _ => i.Stores name
  | .post key _ => i.Sends key
  | .jump _ => True
  | .skip => True

/-- Whatever effect `x` has is one that `i` allows. -/
def Within (i : Instruction) (x : Except Cause Effect) : Prop :=
  ∀ e, x = .ok e → i.Allows e

theorem within_error (c : Cause) : i.Within (.error c) := by
  intro e h
  cases h

theorem within_ok {e : Effect} (h : i.Allows e) : i.Within (.ok e) := by
  intro e' he
  cases he
  exact h

theorem within_bind {α : Type} {x : Except Cause α} {f : α → Except Cause Effect}
    (h : ∀ a, i.Within (f a)) : i.Within (x >>= f) := by
  intro e hx
  obtain ⟨a, -, ha⟩ := bind_eq_ok_iff.mp hx
  exact h a e ha

theorem within_storeAt (hop : i.opcode.stores = true)
    (hs : i.opcode.slots[position]? = some .target) (v : Value) :
    i.Within (i.storeAt position v) := by
  intro e h
  obtain ⟨name, hname, rfl⟩ := map_eq_ok_iff.mp h
  exact ⟨hop, names_of_getElem? hs (target_eq_ok_iff.mp hname)⟩

theorem within_jumpTo (p : Program) (op : Opcode) (v : Value) : i.Within (jumpTo p op v) := by
  cases v with
  | label name =>
    rw [jumpTo]
    cases p.label? name with
    | none => exact within_error _
    | some position => exact within_ok trivial
  | _ => exact within_error _

theorem within_unary (hop : i.opcode.stores = true) (hs : i.opcode.slots = [.source, .target])
    (r : Registers) (f : Value → Except Cause Value) : i.Within (i.unary r f) := by
  have h₁ : i.opcode.slots[1]? = some .target := by rw [hs]; rfl
  exact within_bind fun _ => within_bind fun v => within_storeAt hop h₁ v

theorem within_arithmetic (hop : i.opcode.stores = true)
    (hs : i.opcode.slots = [.source, .source, .target]) (r : Registers)
    (f : Float → Float → Float) : i.Within (i.arithmetic r f) := by
  have h₂ : i.opcode.slots[2]? = some .target := by rw [hs]; rfl
  exact within_bind fun _ => within_bind fun _ => within_bind fun v => within_storeAt hop h₂ v

theorem within_branch (p : Program) (r : Registers) : i.Within (i.branch p r) := by
  refine within_bind fun _ => within_bind fun taken => ?_
  cases taken with
  | true => exact within_bind fun v => within_jumpTo p i.opcode v
  | false => exact within_ok trivial

/-- The effect of an instruction stores at its target, or posts under the key
that it names, or leaves registers and messages alone. -/
theorem effect_allows (i : Instruction) (p : Program) (r : Registers) (sample : Float) :
    i.Within (i.effect p r sample) := by
  obtain ⟨op, operands, line⟩ := i
  cases op with
  | mov => exact within_unary rfl rfl r _
  | add => exact within_arithmetic rfl rfl r _
  | sub => exact within_arithmetic rfl rfl r _
  | mul => exact within_arithmetic rfl rfl r _
  | div => exact within_arithmetic rfl rfl r _
  | mod => exact within_arithmetic rfl rfl r _
  | rand => exact within_storeAt rfl rfl _
  | push =>
    exact within_bind fun _ => within_bind fun _ => within_bind fun _ => within_bind fun _ =>
      within_storeAt rfl rfl _
  | get =>
    exact within_bind fun _ => within_bind fun _ => within_bind fun _ => within_storeAt rfl rfl _
  | vlen => exact within_unary rfl rfl r _
  | vdir => exact within_unary rfl rfl r _
  | unitv => exact within_unary rfl rfl r _
  | jmp => exact within_bind fun v => within_jumpTo p _ v
  | jez => exact within_branch p r
  | jlz => exact within_branch p r
  | jgz => exact within_branch p r
  | ret => exact within_ok trivial
  | send =>
    -- the key is looked up last, so that only this bind says more than "whatever it gives"
    refine within_bind fun priority => within_bind fun value => ?_
    intro e h
    obtain ⟨key, hkey, he⟩ := bind_eq_ok_iff.mp h
    cases priority with
    | number x =>
      cases he
      exact ⟨rfl, target_eq_ok_iff.mp hkey⟩
    | _ => cases he

/-! ## Effects and what is read -/

/-- The operands that `j` reads on `r'` have the values of those that `i`
reads on `r`, and `f` leads from the target of `i` to that of `j`. -/
structure Mirrors (f : String → String) (i : Instruction) (r : Registers) (j : Instruction)
    (r' : Registers) : Prop where
  opcode : j.opcode = i.opcode
  value (position : Nat) : i.opcode.slots[position]? = some .source →
    j.value r' position = i.value r position
  target (position : Nat) : i.opcode.slots[position]? = some .target →
    j.target position = (i.target position).map f

theorem mirrors_of_reads (h : ∀ name, i.Reads name → r'.get name = r.get name) :
    Mirrors id i r i r' where
  opcode := rfl
  value := by
    intro position hs
    rw [value, value, operand]
    cases ha : i.operands[position]? with
    | none => rfl
    | some a =>
      cases a with
      | register name => exact congrArg Except.ok (h name (names_of_getElem? hs ha))
      | literal v => rfl
  target := by
    intro position _
    cases i.target position <;> rfl

end Instruction

/-- The effect with the register or key that it concerns renamed. -/
def Effect.rename (f : String → String) : Effect → Effect
  | .store name v => .store (f name) v
  | .post key m => .post (f key) m
  | .jump position => .jump position
  | .skip => .skip

theorem Effect.rename_id (e : Effect) : e.rename id = e := by
  cases e <;> rfl

/-- The effect with the position that it jumps to moved. -/
def Effect.relocate (g : Nat → Nat) : Effect → Effect
  | .jump position => .jump (g position)
  | e => e

theorem Effect.relocate_id (e : Effect) : e.relocate id = e := by
  cases e <;> rfl

theorem map_bind_effect {α : Type} (x : Except Cause α) (g : α → Except Cause Effect)
    (f : Effect → Effect) : (x >>= g).map f = x >>= fun a => (g a).map f := by
  cases x <;> rfl

namespace Instruction.Mirrors

variable {f : String → String} {g : Nat → Nat} {i j : Instruction} {r r' : Registers}
  {p q : Program}

theorem storeAt_eq (h : Mirrors f i r j r') (position : Nat)
    (hs : i.opcode.slots[position]? = some .target) (v : Value) :
    j.storeAt position v = (i.storeAt position v).map fun e => (e.rename f).relocate g := by
  rw [storeAt, storeAt, h.target position hs]
  cases i.target position <;> rfl

theorem jumpTo_eq (hlabel : ∀ name, q.label? name = (p.label? name).map g) (op : Opcode)
    (v : Value) :
    jumpTo q op v = (jumpTo p op v).map fun e => (e.rename f).relocate g := by
  cases v with
  | label name =>
    rw [jumpTo, jumpTo, hlabel]
    cases p.label? name <;> rfl
  | _ => rfl

theorem unary_eq (h : Mirrors f i r j r') (hs : i.opcode.slots = [.source, .target])
    (op : Value → Except Cause Value) :
    j.unary r' op = (i.unary r op).map fun e => (e.rename f).relocate g := by
  have h₀ : j.value r' 0 = i.value r 0 := h.value _ (by rw [hs]; rfl)
  have h₁ : i.opcode.slots[1]? = some .target := by rw [hs]; rfl
  simp only [unary, h₀, h.storeAt_eq (g := g) 1 h₁, map_bind_effect]

theorem arithmetic_eq (h : Mirrors f i r j r') (hs : i.opcode.slots = [.source, .source, .target])
    (op : Float → Float → Float) :
    j.arithmetic r' op = (i.arithmetic r op).map fun e => (e.rename f).relocate g := by
  have h₀ : j.value r' 0 = i.value r 0 := h.value _ (by rw [hs]; rfl)
  have h₁ : j.value r' 1 = i.value r 1 := h.value _ (by rw [hs]; rfl)
  have h₂ : i.opcode.slots[2]? = some .target := by rw [hs]; rfl
  simp only [arithmetic, h.opcode, h₀, h₁, h.storeAt_eq (g := g) 2 h₂, map_bind_effect]

theorem branch_eq (h : Mirrors f i r j r') (hs : i.opcode.slots = [.source, .source])
    (hlabel : ∀ name, q.label? name = (p.label? name).map g) :
    j.branch q r' = (i.branch p r).map fun e => (e.rename f).relocate g := by
  have h₀ : j.value r' 0 = i.value r 0 := h.value _ (by rw [hs]; rfl)
  have h₁ : j.value r' 1 = i.value r 1 := h.value _ (by rw [hs]; rfl)
  simp only [branch, h.opcode, h₀, h₁, map_bind_effect]
  congr 1
  funext v
  congr 1
  funext taken
  cases taken with
  | true =>
    simp only [if_true, map_bind_effect, jumpTo_eq (f := f) hlabel]
  | false => rfl

/-- Instructions that read the same have the same effect, each on its own
target. If the labels and the end of one program are those of the other moved
by `g`, then so are the jumps. -/
theorem effect_eq (h : Mirrors f i r j r')
    (hlabel : ∀ name, q.label? name = (p.label? name).map g) (hsize : q.size = g p.size)
    (sample : Float) :
    j.effect q r' sample = (i.effect p r sample).map fun e => (e.rename f).relocate g := by
  obtain ⟨op, operands, line⟩ := i
  obtain ⟨op', operands', line'⟩ := j
  obtain rfl : op' = op := h.opcode
  cases op' with
  | mov => exact h.unary_eq rfl _
  | add => exact h.arithmetic_eq rfl _
  | sub => exact h.arithmetic_eq rfl _
  | mul => exact h.arithmetic_eq rfl _
  | div => exact h.arithmetic_eq rfl _
  | mod => exact h.arithmetic_eq rfl _
  | rand => exact h.storeAt_eq 0 rfl _
  | push =>
    simp only [effect, h.value 0 rfl, h.value 1 rfl, h.storeAt_eq (g := g) 2 rfl, map_bind_effect]
  | get =>
    simp only [effect, h.value 0 rfl, h.value 1 rfl, h.storeAt_eq (g := g) 2 rfl, map_bind_effect]
  | vlen => exact h.unary_eq rfl _
  | vdir => exact h.unary_eq rfl _
  | unitv => exact h.unary_eq rfl _
  | jmp => simp only [effect, h.value 0 rfl, jumpTo_eq (f := f) hlabel, map_bind_effect]
  | jez => exact h.branch_eq rfl hlabel
  | jlz => exact h.branch_eq rfl hlabel
  | jgz => exact h.branch_eq rfl hlabel
  | ret =>
    simp only [effect, hsize]
    rfl
  | send =>
    simp only [effect, h.value 0 rfl, h.value 1 rfl, h.target 2 rfl, map_bind_effect]
    congr 1
    funext priority
    congr 1
    funext value
    cases Instruction.target ⟨.send, operands, line⟩ 2 with
    | error c => rfl
    | ok key => cases priority <;> rfl

end Instruction.Mirrors

end CritterScript
