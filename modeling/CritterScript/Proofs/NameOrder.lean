import CritterScript.Names
import Mathlib

/-!
# The order of names

A table is kept in the order of the code points of its names, and this is the
order of their bytes in UTF-8 (`nameBytes_lt`): where two characters differ, the
one with the larger code point is encoded by more bytes, of which the first is
larger, or else by as many, which are the digits of the code point to base 64.
So the entries of a table are listed by the bytes of their names
(`pairwise_nameBytes_toList`).
-/

namespace CritterScript

/-- The bytes of a name in UTF-8. -/
def nameBytes (name : String) : List UInt8 :=
  name.toUTF8.data.toList

theorem nameBytes_eq (name : String) :
    nameBytes name = name.toList.flatMap String.utf8EncodeChar := by
  have h : (String.ofList name.toList).toByteArray.data.toList =
      name.toList.flatMap String.utf8EncodeChar := by
    rw [String.toByteArray_ofList, List.utf8Encode, List.toList_data_toByteArray]
  rwa [String.ofList_toList] at h

theorem ofNat_cons_lt_cons_iff {m n : Nat} (hm : m < 256) (hn : n < 256) {xs ys : List UInt8} :
    UInt8.ofNat m :: xs < UInt8.ofNat n :: ys ↔ m < n ∨ m = n ∧ xs < ys := by
  rw [List.cons_lt_cons_iff, UInt8.lt_iff_toNat_lt, ← UInt8.toNat_inj,
    UInt8.toNat_ofNat_of_lt' hm, UInt8.toNat_ofNat_of_lt' hn]

/-- The bytes of two different characters decide, whatever follows. -/
theorem utf8EncodeChar_append_lt {c d : Char} (h : c < d) (xs ys : List UInt8) :
    String.utf8EncodeChar c ++ xs < String.utf8EncodeChar d ++ ys := by
  have hlt : c.val.toNat < d.val.toNat := h
  have hvalid : d.val.toNat < 0xd800 ∨ 0xdfff < d.val.toNat ∧ d.val.toNat < 0x110000 := d.valid
  -- the digits to base 64, each from the one behind it
  have hsecond : ∀ k : Nat, k / 4096 = k / 64 / 64 := by omega
  have hthird : ∀ k : Nat, k / 262144 = k / 64 / 64 / 64 := by omega
  simp only [String.utf8EncodeChar, hsecond, hthird]
  generalize c.val.toNat = m at hlt ⊢
  generalize d.val.toNat = n at hlt hvalid ⊢
  -- by the numbers of bytes of the two characters
  split_ifs <;> simp (disch := omega) only [List.cons_append, List.nil_append,
    ofNat_cons_lt_cons_iff] <;> omega

theorem flatMap_utf8EncodeChar_lt {cs ds : List Char} (h : cs < ds) :
    cs.flatMap String.utf8EncodeChar < ds.flatMap String.utf8EncodeChar := by
  induction h with
  | @nil d ds =>
    obtain ⟨byte, rest, hd⟩ := List.exists_cons_of_ne_nil (@String.utf8EncodeChar_ne_nil d)
    rw [List.flatMap_cons, hd]
    exact List.nil_lt_cons _ _
  | cons _ ih => exact List.append_left_lt ih
  | rel hcd => exact utf8EncodeChar_append_lt hcd _ _

/-- Names are ordered as their bytes are. -/
theorem nameBytes_lt {a b : String} (h : a < b) : nameBytes a < nameBytes b := by
  rw [nameBytes_eq, nameBytes_eq]
  exact flatMap_utf8EncodeChar_lt (String.lt_iff_toList_lt.mp h)

/-- A table lists its entries by the bytes of their names. -/
theorem pairwise_nameBytes_toList {α : Type} (t : NameTable α) :
    t.toList.Pairwise fun a b => nameBytes a.1 < nameBytes b.1 := by
  refine Std.ExtTreeMap.ordered_keys_toList.imp fun {a b} hab => nameBytes_lt ?_
  exact compareOfLessAndEq_eq_lt.mp hab

end CritterScript
