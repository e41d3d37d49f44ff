import CritterScript.Board
import CritterScript.Proofs.Number.Order
import Mathlib

/-!
# Votes

Values that are equal as numbers compare are votes for one thing. A value
with a `NaN` in it is not equal to anything, itself included, and so it is
alone with its vote (`groupSize`).

The board counts by slots and remembers that of the leader. A count that
remembers the leader itself (`Tally.vote`) settles on the same value, since the
count in the slot of the leader is never out of date (`Tally.mostFrequent?_eq`).
It is the one that the rest is about.

A tally is right at any time (`Tally.Records`): it has each group once, under
the first of its values, with its size. The leader is an entry of it that no
other exceeds (`Tally.Leads`). Both go on with every vote, which changes a
tally in one of two ways (`Tally.count_cases`), and so the winner of a vote
has a group of the greatest size (`groupSize_le_of_mostFrequent?`).
-/

namespace CritterScript

/-! ## Equal values -/

namespace Value

/-- There is a `NaN` in the value. -/
def hasNaN : Value → Bool
  | number x => x.isNaN
  | array items => items.any Float.isNaN
  | _ => false

theorem items_beq_symm {xs ys : List Float} (h : (xs == ys) = true) : (ys == xs) = true := by
  induction xs generalizing ys with
  | nil => cases ys <;> simp_all
  | cons x xs ih =>
    cases ys with
    | nil => simp at h
    | cons y ys =>
      rw [List.cons_beq_cons, Bool.and_eq_true] at h ⊢
      exact ⟨Number.beq_symm h.1, ih h.2⟩

theorem items_beq_trans {xs ys zs : List Float} (h : (xs == ys) = true) (k : (ys == zs) = true) :
    (xs == zs) = true := by
  induction xs generalizing ys zs with
  | nil => cases ys <;> simp_all
  | cons x xs ih =>
    cases ys with
    | nil => simp at h
    | cons y ys =>
      cases zs with
      | nil => simp at k
      | cons z zs =>
        rw [List.cons_beq_cons, Bool.and_eq_true] at h k ⊢
        exact ⟨Number.beq_trans h.1 k.1, ih h.2 k.2⟩

theorem items_beq_self {xs : List Float} (h : ∀ x ∈ xs, x.isNaN = false) : (xs == xs) = true := by
  induction xs with
  | nil => rfl
  | cons x xs ih =>
    rw [List.forall_mem_cons] at h
    rw [List.cons_beq_cons, Bool.and_eq_true]
    exact ⟨Number.beq_self h.1, ih h.2⟩

variable {u v w : Value}

protected theorem beq_symm (h : (u == v) = true) : (v == u) = true := by
  cases u <;> cases v <;> try (cases h; done)
  case null.null => rfl
  case number.number x y => exact Number.beq_symm h
  case label.label a b =>
    obtain rfl : a = b := beq_iff_eq.mp h
    exact h
  case array.array xs ys => exact items_beq_symm h

protected theorem beq_trans (h : (u == v) = true) (k : (v == w) = true) : (u == w) = true := by
  cases u <;> cases v <;> try (cases h; done)
  all_goals cases w <;> try (cases k; done)
  case null.null.null => rfl
  case number.number.number x y z => exact Number.beq_trans h k
  case label.label.label a b c =>
    obtain rfl : a = b := beq_iff_eq.mp h
    exact k
  case array.array.array xs ys zs => exact items_beq_trans h k

protected theorem beq_self (h : v.hasNaN = false) : (v == v) = true := by
  cases v with
  | null => rfl
  | number x => exact Number.beq_self h
  | label name => exact beq_self_eq_true name
  | array xs => exact items_beq_self (by simpa [hasNaN] using h)

protected theorem beq_comm (u v : Value) : (u == v) = (v == u) :=
  Bool.eq_iff_iff.mpr ⟨Value.beq_symm, Value.beq_symm⟩

end Value

/-! ## Groups of equal values -/

/-- How many of the values count as `v`: those that are equal to it, or it
alone if it is not equal to itself. -/
def groupSize (vs : List Value) (v : Value) : Nat :=
  if v == v then vs.countP (· == v) else 1

section Groups

variable {vs : List Value} {u v : Value}

theorem groupSize_eq_countP (vs : List Value) (h : (v == v) = true) :
    groupSize vs v = vs.countP (· == v) :=
  if_pos h

theorem groupSize_congr (vs : List Value) (h : (u == v) = true) :
    groupSize vs u = groupSize vs v := by
  have hu : (u == u) = true := Value.beq_trans h (Value.beq_symm h)
  have hv : (v == v) = true := Value.beq_trans (Value.beq_symm h) h
  rw [groupSize_eq_countP vs hu, groupSize_eq_countP vs hv]
  refine List.countP_congr fun x _ => ⟨fun hx => Value.beq_trans hx h, fun hx => ?_⟩
  exact Value.beq_trans hx (Value.beq_symm h)

theorem groupSize_concat_of_beq (vs : List Value) (h : (u == v) = true) :
    groupSize (vs ++ [u]) v = groupSize vs v + 1 := by
  have hv : (v == v) = true := Value.beq_trans (Value.beq_symm h) h
  rw [groupSize_eq_countP _ hv, groupSize_eq_countP _ hv, List.countP_append,
    List.countP_singleton, if_pos h]

theorem groupSize_concat_of_not_beq (vs : List Value) (h : (u == v) = false) :
    groupSize (vs ++ [u]) v = groupSize vs v := by
  simp [groupSize, List.countP_append, h]

/-- A value that is equal to none before it starts a group. -/
theorem groupSize_concat_self (h : ∀ x ∈ vs, (x == v) = false) :
    groupSize (vs ++ [v]) v = 1 := by
  by_cases hv : (v == v) = true
  · have hnone : vs.countP (· == v) = 0 := by
      rw [List.countP_eq_zero]
      intro x hx
      rw [h x hx]
      decide
    rw [groupSize_concat_of_beq vs hv, groupSize_eq_countP vs hv, hnone]
  · exact if_neg hv

end Groups

/-! ## The tally -/

namespace Tally

/-- Counts one more value: the value as first seen with its new count, and
the tally after it. -/
def count (v : Value) : Tally → (Value × Nat) × Tally
  | [] => ((v, 1), [(v, 1)])
  | (seen, n) :: rest =>
    if seen == v then ((seen, n + 1), (seen, n + 1) :: rest)
    else
      let (hit, rest) := Tally.count v rest
      (hit, (seen, n) :: rest)

/-- The leader of the count so far and the tally, after one more value. A
value must exceed the count of the leader to replace it. -/
def vote (state : Option (Value × Nat) × Tally) (v : Value) :
    Option (Value × Nat) × Tally :=
  let (hit, tally) := state.2.count v
  match state.1 with
  | some leader => (if hit.2 > leader.2 then some hit else some leader, tally)
  | none => (some hit, tally)

/-- A value is new to a tally, or it is counted in the first entry that it is
equal to. -/
theorem count_cases (v : Value) (t : Tally) :
    ((∀ e ∈ t, (e.1 == v) = false) ∧ t.count v = ((v, 1), t ++ [(v, 1)])) ∨
      ∃ front x n back, t = front ++ (x, n) :: back ∧ (∀ e ∈ front, (e.1 == v) = false) ∧
        (x == v) = true ∧ t.count v = ((x, n + 1), front ++ (x, n + 1) :: back) := by
  induction t with
  | nil => exact .inl ⟨by simp, rfl⟩
  | cons entry t ih =>
    obtain ⟨x, n⟩ := entry
    by_cases hx : (x == v) = true
    · refine .inr ⟨[], x, n, t, rfl, by simp, hx, ?_⟩
      rw [count, if_pos hx, List.nil_append]
    · have hx' : (x == v) = false := Bool.eq_false_iff.mpr hx
      rcases ih with ⟨hnew, hcount⟩ | ⟨front, y, m, back, rfl, hfront, hy, hcount⟩
      · refine .inl ⟨List.forall_mem_cons.mpr ⟨hx', hnew⟩, ?_⟩
        rw [count, if_neg hx, hcount, List.cons_append]
      · refine .inr ⟨(x, n) :: front, y, m, back, rfl, ?_, hy, ?_⟩
        · exact List.forall_mem_cons.mpr ⟨hx', hfront⟩
        · rw [count, if_neg hx, hcount, List.cons_append]

/-- The values under which a tally counts. -/
def heads (t : Tally) : List Value :=
  t.map Prod.fst

/-! ### Slots -/

theorem modify_length (front back : Tally) (e : Value × Nat) (f : Value × Nat → Value × Nat) :
    (front ++ e :: back).modify front.length f = front ++ f e :: back := by
  rw [List.modify_eq_take_drop, List.take_left, List.drop_left, List.modifyHead_cons]

/-- Counting a value is counting at its slot. -/
theorem modify_slot (t : Tally) (v : Value) :
    (t.slot v).2.modify (t.slot v).1 (fun e => (e.1, e.2 + 1)) = (t.count v).2 ∧
      (t.count v).2[(t.slot v).1]? = some (t.count v).1 := by
  rcases t.count_cases v with ⟨hnew, hcount⟩ | ⟨front, x, n, back, rfl, hfront, hx, hcount⟩
  · have hslot : t.slot v = (t.length, t ++ [(v, 0)]) := by
      rw [slot, List.findIdx?_eq_none_iff.mpr hnew]
    rw [hslot, hcount, modify_length]
    exact ⟨rfl, List.getElem?_concat_length⟩
  · have hfound : (front ++ (x, n) :: back).findIdx? (·.1 == v) = some front.length := by
      rw [List.findIdx?_append, List.findIdx?_eq_none_iff.mpr hfront, List.findIdx?_cons, if_pos hx,
        Option.map_some, Option.none_or, Nat.zero_add]
    rw [slot, hfound, hcount, modify_length]
    refine ⟨rfl, ?_⟩
    rw [List.getElem?_append_right (Nat.le_refl _), Nat.sub_self, List.getElem?_cons_zero]

/-- A slot keeps its value. -/
theorem getElem?_count_of_some {t : Tally} {k : Nat} {x : Value} (v : Value)
    (h : t[k]?.map Prod.fst = some x) : (t.count v).2[k]?.map Prod.fst = some x := by
  rw [← List.getElem?_map] at h ⊢
  have hheads : ∃ more, (t.count v).2.heads = t.heads ++ more := by
    rcases t.count_cases v with ⟨-, hcount⟩ | ⟨front, y, n, back, rfl, -, -, hcount⟩
    · rw [hcount]
      exact ⟨[v], List.map_append⟩
    · rw [hcount]
      exact ⟨[], by simp [heads]⟩
  obtain ⟨more, hmore⟩ := hheads
  rw [heads, heads] at hmore
  rw [hmore, List.getElem?_append_left (List.getElem?_eq_some_iff.mp h).1]
  exact h

/-- The poll has the tally of a vote, and its best slot is that of the leader. -/
structure Follows (poll : Poll) (state : Option (Value × Nat) × Tally) : Prop where
  tally : poll.tally = state.2
  count : poll.best.map Prod.snd = state.1.map Prod.snd
  winner : poll.winner? = state.1.map Prod.fst

theorem Follows.vote {poll : Poll} {state : Option (Value × Nat) × Tally}
    (h : Follows poll state) (v : Value) : Follows (poll.vote v) (Tally.vote state v) := by
  obtain ⟨leader?, t⟩ := state
  obtain ⟨tally, best⟩ := poll
  obtain ⟨rfl, hcount, hwinner⟩ := h
  obtain ⟨hmodify, hhit⟩ := modify_slot tally v
  have hvote : Poll.vote ⟨tally, best⟩ v = ⟨(tally.count v).2,
      if best.all fun b => (tally.count v).1.2 > b.2 then
        some ((tally.slot v).1, (tally.count v).1.2) else best⟩ := by
    simp only [Poll.vote, hmodify, hhit, Option.map_some, Option.getD_some]
  have hlead : Follows ⟨(tally.count v).2, some ((tally.slot v).1, (tally.count v).1.2)⟩
      (some (tally.count v).1, (tally.count v).2) := by
    refine ⟨rfl, rfl, ?_⟩
    rw [Poll.winner?, Option.bind_some, hhit]
  rw [hvote]
  cases leader? with
  | none =>
    obtain rfl : best = none := Option.map_eq_none_iff.mp hcount
    exact hlead
  | some leader =>
    obtain ⟨b, rfl, hb⟩ := Option.map_eq_some_iff.mp hcount
    by_cases hgt : (tally.count v).1.2 > leader.2
    · rw [if_pos (by simpa [hb] using hgt)]
      simp only [Tally.vote, if_pos hgt]
      exact hlead
    · rw [if_neg (by simpa [hb] using hgt)]
      simp only [Tally.vote, if_neg hgt]
      -- the leader stays where it is
      exact ⟨rfl, hcount, getElem?_count_of_some v hwinner⟩

/-- The winner is the leader of the vote. -/
theorem mostFrequent?_eq (values : List Value) :
    mostFrequent? values = (values.foldl vote (none, [])).1.map Prod.fst := by
  have hfollows : Follows (values.foldl Poll.vote ⟨[], none⟩) (values.foldl vote (none, [])) := by
    induction values using List.reverseRecOn with
    | nil => exact ⟨rfl, rfl, rfl⟩
    | append_singleton values v ih =>
      rw [List.foldl_append, List.foldl_append]
      exact ih.vote v
  exact hfollows.winner

/-! ### Groups -/

/-- The tally has each group of values once, under one of them, with its
size. -/
structure Records (t : Tally) (vs : List Value) : Prop where
  mem : ∀ x ∈ t.heads, x ∈ vs
  seen : ∀ v ∈ vs, ∃ x ∈ t.heads, x = v ∨ (x == v) = true
  apart : t.heads.Pairwise fun x y => (x == y) = false
  size : ∀ e ∈ t, e.2 = groupSize vs e.1

namespace Records

variable {t front back : Tally} {vs : List Value} {v x : Value} {n : Nat}

theorem not_beq_of_new (h : t.Records vs) (hnew : ∀ y ∈ t.heads, (y == v) = false) :
    ∀ u ∈ vs, (u == v) = false := by
  intro u hu
  obtain ⟨y, hy, rfl | hyu⟩ := h.seen u hu
  · exact hnew y hy
  · rw [Bool.eq_false_iff]
    intro huv
    exact Bool.false_ne_true ((hnew y hy).symm.trans (Value.beq_trans hyu huv))

theorem concat_new (h : t.Records vs) (hnew : ∀ e ∈ t, (e.1 == v) = false) :
    Records (t ++ [(v, 1)]) (vs ++ [v]) := by
  have hheads : heads (t ++ [(v, 1)]) = t.heads ++ [v] := List.map_append
  have hnew' : ∀ y ∈ t.heads, (y == v) = false := List.forall_mem_map.mpr hnew
  refine ⟨?_, ?_, ?_, ?_⟩
  · rw [hheads, List.forall_mem_append]
    exact ⟨fun y hy => List.mem_append_left _ (h.mem y hy), by simp⟩
  · rw [hheads, List.forall_mem_append]
    refine ⟨fun u hu => ?_, by simp⟩
    obtain ⟨y, hy, hyu⟩ := h.seen u hu
    exact ⟨y, List.mem_append_left _ hy, hyu⟩
  · rw [hheads, List.pairwise_append]
    exact ⟨h.apart, List.pairwise_singleton _ _, by simpa using hnew'⟩
  · rw [List.forall_mem_append, List.forall_mem_singleton]
    refine ⟨fun e he => ?_, (groupSize_concat_self (h.not_beq_of_new hnew')).symm⟩
    rw [groupSize_concat_of_not_beq vs (by rw [Value.beq_comm, hnew e he]), h.size e he]

theorem concat_seen (h : Records (front ++ (x, n) :: back) vs)
    (hfront : ∀ e ∈ front, (e.1 == v) = false) (hx : (x == v) = true) :
    Records (front ++ (x, n + 1) :: back) (vs ++ [v]) := by
  have hheads : heads (front ++ (x, n + 1) :: back) = heads (front ++ (x, n) :: back) := by
    simp [heads]
  -- two entries that are equal to `v` would be equal to each other
  have hback : ∀ e ∈ back, (v == e.1) = false := by
    intro e he
    have hapart := h.apart
    simp only [heads, List.map_append, List.map_cons, List.pairwise_append,
      List.pairwise_cons] at hapart
    have hxe := hapart.2.1.1 e.1 (List.mem_map_of_mem he)
    rw [Bool.eq_false_iff]
    intro hve
    exact Bool.false_ne_true (hxe.symm.trans (Value.beq_trans hx hve))
  have hsize := h.size
  rw [List.forall_mem_append, List.forall_mem_cons] at hsize
  obtain ⟨hsizef, hsizex, hsizeb⟩ := hsize
  refine ⟨?_, ?_, ?_, ?_⟩
  · rw [hheads]
    exact fun y hy => List.mem_append_left _ (h.mem y hy)
  · rw [hheads, List.forall_mem_append, List.forall_mem_singleton]
    exact ⟨h.seen, x, by simp [heads], .inr hx⟩
  · rw [hheads]
    exact h.apart
  · rw [List.forall_mem_append, List.forall_mem_cons]
    refine ⟨fun e he => ?_, ?_, fun e he => ?_⟩
    · rw [groupSize_concat_of_not_beq vs (by rw [Value.beq_comm, hfront e he]), hsizef e he]
    · rw [groupSize_concat_of_beq vs (Value.beq_symm hx), ← hsizex]
    · rw [groupSize_concat_of_not_beq vs (hback e he), hsizeb e he]

theorem count (h : t.Records vs) (v : Value) : (t.count v).2.Records (vs ++ [v]) := by
  rcases t.count_cases v with ⟨hnew, hcount⟩ | ⟨front, x, n, back, rfl, hfront, hx, hcount⟩
  · rw [hcount]
    exact h.concat_new hnew
  · rw [hcount]
    exact h.concat_seen hfront hx

end Records

/-- Counting a value leaves all entries but one as they are, and that one
grows. -/
theorem count_entries (v : Value) (t : Tally) :
    (t.count v).1 ∈ (t.count v).2 ∧
      (∀ e ∈ (t.count v).2, e = (t.count v).1 ∨ e ∈ t) ∧
      ∀ e ∈ t, e ∈ (t.count v).2 ∨ e.2 < (t.count v).1.2 := by
  rcases t.count_cases v with ⟨-, hcount⟩ | ⟨front, x, n, back, rfl, -, -, hcount⟩
  · rw [hcount]
    refine ⟨by simp, fun e he => ?_, fun e he => .inl (List.mem_append_left _ he)⟩
    exact (List.mem_append.mp he).symm.imp List.mem_singleton.mp id
  · rw [hcount]
    simp only [List.mem_append, List.mem_cons]
    refine ⟨by simp, fun e he => by tauto, ?_⟩
    rintro e (he | rfl | he)
    · exact .inl (.inl he)
    · exact .inr (Nat.lt_succ_self n)
    · exact .inl (.inr (.inr he))

/-- The leader is an entry of the tally, and no entry exceeds it. -/
structure Leads (leader : Value × Nat) (t : Tally) : Prop where
  mem : leader ∈ t
  le : ∀ e ∈ t, e.2 ≤ leader.2

theorem leads_of_lt {t : Tally} {v : Value} (h : ∀ e ∈ t, e.2 < (t.count v).1.2) :
    Leads (t.count v).1 (t.count v).2 := by
  obtain ⟨hhit, hentries, -⟩ := t.count_entries v
  refine ⟨hhit, fun e he => ?_⟩
  rcases hentries e he with rfl | he
  · exact Nat.le_refl _
  · exact (h e he).le

theorem Leads.count {leader : Value × Nat} {t : Tally} {v : Value} (h : Leads leader t)
    (hle : (t.count v).1.2 ≤ leader.2) : Leads leader (t.count v).2 := by
  obtain ⟨-, hentries, hkept⟩ := t.count_entries v
  refine ⟨(hkept leader h.mem).resolve_right hle.not_gt, fun e he => ?_⟩
  rcases hentries e he with rfl | he
  · exact hle
  · exact h.le e he

/-- What is known of the state of a vote on some values. -/
structure Settled (state : Option (Value × Nat) × Tally) (vs : List Value) : Prop where
  records : state.2.Records vs
  first : state.1 = none → vs = []
  leads : ∀ leader ∈ state.1, Leads leader state.2

theorem Settled.vote {state : Option (Value × Nat) × Tally} {vs : List Value}
    (h : Settled state vs) (v : Value) : Settled (vote state v) (vs ++ [v]) := by
  obtain ⟨leader?, t⟩ := state
  have hrecords := h.records.count v
  cases leader? with
  | none =>
    have hempty : ∀ e ∈ t, e.2 < (t.count v).1.2 := by
      intro e he
      have hmem := h.records.mem e.1 (List.mem_map_of_mem he)
      rw [h.first rfl] at hmem
      cases hmem
    exact ⟨hrecords, by simp [Tally.vote], by simpa [Tally.vote] using leads_of_lt hempty⟩
  | some leader =>
    have hleads := h.leads leader rfl
    by_cases hgt : (t.count v).1.2 > leader.2
    · have hvote : Tally.vote (some leader, t) v = (some (t.count v).1, (t.count v).2) := by
        simp only [Tally.vote, if_pos hgt]
      rw [hvote]
      refine ⟨hrecords, by simp, ?_⟩
      simpa using leads_of_lt fun e he => (hleads.le e he).trans_lt hgt
    · have hvote : Tally.vote (some leader, t) v = (some leader, (t.count v).2) := by
        simp only [Tally.vote, if_neg hgt]
      rw [hvote]
      exact ⟨hrecords, by simp, by simpa using hleads.count (not_lt.mp hgt)⟩

theorem settled_foldl_vote (vs : List Value) : Settled (vs.foldl vote (none, [])) vs := by
  induction vs using List.reverseRecOn with
  | nil => exact ⟨⟨by simp [heads], by simp, by simp [heads], by simp⟩, fun _ => rfl, by simp⟩
  | append_singleton vs v ih =>
    rw [List.foldl_append]
    exact ih.vote v

end Tally

/-! ## The winner -/

section Winner

variable {vs : List Value} {v w : Value}

theorem groupSize_le_of_mostFrequent? (h : mostFrequent? vs = some v) :
    v ∈ vs ∧ ∀ u ∈ vs, groupSize vs u ≤ groupSize vs v := by
  rw [Tally.mostFrequent?_eq] at h
  obtain ⟨leader, hleader, rfl⟩ := Option.map_eq_some_iff.mp h
  obtain ⟨hrecords, -, hleads⟩ := Tally.settled_foldl_vote vs
  obtain ⟨hmem, hle⟩ := hleads leader hleader
  refine ⟨hrecords.mem _ (List.mem_map_of_mem hmem), fun u hu => ?_⟩
  obtain ⟨x, hx, hxu⟩ := hrecords.seen u hu
  obtain ⟨e, he, rfl⟩ := List.mem_map.mp hx
  have hsize : groupSize vs e.1 = groupSize vs u := by
    rcases hxu with rfl | hxu
    · rfl
    · exact groupSize_congr vs hxu
  rw [← hsize, ← hrecords.size e he, ← hrecords.size leader hmem]
  exact hle e he

/-- The value is among the others, and more of them are equal to it than to
any that is not. -/
structure Prevails (vs : List Value) (w : Value) : Prop where
  mem : w ∈ vs
  most : ∀ v ∈ vs, (v == w) = false → vs.countP (· == v) < vs.countP (· == w)

theorem Prevails.perm {vs' : List Value} (h : Prevails vs w) (hp : vs.Perm vs') :
    Prevails vs' w := by
  refine ⟨hp.mem_iff.mp h.mem, fun v hv hvw => ?_⟩
  rw [← hp.countP_eq, ← hp.countP_eq]
  exact h.most v (hp.mem_iff.mpr hv) hvw

/-- A value that prevails wins, up to equality. -/
theorem Prevails.wins (h : Prevails vs w) (hnan : ∀ v ∈ vs, v.hasNaN = false) :
    ∃ v, mostFrequent? vs = some v ∧ (v == w) = true := by
  cases hv : mostFrequent? vs with
  | none =>
    rw [Tally.mostFrequent?_eq] at hv
    have hnil := (Tally.settled_foldl_vote vs).first (Option.map_eq_none_iff.mp hv)
    exact absurd h.mem (by simp [hnil])
  | some v =>
    obtain ⟨hmem, hle⟩ := groupSize_le_of_mostFrequent? hv
    have hwv := hle w h.mem
    rw [groupSize_eq_countP vs (Value.beq_self (hnan w h.mem)),
      groupSize_eq_countP vs (Value.beq_self (hnan v hmem))] at hwv
    refine ⟨v, rfl, ?_⟩
    by_contra hne
    exact (h.most v hmem (Bool.eq_false_iff.mpr hne)).not_ge hwv

end Winner

end CritterScript
