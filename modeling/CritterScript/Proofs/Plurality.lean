import CritterScript.Proofs.Ballots
import CritterScript.Proofs.Votes
import Mathlib

/-!
# The first to lead

The positions of a list of values fall into groups: two positions count
together if their values are equal (`group`). `Elected` says which position
wins a vote. Its group is one of those of the greatest size `n`, of these the
one whose member number `n` comes first, and it is the first member of that
group.

A vote is counted in one pass. At any time the tally has each group under the
value of its first member (`Tally.Founded`), and the leader is the value
elected so far: a further value makes its own group the greatest
(`elected_concat`) or leaves the leader as it is (`Elected.concat`). So the
winner is the value elected by the whole list (`plurality_winner`).
-/

namespace CritterScript

/-! ## Equal values -/

instance : PartialEquivBEq Value := ⟨Value.beq_symm, Value.beq_trans⟩

instance partialEquivBEqOption {α : Type} [BEq α] [PartialEquivBEq α] :
    PartialEquivBEq (Option α) where
  symm {a b} h := by
    cases a <;> cases b
    case none.none => rfl
    case some.some a b =>
      have hba : (b == a) = true := BEq.symm h
      exact hba
    all_goals cases h
  trans {a b c} h h' := by
    cases a <;> cases b <;> try (cases h; done)
    case none.none => exact h'
    case some.some a b =>
      cases c with
      | none => cases h'
      | some c =>
        have hab : (a == b) = true := h
        have hac : (a == c) = true := BEq.trans hab h'
        exact hac

namespace Value

theorem items_beq_eq_false {xs ys : List Float} (h : ∃ x ∈ xs, x.isNaN = true) :
    (xs == ys) = false := by
  induction xs generalizing ys with
  | nil => simp at h
  | cons x xs ih =>
    cases ys with
    | nil => rfl
    | cons y ys =>
      rw [List.cons_beq_cons, Bool.and_eq_false_iff]
      obtain ⟨z, _ | ⟨_, hz⟩, hnan⟩ := h
      · exact .inl (Number.beq_eq_false_of_isNaN_left hnan)
      · exact .inr (ih ⟨z, hz, hnan⟩)

/-- A value with a `NaN` in it is equal to none. -/
theorem beq_eq_false_of_hasNaN {u : Value} (h : u.hasNaN = true) (v : Value) :
    (u == v) = false := by
  cases u with
  | null => cases h
  | label name => cases h
  | number x =>
    cases v with
    | number y => exact Number.beq_eq_false_of_isNaN_left h
    | _ => rfl
  | array xs =>
    cases v with
    | array ys => exact items_beq_eq_false (List.any_eq_true.mp h)
    | _ => rfl

end Value

/-! ## Groups of positions -/

/-- The positions of the values that count as the one at position `i`, from left
to right: position `i` itself, and those of values that are equal to its. -/
def group (vs : List Value) (i : Nat) : List Nat :=
  (List.range vs.length).filter fun j => i == j || vs[i]? == vs[j]?

section Group

variable {vs : List Value} {i j k : Nat} {u v : Value}

theorem mem_group_iff :
    j ∈ group vs i ↔ j < vs.length ∧ (i = j ∨ (vs[i]? == vs[j]?) = true) := by
  rw [group, List.mem_filter, List.mem_range, Bool.or_eq_true, beq_iff_eq]

theorem mem_group_self (h : i < vs.length) : i ∈ group vs i :=
  mem_group_iff.mpr ⟨h, .inl rfl⟩

theorem lt_of_mem_group (h : j ∈ group vs i) : j < vs.length :=
  (mem_group_iff.mp h).1

theorem pairwise_group (vs : List Value) (i : Nat) : (group vs i).Pairwise (· < ·) :=
  List.pairwise_lt_range.filter _

/-- A position is in one group only. -/
theorem group_eq_of_mem (h : j ∈ group vs i) : group vs j = group vs i := by
  refine List.filter_congr fun k _ => Bool.eq_iff_iff.mpr ?_
  simp only [Bool.or_eq_true, beq_iff_eq]
  obtain ⟨-, rfl | hij⟩ := mem_group_iff.mp h
  · rfl
  · constructor
    · rintro (rfl | hjk)
      · exact .inr hij
      · exact .inr (BEq.trans hij hjk)
    · rintro (rfl | hik)
      · exact .inr (BEq.symm hij)
      · exact .inr (BEq.trans (BEq.symm hij) hik)

theorem mem_group_comm (hi : i < vs.length) (h : j ∈ group vs i) : i ∈ group vs j :=
  group_eq_of_mem h ▸ mem_group_self hi

theorem group_eq_singleton (hi : i < vs.length) (h : ∀ j ∈ group vs i, j = i) :
    group vs i = [i] := by
  have hmem : ∀ j, j ∈ group vs i ↔ j ∈ [i] := by
    intro j
    rw [List.mem_singleton]
    refine ⟨h j, ?_⟩
    rintro rfl
    exact mem_group_self hi
  have : Std.Irrefl fun i j : Nat => i < j := ⟨Nat.lt_irrefl⟩
  have : Std.Antisymm fun i j : Nat => i < j := ⟨fun i j h h' => absurd h' (Nat.lt_asymm h)⟩
  exact (pairwise_group vs i).eq_of_mem_iff (List.pairwise_singleton _ _) hmem

/-- A value with a `NaN` in it is alone in its group. -/
theorem group_of_hasNaN (h : vs[i]? = some v) (hnan : v.hasNaN = true) : group vs i = [i] := by
  refine group_eq_singleton (List.getElem?_eq_some_iff.mp h).1 fun j hj => ?_
  obtain ⟨hlt, rfl | hij⟩ := mem_group_iff.mp hj
  · rfl
  · have hvu : (v == vs[j]) = true := by
      rwa [h, List.getElem?_eq_getElem hlt] at hij
    rw [Value.beq_eq_false_of_hasNaN hnan] at hvu
    cases hvu

/-! ## One more value -/

/-- A further value joins the groups of the values that it is equal to. -/
theorem group_concat (h : vs[i]? = some u) (v : Value) :
    group (vs ++ [v]) i = if u == v then group vs i ++ [vs.length] else group vs i := by
  have hi : i < vs.length := (List.getElem?_eq_some_iff.mp h).1
  have hfront : ((List.range vs.length).filter fun j =>
      i == j || (vs ++ [v])[i]? == (vs ++ [v])[j]?) = group vs i := by
    refine List.filter_congr fun j hj => ?_
    rw [List.getElem?_append_left hi, List.getElem?_append_left (List.mem_range.mp hj)]
  have hlast : (i == vs.length || (vs ++ [v])[i]? == (vs ++ [v])[vs.length]?) = (u == v) := by
    rw [List.getElem?_append_left hi, h, List.getElem?_concat_length, beq_eq_false_iff_ne.mpr hi.ne,
      Bool.false_or]
    rfl
  rw [group, List.length_append, List.length_singleton, List.range_succ, List.filter_append, hfront,
    List.filter_singleton, hlast]
  cases u == v with
  | true => rfl
  | false => exact List.append_nil _

theorem group_concat_of_beq (h : vs[i]? = some u) (huv : (u == v) = true) :
    group (vs ++ [v]) i = group vs i ++ [vs.length] := by
  rw [group_concat h, if_pos huv]

/-- A group that a further value does not join is as it was. -/
theorem group_concat_of_notMem (hi : i < (vs ++ [v]).length)
    (h : vs.length ∉ group (vs ++ [v]) i) :
    i < vs.length ∧ group (vs ++ [v]) i = group vs i := by
  have hlt : i < vs.length := by
    by_contra hge
    obtain rfl : i = vs.length := by
      rw [List.length_append, List.length_singleton] at hi
      omega
    exact h (mem_group_self hi)
  have hu := List.getElem?_eq_getElem hlt
  refine ⟨hlt, ?_⟩
  by_cases huv : (vs[i] == v) = true
  · rw [group_concat_of_beq hu huv] at h
    exact absurd (List.mem_append_right _ (List.mem_singleton_self _)) h
  · rw [group_concat hu, if_neg huv]

theorem group_concat_of_mem (hi : i < vs.length) (h : vs.length ∈ group (vs ++ [v]) i) :
    group (vs ++ [v]) i = group vs i ++ [vs.length] := by
  have hu := List.getElem?_eq_getElem hi
  by_cases huv : (vs[i] == v) = true
  · exact group_concat_of_beq hu huv
  · rw [group_concat hu, if_neg huv] at h
    exact absurd (lt_of_mem_group h) (Nat.lt_irrefl _)

/-- A further value is the last member of its group. -/
theorem getElem?_group_concat (h : vs.length ∈ group (vs ++ [v]) i) :
    (group (vs ++ [v]) i)[(group (vs ++ [v]) i).length - 1]? = some vs.length := by
  have hlast : ∀ {p : Nat → Bool} {n : Nat}, n ∈ (List.range (n + 1)).filter p →
      ((List.range (n + 1)).filter p).getLast? = some n := by
    intro p n hn
    rw [List.range_succ, List.filter_append, List.filter_cons_of_pos (List.mem_filter.mp hn).2]
    exact List.getLast?_concat
  rw [← List.getLast?_eq_getElem?]
  rw [group, List.length_append, List.length_singleton] at h ⊢
  exact hlast h

/-- A value that is equal to none before it starts a group. -/
theorem group_concat_of_new (h : ∀ u ∈ vs, (u == v) = false) :
    group (vs ++ [v]) vs.length = [vs.length] := by
  have hn : vs.length < (vs ++ [v]).length := by simp
  refine group_eq_singleton hn fun j hj => ?_
  by_contra hne
  have hlt : j < vs.length := by
    have hle := lt_of_mem_group hj
    rw [List.length_append, List.length_singleton] at hle
    omega
  have hmem := mem_group_comm hn hj
  rw [group_concat (List.getElem?_eq_getElem hlt), h _ (List.getElem_mem hlt)] at hmem
  exact Nat.lt_irrefl _ (lt_of_mem_group hmem)

/-- A group has as many members as values count as one of its values. -/
theorem length_group (h : vs[i]? = some v) : (group vs i).length = groupSize vs v := by
  induction vs using List.reverseRecOn generalizing i v with
  | nil => cases h
  | append_singleton vs x ih =>
    have hold : ∀ {i v}, vs[i]? = some v →
        (group (vs ++ [x]) i).length = groupSize (vs ++ [x]) v := by
      intro i v h
      by_cases hvx : (v == x) = true
      · rw [group_concat_of_beq h hvx, List.length_append, ih h,
          groupSize_concat_of_beq vs (Value.beq_symm hvx)]
        rfl
      · rw [group_concat h, if_neg hvx, ih h, groupSize_concat_of_not_beq]
        rwa [Value.beq_comm, Bool.eq_false_iff]
    by_cases hi : i < vs.length
    · exact hold (by rwa [List.getElem?_append_left hi] at h)
    -- the last value counts with one before it, or it is on its own
    obtain rfl : i = vs.length := by
      have hlt := (List.getElem?_eq_some_iff.mp h).1
      rw [List.length_append, List.length_singleton] at hlt
      omega
    obtain rfl : x = v := by
      rwa [List.getElem?_concat_length, Option.some_inj] at h
    by_cases hnew : ∀ u ∈ vs, (u == x) = false
    · rw [group_concat_of_new hnew, groupSize_concat_self hnew]
      rfl
    · simp only [not_forall, Bool.not_eq_false] at hnew
      obtain ⟨u, hu, huv⟩ := hnew
      obtain ⟨j, hj⟩ := List.mem_iff_getElem?.mp hu
      have hmem : vs.length ∈ group (vs ++ [x]) j := by
        rw [group_concat_of_beq hj huv]
        exact List.mem_append_right _ (List.mem_singleton_self _)
      rw [group_eq_of_mem hmem, hold hj, groupSize_congr _ huv]

end Group

/-! ## The tally and its groups -/

namespace Tally

/-- The tally counts each group under the value of its first member. -/
def Founded (t : Tally) (vs : List Value) : Prop :=
  ∀ x ∈ t.heads, ∃ i, vs[i]? = some x ∧ (group vs i).head? = some i

theorem Founded.count {t : Tally} {vs : List Value} (h : t.Founded vs) (hr : t.Records vs)
    (v : Value) : (t.count v).2.Founded (vs ++ [v]) := by
  have hold : ∀ x ∈ t.heads, ∃ i, (vs ++ [v])[i]? = some x ∧
      (group (vs ++ [v]) i).head? = some i := by
    intro x hx
    obtain ⟨i, hi, hhead⟩ := h x hx
    refine ⟨i, ?_, ?_⟩
    · rw [List.getElem?_append_left (List.getElem?_eq_some_iff.mp hi).1, hi]
    · rw [group_concat hi]
      by_cases hxv : (x == v) = true
      · rw [if_pos hxv, List.head?_append, hhead, Option.some_or]
      · rw [if_neg hxv, hhead]
  rcases t.count_cases v with ⟨hnew, hcount⟩ | ⟨front, x, n, back, rfl, -, -, hcount⟩
  · have hnew' := hr.not_beq_of_new (List.forall_mem_map.mpr hnew)
    rw [hcount, Founded, heads, List.map_append, List.forall_mem_append]
    refine ⟨hold, fun x hx => ⟨vs.length, ?_, ?_⟩⟩
    · rw [List.mem_singleton.mp hx, List.getElem?_concat_length]
    · rw [group_concat_of_new hnew', List.head?_cons]
  · have hheads : heads (front ++ (x, n + 1) :: back) = heads (front ++ (x, n) :: back) := by
      simp [heads]
    rw [hcount, Founded, hheads]
    exact hold

theorem vote_snd (state : Option (Value × Nat) × Tally) (v : Value) :
    (vote state v).2 = (state.2.count v).2 := by
  rw [vote]
  cases state.1 <;> rfl

theorem founded_foldl_vote (vs : List Value) : (vs.foldl vote (none, [])).2.Founded vs := by
  induction vs using List.reverseRecOn with
  | nil => simp [Founded, heads]
  | append_singleton vs v ih =>
    rw [List.foldl_append, List.foldl_cons, List.foldl_nil, vote_snd]
    exact ih.count (settled_foldl_vote vs).records v

/-- A value is counted in the entry of its group. -/
theorem exists_group_of_count {t : Tally} {vs : List Value} (h : t.Founded vs)
    (hr : t.Records vs) (v : Value) :
    ∃ w, (vs ++ [v])[w]? = some (t.count v).1.1 ∧ (group (vs ++ [v]) w).head? = some w ∧
      (group (vs ++ [v]) w).length = (t.count v).1.2 ∧ vs.length ∈ group (vs ++ [v]) w := by
  rcases t.count_cases v with ⟨hnew, hcount⟩ | ⟨front, x, n, back, rfl, -, hxv, hcount⟩
  · have hnew' := hr.not_beq_of_new (List.forall_mem_map.mpr hnew)
    rw [hcount]
    refine ⟨vs.length, List.getElem?_concat_length, ?_⟩
    rw [group_concat_of_new hnew']
    exact ⟨rfl, rfl, List.mem_singleton_self _⟩
  · have hmem : (x, n) ∈ front ++ (x, n) :: back := List.mem_append_right _ List.mem_cons_self
    obtain ⟨w, hw, hhead⟩ := h x (List.mem_map_of_mem hmem)
    have hsize : n = groupSize vs x := hr.size _ hmem
    rw [hcount]
    refine ⟨w, ?_, ?_⟩
    · rw [List.getElem?_append_left (List.getElem?_eq_some_iff.mp hw).1, hw]
    · rw [group_concat_of_beq hw hxv, List.head?_append, hhead, List.length_append,
        length_group hw, ← hsize]
      exact ⟨rfl, rfl, List.mem_append_right _ (List.mem_singleton_self _)⟩

end Tally

/-! ## The winner -/

/-- Position `w` is elected by a vote. It is the first member of a group of the
greatest size, and `q`, at which this group gets its member number `size`, comes
before the place where any other group of that size gets there. -/
structure Elected (vs : List Value) (size w q : Nat) : Prop where
  first : (group vs w).head? = some w
  length : (group vs w).length = size
  most : ∀ i < vs.length, (group vs i).length ≤ size
  reached : (group vs w)[size - 1]? = some q
  earliest : ∀ i < vs.length, i ∉ group vs w → (group vs i).length = size →
    ∀ r, (group vs i)[size - 1]? = some r → q < r

section Elected

variable {vs : List Value} {size w q i : Nat} {v : Value}

theorem Elected.lt (h : Elected vs size w q) : w < vs.length :=
  lt_of_mem_group (List.mem_of_mem_head? h.first)

/-- No two positions are elected. -/
theorem Elected.eq {size' w' q' : Nat} (h : Elected vs size w q) (h' : Elected vs size' w' q') :
    w = w' := by
  obtain rfl : size = size' :=
    Nat.le_antisymm (h.length ▸ h'.most w h.lt) (h'.length ▸ h.most w' h'.lt)
  by_cases hmem : w' ∈ group vs w
  · have hfirst := h'.first
    rw [group_eq_of_mem hmem, h.first] at hfirst
    exact Option.some.inj hfirst
  · have hmem' : w ∉ group vs w' := fun hw => hmem (mem_group_comm h'.lt hw)
    have hlt := h.earliest w' h'.lt hmem h'.length q' h'.reached
    have hgt := h'.earliest w h.lt hmem' h.length q h.reached
    omega

/-- A value that makes its group greater than all is elected with it. -/
theorem elected_concat (hfirst : (group (vs ++ [v]) w).head? = some w)
    (hmem : vs.length ∈ group (vs ++ [v]) w)
    (hmost : ∀ i < vs.length, (group vs i).length < (group (vs ++ [v]) w).length) :
    Elected (vs ++ [v]) (group (vs ++ [v]) w).length w vs.length := by
  have hother : ∀ i < (vs ++ [v]).length, i ∉ group (vs ++ [v]) w →
      (group (vs ++ [v]) i).length < (group (vs ++ [v]) w).length := by
    intro i hi hnot
    have hout : vs.length ∉ group (vs ++ [v]) i := by
      intro hin
      rw [← group_eq_of_mem hmem, group_eq_of_mem hin] at hnot
      exact hnot (mem_group_self hi)
    obtain ⟨hlt, hgroup⟩ := group_concat_of_notMem hi hout
    rw [hgroup]
    exact hmost i hlt
  refine ⟨hfirst, rfl, fun i hi => ?_, getElem?_group_concat hmem, fun i hi hnot hsize => ?_⟩
  · by_cases hin : i ∈ group (vs ++ [v]) w
    · rw [group_eq_of_mem hin]
    · exact (hother i hi hin).le
  · exact absurd hsize (hother i hi hnot).ne

/-- A value that leaves another group the greatest leaves what is elected. -/
theorem Elected.concat (h : Elected vs size w q) (hout : vs.length ∉ group (vs ++ [v]) w)
    (hmost : ∀ i < (vs ++ [v]).length, (group (vs ++ [v]) i).length ≤ size) :
    Elected (vs ++ [v]) size w q := by
  have hw : w < (vs ++ [v]).length := by
    have hlt := h.lt
    rw [List.length_append, List.length_singleton]
    omega
  obtain ⟨-, hgroup⟩ := group_concat_of_notMem hw hout
  refine ⟨hgroup ▸ h.first, hgroup ▸ h.length, hmost, hgroup ▸ h.reached,
    fun i hi hnot hsize r hr => ?_⟩
  by_cases hin : vs.length ∈ group (vs ++ [v]) i
  · -- the group of the new value has come to this size only now
    have hlast := getElem?_group_concat hin
    rw [hsize, hr, Option.some_inj] at hlast
    rw [hlast]
    exact lt_of_mem_group (List.mem_of_getElem? h.reached)
  · obtain ⟨hlt, hold⟩ := group_concat_of_notMem hi hin
    rw [hgroup] at hnot
    rw [hold] at hsize hr
    exact h.earliest i hlt hnot hsize r hr

end Elected

namespace Tally

/-- A vote makes the entry that it counts the leader, if that exceeds the leader
before it, and else it leaves the leader as it is. -/
theorem vote_cases (state : Option (Value × Nat) × Tally) (v : Value) :
    ((∀ leader ∈ state.1, leader.2 < (state.2.count v).1.2) ∧
        (vote state v).1 = some (state.2.count v).1) ∨
      ∃ leader, state.1 = some leader ∧ (state.2.count v).1.2 ≤ leader.2 ∧
        (vote state v).1 = some leader := by
  rw [vote]
  cases hleader : state.1 with
  | none => exact .inl ⟨by simp, rfl⟩
  | some leader =>
    by_cases hgt : (state.2.count v).1.2 > leader.2
    · exact .inl ⟨by simpa using hgt, if_pos hgt⟩
    · exact .inr ⟨leader, rfl, not_lt.mp hgt, if_neg hgt⟩

/-- No group has more members than the leader was counted. -/
theorem length_group_le {vs : List Value} {leader : Value × Nat}
    (h : (vs.foldl vote (none, [])).1 = some leader) {i : Nat} (hi : i < vs.length) :
    (group vs i).length ≤ leader.2 := by
  obtain ⟨hrecords, -, hleads⟩ := settled_foldl_vote vs
  have hwins : mostFrequent? vs = some leader.1 := by
    rw [mostFrequent?_eq, h, Option.map_some]
  rw [length_group (List.getElem?_eq_getElem hi), hrecords.size leader (hleads leader h).mem]
  exact (groupSize_le_of_mostFrequent? hwins).2 _ (List.getElem_mem hi)

/-- The leader is the value elected so far, with the size of its group. -/
theorem elected_foldl_vote {vs : List Value} {leader : Value × Nat}
    (h : (vs.foldl vote (none, [])).1 = some leader) :
    ∃ w q, Elected vs leader.2 w q ∧ vs[w]? = some leader.1 := by
  induction vs using List.reverseRecOn generalizing leader with
  | nil => cases h
  | append_singleton vs v ih =>
    have hmost : ∀ i < (vs ++ [v]).length, (group (vs ++ [v]) i).length ≤ leader.2 :=
      fun i => length_group_le h
    obtain ⟨hrecords, hempty, -⟩ := settled_foldl_vote vs
    obtain ⟨w, hw, hfirst, hsize, hmem⟩ :=
      exists_group_of_count (founded_foldl_vote vs) hrecords v
    rw [List.foldl_append, List.foldl_cons, List.foldl_nil] at h
    obtain ⟨hlt, hvote⟩ | ⟨old, hold, hle, hvote⟩ := vote_cases (vs.foldl vote (none, [])) v
    · obtain rfl := Option.some.inj (hvote.symm.trans h)
      refine ⟨w, vs.length, hsize ▸ elected_concat hfirst hmem fun i hi => ?_, hw⟩
      cases hleader : (vs.foldl vote (none, [])).1 with
      | none =>
        rw [hempty hleader] at hi
        cases hi
      | some old =>
        rw [hsize]
        exact (length_group_le hleader hi).trans_lt (hlt old hleader)
    · obtain rfl := Option.some.inj (hvote.symm.trans h)
      obtain ⟨w', q, helected, hw'⟩ := ih hold
      have hout : vs.length ∉ group (vs ++ [v]) w' := by
        -- the leader's group would have outgrown its own count
        intro hin
        have hlength := congrArg List.length (group_concat_of_mem helected.lt hin)
        rw [← group_eq_of_mem hin, group_eq_of_mem hmem, hsize, List.length_append,
          helected.length, List.length_singleton] at hlength
        omega
      refine ⟨w', q, helected.concat hout hmost, ?_⟩
      rw [List.getElem?_append_left helected.lt, hw']

end Tally

theorem exists_elected {vs : List Value} {v : Value} (h : mostFrequent? vs = some v) :
    ∃ size w q, Elected vs size w q ∧ vs[w]? = some v := by
  rw [Tally.mostFrequent?_eq] at h
  obtain ⟨leader, hleader, rfl⟩ := Option.map_eq_some_iff.mp h
  exact ⟨leader.2, Tally.elected_foldl_vote hleader⟩

/-- Some values elect one position, and the value there wins. The groups that
they are counted by are apart, and a value with a `NaN` in it has its own. -/
theorem plurality_winner {vs : List Value} (h : vs ≠ []) :
    (∃ size w q, Elected vs size w q) ∧
      (∀ size w q, Elected vs size w q → mostFrequent? vs = vs[w]?) ∧
      (∀ i < vs.length, i ∈ group vs i) ∧
      (∀ i j, j ∈ group vs i → group vs j = group vs i) ∧
      ∀ (i : Nat) (v : Value), vs[i]? = some v → v.hasNaN = true → group vs i = [i] := by
  obtain ⟨v, hv⟩ := exists_mostFrequent? h
  obtain ⟨size, w, q, helected, hw⟩ := exists_elected hv
  refine ⟨⟨size, w, q, helected⟩, fun size' w' q' helected' => ?_, fun i => mem_group_self,
    fun i j => group_eq_of_mem, fun i v => group_of_hasNaN⟩
  rw [← helected.eq helected', hw, hv]

/-- The two zeros are the first to be two, though `@a` comes before them, and it
is the first of the zeros that wins. -/
theorem plurality_winner_zeros :
    let vs : List Value :=
      [.label "@a", .number 0, .array [0 / 0], .number (-0), .label "@a", .array [0 / 0]]
    vs ≠ [] ∧ Elected vs 2 1 3 ∧ mostFrequent? vs = some (.number 0) := by
  intro vs
  have hne : vs ≠ [] := List.cons_ne_nil _ _
  have hother : ∀ i < vs.length, i ∉ group vs 1 → (group vs i).length = 2 →
      (group vs i)[1]? = some 4 := by
    decide +kernel
  have helected : Elected vs 2 1 3 := by
    refine ⟨by decide +kernel, by decide +kernel, by decide +kernel, by decide +kernel, ?_⟩
    intro i hi hnot hsize r hr
    obtain rfl := Option.some.inj ((hother i hi hnot hsize).symm.trans hr)
    decide
  exact ⟨hne, helected, (plurality_winner hne).2.1 2 1 3 helected⟩

end CritterScript
