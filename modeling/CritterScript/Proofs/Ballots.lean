import CritterScript.Machine.Run
import CritterScript.Proofs.Priorities
import CritterScript.Proofs.Votes
import Mathlib

/-!
# What a board settles on

A board is filled by single messages and by whole outboxes (`Board.Call`),
which come to one list of submissions. The ballot for a key depends only on
the submissions for that key (`Board.getElem?_after`), and by what is known of
many messages it has those that count. `drain_of_calls` says what this means
for the values that the board settles on.
-/

namespace CritterScript

/-! ## Registers from a table -/

theorem Registers.cells_setAll (r : Registers) (entries : List (String × Value)) :
    (r.setAll entries).cells = r.cells.insertMany entries := by
  rw [Std.ExtTreeMap.insertMany_list_eq_foldl, Registers.setAll]
  induction entries generalizing r with
  | nil => rfl
  | cons entry entries ih => exact ih (r.set entry.1 entry.2)

/-- Of several entries for a name, the last one stays. -/
theorem getElem?_insertMany {α : Type} (t : NameTable α) (entries : List (String × α))
    (name : String) :
    (t.insertMany entries)[name]? = (entries.reverse.lookup name).or t[name]? := by
  induction entries generalizing t with
  | nil =>
    rw [Std.ExtTreeMap.insertMany_nil]
    rfl
  | cons entry entries ih =>
    obtain ⟨key, v⟩ := entry
    rw [Std.ExtTreeMap.insertMany_cons, ih, List.reverse_cons, List.lookup_append, Option.or_assoc,
      Std.ExtTreeMap.getElem?_insert]
    congr 1
    by_cases hname : key = name
    · simp [hname]
    · have hbeq : (name == key) = false := beq_eq_false_iff_ne.mpr (Ne.symm hname)
      simp [List.lookup_cons, hname, hbeq]

/-- A table made of entries for different names has just these entries. -/
theorem getElem?_insertMany_eq_some_iff {α : Type} {entries : List (String × α)}
    (h : entries.Pairwise fun a b => ¬ compare a.1 b.1 = .eq) {k : String} {v : α} :
    ((∅ : NameTable α).insertMany entries)[k]? = some v ↔ (k, v) ∈ entries := by
  have hmem : ∀ {w}, (k, w) ∈ entries → ((∅ : NameTable α).insertMany entries)[k]? = some w :=
    Std.ExtTreeMap.getElem?_insertMany_list_of_mem Std.ReflCmp.compare_self h
  refine ⟨fun hv => ?_, hmem⟩
  by_cases hk : k ∈ entries.map Prod.fst
  · obtain ⟨⟨_, w⟩, hw, rfl⟩ := List.mem_map.mp hk
    rw [hmem hw, Option.some_inj] at hv
    rwa [← hv]
  · rw [Std.ExtTreeMap.getElem?_insertMany_list_of_contains_eq_false (by simpa using hk),
      Std.ExtTreeMap.getElem?_empty] at hv
    cases hv

theorem Registers.get?_ofList_eq_some_iff {entries : List (String × Value)}
    (h : entries.Pairwise fun a b => ¬ compare a.1 b.1 = .eq) {k : String} {v : Value} :
    (Registers.ofList entries).get? k = some v ↔ (k, v) ∈ entries := by
  rw [Registers.get?, Registers.ofList, Registers.cells_setAll]
  exact getElem?_insertMany_eq_some_iff h

/-- The registers of the entries of a table are that table. -/
theorem Registers.get?_ofList_toList (t : NameTable Value) (k : String) :
    (Registers.ofList t.toList).get? k = t[k]? := by
  refine Option.ext fun v => ?_
  rw [Registers.get?_ofList_eq_some_iff Std.ExtTreeMap.distinct_keys_toList,
    Std.ExtTreeMap.mem_toList_iff_getElem?_eq_some]

/-! ## The most frequent value -/

theorem exists_leader (state : Option (Value × Nat) × Tally) (v : Value) :
    ∃ leader, (Tally.vote state v).1 = some leader := by
  rw [Tally.vote]
  cases state.1 with
  | none => exact ⟨_, rfl⟩
  | some leader =>
    by_cases hgt : (state.2.count v).1.2 > leader.2
    · exact ⟨_, if_pos hgt⟩
    · exact ⟨_, if_neg hgt⟩

/-- Among some values there is a most frequent one. -/
theorem exists_mostFrequent? {values : List Value} (h : values ≠ []) :
    ∃ v, mostFrequent? values = some v := by
  rw [← List.dropLast_append_getLast h, Tally.mostFrequent?_eq, List.foldl_append,
    List.foldl_cons, List.foldl_nil]
  obtain ⟨leader, hleader⟩ := exists_leader (values.dropLast.foldl Tally.vote (none, []))
    (values.getLast h)
  exact ⟨leader.1, by rw [hleader, Option.map_some]⟩

/-! ## Calls -/

namespace Board

/-- A call that fills a board: one message, or all messages of a run. -/
inductive Call where
  | submit (key : String) (m : Message)
  | outcome (o : Outcome)

/-- The messages that a call submits, in this order. -/
def Call.submissions : Call → List (String × Message)
  | .submit key m => [(key, m)]
  | .outcome o => o.messages.toList

/-- The board after a call. -/
def call (b : Board) : Call → Board
  | .submit key m => b.submit key m
  | .outcome o => b.submitAll o.messages

/-- The board after calls that come in turn. -/
def after (b : Board) (calls : List Call) : Board :=
  calls.foldl call b

theorem after_eq_foldl_submit (b : Board) (calls : List Call) :
    b.after calls =
      (calls.flatMap Call.submissions).foldl (fun b s => b.submit s.1 s.2) b := by
  rw [after, List.foldl_flatMap]
  congr 1
  funext b c
  cases c <;> rfl

/-- The ballot for a key has what is kept of the submissions for that key. -/
theorem getElem?_after (calls : List Call) (k : String) :
    (empty.after calls).ballots[k]? =
      kept Ballot.submit (messagesFor k (calls.flatMap Call.submissions)) := by
  rw [after_eq_foldl_submit]
  exact @foldl_eq_kept _ _ _ k (fun b : Board => b.ballots[k]?) _
    (fun b s => getElem?_submit b s.1 k s.2) _ _ Std.ExtTreeMap.getElem?_empty

/-- A ballot that counts some messages has a value. -/
theorem values_ne_nil_of_comesTo {ms : List Message} {ballot : Ballot}
    (h : ComesTo Ballot.submit Ballot.Counts ms ballot) : ballot.values ≠ [] := by
  by_cases hnil : recent ms = []
  · obtain ⟨m, -, -, rfl⟩ := h.of_last hnil
    exact List.cons_ne_nil _ _
  · obtain ⟨top, htop, hgreatest, rfl⟩ := h.of_recent hnil
    have hmem : top ∈ (recent ms).filter (·.priority == top.priority) :=
      List.mem_filter.mpr ⟨htop, Number.beq_self (isNaN_of_mem_recent htop)⟩
    exact List.ne_nil_of_mem (List.mem_map_of_mem hmem)

/-- A board settles, for each key, on the most frequent value of its
ballot. -/
theorem get?_resolve (b : Board) (k : String) :
    b.resolve.get? k =
      b.ballots[k]?.map fun ballot => (mostFrequent? ballot.values).getD .null := by
  have hresolve : b.resolve = .ofList
      (b.ballots.map fun _ ballot => (mostFrequent? ballot.values).getD .null).toList := by
    rw [Std.ExtTreeMap.toList_map]
    rfl
  rw [hresolve, Registers.get?_ofList_toList, Std.ExtTreeMap.getElem?_map]

theorem contains_resolve_iff (b : Board) (k : String) :
    b.resolve.contains k = true ↔ ∃ ballot, b.ballots[k]? = some ballot := by
  have hcontains : b.resolve.contains k = (b.resolve.get? k).isSome :=
    Std.ExtTreeMap.contains_eq_isSome_getElem?
  rw [hcontains, get?_resolve, Option.isSome_map, Option.isSome_iff_exists]

theorem comesTo_of_getElem?_after {calls : List Call} {k : String} {ballot : Ballot}
    (h : (empty.after calls).ballots[k]? = some ballot) :
    ComesTo Ballot.submit Ballot.Counts (messagesFor k (calls.flatMap Call.submissions))
      ballot := by
  rw [getElem?_after] at h
  exact (comesTo_kept keeps_submit _).2 ballot h

theorem exists_ballot_iff (calls : List Call) (k : String) :
    (∃ ballot, (empty.after calls).ballots[k]? = some ballot) ↔
      messagesFor k (calls.flatMap Call.submissions) ≠ [] := by
  rw [getElem?_after, ← Option.ne_none_iff_exists', ne_eq, (comesTo_kept keeps_submit _).1]

/-- The value for a key with submissions is the most frequent one of what they
come to. -/
theorem exists_get?_resolve {calls : List Call} {k : String}
    (h : messagesFor k (calls.flatMap Call.submissions) ≠ []) :
    ∃ ballot, ComesTo Ballot.submit Ballot.Counts
        (messagesFor k (calls.flatMap Call.submissions)) ballot ∧
      (empty.after calls).resolve.get? k = mostFrequent? ballot.values := by
  obtain ⟨ballot, hballot⟩ := (exists_ballot_iff calls k).mpr h
  have hcomes := comesTo_of_getElem?_after hballot
  obtain ⟨v, hv⟩ := exists_mostFrequent? (values_ne_nil_of_comesTo hcomes)
  refine ⟨ballot, hcomes, ?_⟩
  rw [get?_resolve, hballot, Option.map_some, hv, Option.getD_some]

theorem contains_resolve_after_iff (calls : List Call) (k : String) :
    (empty.after calls).resolve.contains k = true ↔
      ∃ m, (k, m) ∈ calls.flatMap Call.submissions := by
  rw [contains_resolve_iff, exists_ballot_iff]
  constructor
  · intro hne
    obtain ⟨m, hm⟩ := List.exists_mem_of_ne_nil _ hne
    exact ⟨m, mem_messagesFor_iff.mp hm⟩
  · rintro ⟨m, hm⟩
    exact List.ne_nil_of_mem (mem_messagesFor_iff.mpr hm)

theorem get?_resolve_of_recent {calls : List Call} {k : String}
    (h : recent (messagesFor k (calls.flatMap Call.submissions)) ≠ []) :
    ∃ top ∈ recent (messagesFor k (calls.flatMap Call.submissions)),
      (∀ m ∈ recent (messagesFor k (calls.flatMap Call.submissions)),
        m.priority ≤ top.priority) ∧
      (empty.after calls).resolve.get? k =
        mostFrequent? (((recent (messagesFor k (calls.flatMap Call.submissions))).filter
          (·.priority == top.priority)).map Message.value) := by
  have hms : messagesFor k (calls.flatMap Call.submissions) ≠ [] := by
    intro hnil
    rw [hnil] at h
    exact h rfl
  obtain ⟨ballot, hcomes, hget⟩ := exists_get?_resolve hms
  obtain ⟨top, htop, hgreatest, rfl⟩ := hcomes.of_recent h
  exact ⟨top, htop, hgreatest, hget⟩

theorem get?_resolve_of_last {calls : List Call} {k : String} {m : Message}
    (h : recent (messagesFor k (calls.flatMap Call.submissions)) = [])
    (hm : (messagesFor k (calls.flatMap Call.submissions)).getLast? = some m) :
    m.priority.isNaN = true ∧ (empty.after calls).resolve.get? k = mostFrequent? [m.value] := by
  have hms : messagesFor k (calls.flatMap Call.submissions) ≠ [] := by
    intro hnil
    rw [hnil] at hm
    cases hm
  obtain ⟨ballot, hcomes, hget⟩ := exists_get?_resolve hms
  obtain ⟨n, hn, hnan, rfl⟩ := hcomes.of_last h
  obtain rfl : m = n := Option.some.inj (hm.symm.trans hn)
  exact ⟨hnan, hget⟩

/-- After calls on a drained board, draining it leaves it empty and gives a
value for the keys with a submission, and for no others: the most frequent
value, in order of submission, of those submissions that have the greatest
priority after the last one with priority `NaN`, or the value of that one if
there are none after it. No ballot is ever without values. -/
theorem drain_of_calls (b : Board) (calls : List Call) :
    let filled := b.drain.2.after calls
    let submissions := calls.flatMap Call.submissions
    filled.drain.2 = empty ∧
    (∀ k, filled.drain.1.contains k = true ↔ ∃ m, (k, m) ∈ submissions) ∧
    (∀ (k : String) (ballot : Ballot), filled.ballots[k]? = some ballot →
      ballot.values ≠ [] ∧ ∃ v, mostFrequent? ballot.values = some v) ∧
    ∀ k,
      let ms := messagesFor k submissions
      (recent ms ≠ [] → ∃ top ∈ recent ms, (∀ m ∈ recent ms, m.priority ≤ top.priority) ∧
        filled.drain.1.get? k =
          mostFrequent? (((recent ms).filter (·.priority == top.priority)).map Message.value)) ∧
      (recent ms = [] → ∀ m, ms.getLast? = some m →
        m.priority.isNaN = true ∧ filled.drain.1.get? k = mostFrequent? [m.value]) := by
  intro filled submissions
  refine ⟨rfl, contains_resolve_after_iff calls, ?_, ?_⟩
  · intro k ballot hballot
    have hvalues := values_ne_nil_of_comesTo (comesTo_of_getElem?_after hballot)
    exact ⟨hvalues, exists_mostFrequent? hvalues⟩
  · intro k ms
    exact ⟨get?_resolve_of_recent, fun hnil m hm => get?_resolve_of_last hnil hm⟩

/-- Two of three votes of the greatest priority are for `@b`, one of them from
the outbox of a run. The other key has a message with priority `NaN`. -/
theorem drain_of_calls_two_keys :
    let outbox : Outbox := (Outbox.post ∅ "$l" ⟨.null, 0 / 0⟩).post "$k" ⟨.label "@b", 2⟩
    let calls : List Call := [.submit "$k" ⟨.label "@a", 2⟩, .outcome ⟨outbox, 3, false⟩,
      .submit "$k" ⟨.label "@c", 1⟩, .submit "$k" ⟨.label "@b", 2⟩]
    let filled := empty.after calls
    let submissions := calls.flatMap Call.submissions
    filled.drain.1.get? "$k" = some (.label "@b") ∧ filled.drain.1.get? "$l" = some .null ∧
      (∃ top ∈ recent (messagesFor "$k" submissions),
        filled.drain.1.get? "$k" = mostFrequent? (((recent (messagesFor "$k" submissions)).filter
          (·.priority == top.priority)).map Message.value)) ∧
      filled.drain.1.get? "$l" = mostFrequent? [.null] := by
  intro outbox calls filled submissions
  obtain ⟨-, -, -, hget⟩ := drain_of_calls empty calls
  obtain ⟨top, htop, -, hk⟩ := (hget "$k").1 (by decide +kernel)
  obtain ⟨-, hl⟩ := (hget "$l").2 (by decide +kernel) ⟨.null, 0 / 0⟩ (by decide +kernel)
  exact ⟨by decide +kernel, by decide +kernel, ⟨top, htop, hk⟩, hl⟩

end Board

end CritterScript
