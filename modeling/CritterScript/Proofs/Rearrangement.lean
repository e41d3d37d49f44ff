import CritterScript.Proofs.Ballots
import CritterScript.Proofs.Votes
import Mathlib

/-!
# Submissions in another order

Agents submit their messages in some order, and a board settles ties by that
order. Apart from ties the order does not matter: submissions for different
keys do not meet (`Board.submit_comm`), and a value that most submissions of
the greatest priority are for (`Elects`) is what the board settles on in
whatever order they come. `drain_of_rearranged` says so of two submissions,
of all submissions for one key, and of whole rounds of calls.

Values count up to equality as numbers compare, and there must be no `NaN`
among priorities and values.
-/

namespace CritterScript

/-! ## The messages that count -/

/-- The messages that have the greatest priority. -/
def foremost (ms : List Message) : List Message :=
  ms.filter fun m => ms.all fun n => n.priority ≤ m.priority

theorem mem_foremost_iff {ms : List Message} {m : Message} :
    m ∈ foremost ms ↔ m ∈ ms ∧ ∀ n ∈ ms, n.priority ≤ m.priority := by
  simp [foremost]

theorem filter_eq_foremost {ms : List Message} {top : Message} (htop : top ∈ ms)
    (h : ∀ m ∈ ms, m.priority ≤ top.priority) :
    ms.filter (·.priority == top.priority) = foremost ms := by
  refine List.filter_congr fun m hm => Bool.eq_iff_iff.mpr ?_
  rw [List.all_eq_true]
  constructor
  · intro hbeq n hn
    exact decide_eq_true (Number.le_trans (h n hn) (Number.le_of_beq (Number.beq_symm hbeq)))
  · intro hall
    exact Number.beq_of_le_of_le (h m hm) (of_decide_eq_true (hall top htop))

theorem foremost_perm {ms ms' : List Message} (h : ms.Perm ms') :
    (foremost ms).Perm (foremost ms') := by
  have hall : ∀ m : Message, (ms.all fun n => decide (n.priority ≤ m.priority)) =
      ms'.all fun n => decide (n.priority ≤ m.priority) := fun m => h.all_eq
  rw [foremost, foremost, funext hall]
  exact h.filter _

/-- No `NaN` is involved, and of the messages with the greatest priority more
are for `w` than for any other value. -/
structure Elects (ms : List Message) (w : Value) : Prop where
  priorities : ∀ m ∈ ms, m.priority.isNaN = false
  values : ∀ m ∈ ms, m.value.hasNaN = false
  prevails : Prevails ((foremost ms).map Message.value) w

theorem Elects.perm {ms ms' : List Message} {w : Value} (h : Elects ms w) (hp : ms.Perm ms') :
    Elects ms' w where
  priorities m hm := h.priorities m (hp.mem_iff.mpr hm)
  values m hm := h.values m (hp.mem_iff.mpr hm)
  prevails := h.prevails.perm ((foremost_perm hp).map _)

/-! ## Boards -/

namespace Board

theorem submit_comm (b : Board) {k l : String} (h : k ≠ l) (m n : Message) :
    (b.submit k m).submit l n = (b.submit l n).submit k m := by
  have hballots : ((b.submit k m).submit l n).ballots = ((b.submit l n).submit k m).ballots := by
    refine Std.ExtTreeMap.ext_getElem? fun key => ?_
    simp only [getElem?_submit]
    by_cases hk : k = key
    · have hl : l ≠ key := fun hl => h (hk.trans hl.symm)
      simp [hk, hl]
    · simp [hk]
  exact congrArg Board.mk hballots

/-- A board settles on the value that its submissions for a key elect. -/
theorem get?_resolve_of_elects {calls : List Call} {k : String} {w : Value}
    (h : Elects (messagesFor k (calls.flatMap Call.submissions)) w) :
    ∃ v, (empty.after calls).resolve.get? k = some v ∧ (v == w) = true := by
  have hrecent := recent_eq_self h.priorities
  obtain ⟨m, hm, -⟩ := List.mem_map.mp h.prevails.mem
  have hne : recent (messagesFor k (calls.flatMap Call.submissions)) ≠ [] := by
    rw [hrecent]
    exact List.ne_nil_of_mem (mem_foremost_iff.mp hm).1
  obtain ⟨top, htop, hgreatest, hget⟩ := get?_resolve_of_recent hne
  rw [hrecent] at htop hgreatest hget
  rw [hget, filter_eq_foremost htop hgreatest]
  refine h.prevails.wins fun v hv => ?_
  obtain ⟨n, hn, rfl⟩ := List.mem_map.mp hv
  exact h.values n (mem_foremost_iff.mp hn).1

theorem get?_resolve_of_nil {calls : List Call} {k : String}
    (h : messagesFor k (calls.flatMap Call.submissions) = []) :
    (empty.after calls).resolve.get? k = none := by
  rw [get?_resolve, getElem?_after, h]
  rfl

theorem messagesFor_map_submit (k : String) (ms : List Message) :
    messagesFor k ((ms.map (Call.submit k)).flatMap Call.submissions) = ms := by
  induction ms with
  | nil => rfl
  | cons m ms ih => simp_all [messagesFor, Call.submissions]

theorem messagesFor_perm {calls calls' : List Call} (h : calls.Perm calls') (k : String) :
    (messagesFor k (calls.flatMap Call.submissions)).Perm
      (messagesFor k (calls'.flatMap Call.submissions)) :=
  (h.flatMap_right _).filterMap _

/-- Two submissions for different keys may change places, whatever comes
after them. Submissions for one key may come in any order if they elect a
value: this is what the board settles on. So may all calls of a round, if each
key with submissions has a value that they elect. -/
theorem drain_of_rearranged :
    (∀ (b : Board) (k l : String) (m n : Message) (calls : List Call), k ≠ l →
      (((b.submit k m).submit l n).after calls).drain =
        (((b.submit l n).submit k m).after calls).drain) ∧
    (∀ (k : String) (ms ms' : List Message) (w : Value), Elects ms w → ms.Perm ms' →
      ∃ v, (empty.after (ms'.map (Call.submit k))).drain.1.get? k = some v ∧ (v == w) = true) ∧
    ∀ calls calls' : List Call, calls.Perm calls' →
      (∀ k, messagesFor k (calls.flatMap Call.submissions) ≠ [] →
        ∃ w, Elects (messagesFor k (calls.flatMap Call.submissions)) w) →
      ∀ k, Option.Rel (fun v v' => (v == v') = true) ((empty.after calls).drain.1.get? k)
        ((empty.after calls').drain.1.get? k) := by
  refine ⟨?_, ?_, ?_⟩
  · intro b k l m n calls h
    rw [submit_comm b h]
  · intro k ms ms' w h hp
    have helects :
        Elects (messagesFor k ((ms'.map (Call.submit k)).flatMap Call.submissions)) w := by
      rw [messagesFor_map_submit]
      exact h.perm hp
    exact get?_resolve_of_elects helects
  · intro calls calls' hp h k
    have hperm := messagesFor_perm hp k
    show Option.Rel _ ((empty.after calls).resolve.get? k) ((empty.after calls').resolve.get? k)
    by_cases hnil : messagesFor k (calls.flatMap Call.submissions) = []
    · rw [get?_resolve_of_nil hnil, get?_resolve_of_nil (hnil ▸ hperm).nil_eq.symm]
      exact .none
    · obtain ⟨w, hw⟩ := h k hnil
      obtain ⟨v, hv, hvw⟩ := get?_resolve_of_elects hw
      obtain ⟨v', hv', hvw'⟩ := get?_resolve_of_elects (hw.perm hperm)
      rw [hv, hv']
      exact .some (Value.beq_trans hvw (Value.beq_symm hvw'))

/-- Two of three votes of the greatest priority are for zero, one for each of
the two zeros. Which of them is the value depends on the order. -/
theorem drain_of_rearranged_zeros :
    let ms : List Message := [⟨.number 0, 2⟩, ⟨.number 1, 2⟩, ⟨.number (-0), 2⟩, ⟨.number 1, 1⟩]
    let calls : List Call := ms.map fun m => .outcome ⟨Outbox.post ∅ "$k" m, 1, false⟩
    ((empty.submit "$k" ⟨.null, 1⟩).submit "$l" ⟨.null, 2⟩).drain =
        ((empty.submit "$l" ⟨.null, 2⟩).submit "$k" ⟨.null, 1⟩).drain ∧
      Elects ms (.number 0) ∧
      (empty.after (ms.map (Call.submit "$k"))).drain.1.get? "$k" = some (.number 0) ∧
      (empty.after (ms.reverse.map (Call.submit "$k"))).drain.1.get? "$k" = some (.number (-0)) ∧
      (∃ v, (empty.after (ms.reverse.map (Call.submit "$k"))).drain.1.get? "$k" = some v ∧
        (v == .number 0) = true) ∧
      Option.Rel (fun v v' => (v == v') = true) ((empty.after calls).drain.1.get? "$k")
        ((empty.after calls.reverse).drain.1.get? "$k") := by
  intro ms calls
  obtain ⟨hswap, hkey, hround⟩ := drain_of_rearranged
  have hfirst : (⟨.number 0, 2⟩ : Message) ∈ foremost ms := by decide +kernel
  have helects : Elects ms (.number 0) :=
    ⟨by decide +kernel, by decide +kernel, List.mem_map_of_mem hfirst, by decide +kernel⟩
  have hsubmissions : calls.flatMap Call.submissions = ms.map ("$k", ·) := by decide +kernel
  have hround' := hround calls calls.reverse (List.reverse_perm calls).symm
  refine ⟨hswap empty "$k" "$l" _ _ [] (by decide), helects, by decide +kernel, by decide +kernel,
    hkey "$k" ms ms.reverse _ helects (List.reverse_perm ms).symm, hround' (fun k hk => ?_) "$k"⟩
  rw [hsubmissions] at hk ⊢
  by_cases h : "$k" = k
  · subst h
    exact ⟨.number 0, helects⟩
  · simp [messagesFor, h] at hk

end Board

end CritterScript
