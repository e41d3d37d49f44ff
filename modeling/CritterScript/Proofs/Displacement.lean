import CritterScript.Proofs.Ballots
import CritterScript.Proofs.Outbox
import Mathlib

/-!
# Messages and those of lower priority

A message never gives way to the next one if that has a lower priority. As
long as priorities are numbers this carries over to many messages: nothing
that was sent has a higher priority than what is left. A priority of `NaN`
breaks the chain, since it takes any place and gives way to any message. So a
run, or a board, may end with a message of a lower priority than one that
came before the `NaN` (`displaced_by_lower`).

`not_gt_of_recent` is what holds of all runs and boards: nothing that came
after the last `NaN` has a higher priority than what is left.
-/

namespace CritterScript

/-- No recent message has a priority above `x`. If all priorities are numbers,
or the last one is `NaN`, no message at all has. -/
structure NoneAbove (ms : List Message) (x : Float) : Prop where
  of_recent : ∀ m ∈ recent ms, ¬ m.priority > x
  of_numbers : (∀ m ∈ ms, m.priority.isNaN = false) → ∀ m ∈ ms, ¬ m.priority > x
  of_last : recent ms = [] → ∀ m ∈ ms, ¬ m.priority > x

theorem noneAbove_of_recent {ms : List Message} {x : Float}
    (h : recent ms ≠ [] → ∀ m ∈ recent ms, m.priority ≤ x)
    (hlast : recent ms = [] → x.isNaN = true) : NoneAbove ms x := by
  have hrecent : ∀ m ∈ recent ms, ¬ m.priority > x := by
    intro m hm
    exact Number.not_lt_of_le (h (List.ne_nil_of_mem hm) m hm)
  refine ⟨hrecent, fun hall => ?_, fun hnil m _ => Number.not_lt_of_isNaN_left (hlast hnil)⟩
  rwa [recent_eq_self hall] at hrecent

theorem LastGreatest.le {ms : List Message} {m n : Message} (h : LastGreatest ms m)
    (hm : m.priority.isNaN = false) (hn : n ∈ ms) : n.priority ≤ m.priority := by
  obtain ⟨before, after, rfl, hbefore, hafter⟩ := h
  obtain hn | rfl | hn := by simpa using hn
  · exact hbefore n hn
  · exact Number.le_self hm
  · exact Number.le_of_lt (hafter n hn)

/-! ## One message -/

theorem not_gt_over (old m : Message) : ¬ old.priority > (Message.over (some old) m).priority := by
  rw [Message.over]
  by_cases hgt : old.priority > m.priority
  · rw [if_pos hgt]
    exact Number.lt_irrefl _
  · rwa [if_neg hgt]

theorem not_gt_submit (b : Ballot) (m : Message) :
    ¬ b.priority > (Ballot.submit (some b) m).priority := by
  obtain ⟨x, values⟩ := b
  by_cases hlt : m.priority < x
  · rw [submit_of_lt hlt]
    exact Number.lt_irrefl x
  by_cases hbeq : (x == m.priority) = true
  · rw [submit_of_beq hlt hbeq]
    exact Number.lt_irrefl x
  · rw [submit_of_not_beq hlt (Bool.eq_false_iff.mpr hbeq)]
    exact hlt

/-! ## Many messages -/

variable {ρ : Type} [Sampler ρ]

theorem Execution.Completed.noneAbove {p : Program} {entry : Option String} {r : Registers}
    {random : ρ} {done : List Event} {x : Execution ρ}
    (h : x.Completed p (p.boot entry r random) done) {k : String} {m : Message}
    (hm : x.outcome.messages[k]? = some m) :
    NoneAbove (messagesFor k (sent done)) m.priority := by
  have hcomes := h.comesTo hm
  refine noneAbove_of_recent (fun hne n hn => ?_) fun hnil => ?_
  · have hgreatest := hcomes.of_recent hne
    exact hgreatest.le (isNaN_of_mem_recent hgreatest.mem) hn
  · obtain ⟨n, -, hnan, rfl⟩ := hcomes.of_last hnil
    exact hnan

theorem Board.noneAbove {calls : List Call} {k : String} {ballot : Ballot}
    (h : (empty.after calls).ballots[k]? = some ballot) :
    NoneAbove (messagesFor k (calls.flatMap Call.submissions)) ballot.priority := by
  have hcomes := comesTo_of_getElem?_after h
  refine noneAbove_of_recent (fun hne n hn => ?_) fun hnil => ?_
  · obtain ⟨top, -, hgreatest, rfl⟩ := hcomes.of_recent hne
    exact hgreatest n hn
  · obtain ⟨n, -, hnan, rfl⟩ := hcomes.of_last hnil
    exact hnan

/-- What is left for a key after a run, or on a board, has no lower priority
than anything that came after the last message with priority `NaN`, and than
anything at all if there was no such message or if it came last. A single
message never displaces one of higher priority. -/
theorem not_gt_of_recent :
    (∀ (p : Program) (limit : Nat) (entry : Option String) (r : Registers) (random : ρ),
      let x := p.execute limit entry r random
      ∃ done, x.Completed p (p.boot entry r random) done ∧
        ∀ (k : String) (m : Message), x.outcome.messages[k]? = some m →
          NoneAbove (messagesFor k (sent done)) m.priority) ∧
    (∀ (b : Board) (calls : List Board.Call) (k : String) (ballot : Ballot),
      (b.drain.2.after calls).ballots[k]? = some ballot →
        NoneAbove (messagesFor k (calls.flatMap Board.Call.submissions)) ballot.priority) ∧
    (∀ (o : Outbox) (key : String) (m old new : Message), o[key]? = some old →
      (o.post key m)[key]? = some new → ¬ old.priority > new.priority) ∧
    ∀ (b : Board) (key : String) (m : Message) (old new : Ballot), b.ballots[key]? = some old →
      (b.submit key m).ballots[key]? = some new → ¬ old.priority > new.priority := by
  refine ⟨?_, fun b calls k ballot h => Board.noneAbove h, ?_, ?_⟩
  · intro p limit entry r random x
    obtain ⟨done, hdone⟩ := (execute_ends p limit entry r random).exists_completed
    exact ⟨done, hdone, fun k m hm => hdone.noneAbove hm⟩
  · intro o key m old new hold hnew
    rw [getElem?_post, if_pos rfl, hold] at hnew
    rw [← Option.some.inj hnew]
    exact not_gt_over old m
  · intro b key m old new hold hnew
    rw [getElem?_submit, if_pos rfl, hold] at hnew
    rw [← Option.some.inj hnew]
    exact not_gt_submit old m

/-- Three messages of a run and of a board, the second with the highest
priority. -/
theorem not_gt_of_recent_three :
    let p : Program := ⟨#[
      ⟨.send, [.literal (.number 1), .literal (.label "@a"), .register "$k"], 0⟩,
      ⟨.send, [.literal (.number 3), .literal (.label "@b"), .register "$k"], 1⟩,
      ⟨.send, [.literal (.number 2), .literal (.label "@c"), .register "$k"], 2⟩], ∅⟩
    let x := p.execute 9 none ∅ (SplitMix.ofSeed 7)
    let calls : List Board.Call := [.submit "$k" ⟨.label "@a", 1⟩, .submit "$k" ⟨.label "@b", 3⟩,
      .submit "$k" ⟨.label "@c", 2⟩]
    x.outcome.messages["$k"]? = some ⟨.label "@b", 3⟩ ∧
      (∃ done, x.Completed p (p.boot none ∅ (SplitMix.ofSeed 7)) done ∧
        NoneAbove (messagesFor "$k" (sent done)) 3) ∧
      ∃ ballot, (Board.empty.after calls).ballots["$k"]? = some ballot ∧ ballot.priority = 3 ∧
        ∀ m ∈ messagesFor "$k" (calls.flatMap Board.Call.submissions),
          ¬ m.priority > ballot.priority := by
  intro p x calls
  have hmessage : x.outcome.messages["$k"]? = some ⟨.label "@b", 3⟩ := by decide +kernel
  have hpriority : (Board.empty.after calls).ballots["$k"]?.map Ballot.priority = some 3 := by
    decide +kernel
  obtain ⟨ballot, hballot, hthree⟩ := Option.map_eq_some_iff.mp hpriority
  obtain ⟨hruns, hboards, -⟩ := @not_gt_of_recent SplitMix _
  obtain ⟨done, hdone, hnone⟩ := hruns p 9 none ∅ (SplitMix.ofSeed 7)
  refine ⟨hmessage, ⟨done, hdone, hnone "$k" _ hmessage⟩, ballot, hballot, hthree, ?_⟩
  exact (hboards .empty calls "$k" ballot hballot).of_numbers (by decide +kernel)

/-- A run divides zero by zero, and sends with priority `5`, with that, and
with `1`: what is left has priority `1`. A board does the same. -/
theorem displaced_by_lower :
    let p : Program := ⟨#[⟨.div, [.literal (.number 0), .literal (.number 0), .register "$n"], 0⟩,
      ⟨.send, [.literal (.number 5), .literal (.label "@a"), .register "$k"], 1⟩,
      ⟨.send, [.register "$n", .literal (.label "@b"), .register "$k"], 2⟩,
      ⟨.send, [.literal (.number 1), .literal (.label "@c"), .register "$k"], 3⟩], ∅⟩
    let s := p.boot none ∅ (SplitMix.ofSeed 7)
    let x := p.execute 9 none ∅ (SplitMix.ofSeed 7)
    let sends : List Message := [⟨.label "@a", 5⟩, ⟨.label "@b", 0 / 0⟩, ⟨.label "@c", 1⟩]
    (∃ done, x.Completed p s done ∧ messagesFor "$k" (sent done) = sends) ∧
      x.outcome.messages["$k"]? = some ⟨.label "@c", 1⟩ ∧
      ((Board.empty.after (sends.map (.submit "$k"))).ballots["$k"]?.map Ballot.priority =
        some 1) ∧
      (5 : Float) > 1 := by
  intro p s x sends
  let done : List Event := [⟨p.code[0], .store "$n" (.number (0 / 0))⟩,
    ⟨p.code[1], .post "$k" ⟨.label "@a", 5⟩⟩, ⟨p.code[2], .post "$k" ⟨.label "@b", 0 / 0⟩⟩,
    ⟨p.code[3], .post "$k" ⟨.label "@c", 1⟩⟩]
  have hsteps : ∃ t, Steps p done s t ∧ p.size ≤ t.position := by
    refine ⟨_, .cons ⟨rfl, rfl, rfl⟩ (.cons ⟨rfl, rfl, rfl⟩ (.cons ⟨rfl, ?_, rfl⟩
      (.cons ⟨rfl, rfl, rfl⟩ (.nil _)))), Nat.le_refl 4⟩
    exact Instruction.effect_eq_post_iff.mpr
      ⟨rfl, congrArg Except.ok (Registers.get_set_self ∅ "$n" _), rfl, rfl⟩
  obtain ⟨t, hs, hp⟩ := hsteps
  have hx : x = ⟨t, 0 + 4, .halted⟩ := (Ends.halted hs (by decide) hp).execute_eq
  have hcompleted : x.Completed p s done := by
    rw [hx]
    exact .stopped hs rfl rfl
  exact ⟨⟨done, hcompleted, rfl⟩, by decide +kernel, by decide +kernel, by decide +kernel⟩

end CritterScript
