import CritterScript.Proofs.Ballots
import CritterScript.Tick
import Mathlib

/-!
# What a tick does

A tick is a run, and then the messages of that run written over the
registers. The messages go through a board on their way. A board that has
seen one outbox only settles on what is in it, whatever the priorities
(`get?_resolve_submitAll`), so the board leaves no trace here.

`Schedule.StartsAt` says where a tick starts. `ticks_by_execution` puts the
parts together for every tick of a sequence: the world before a tick is what
the ticks before it left behind (`ticks_succ`), and the rest is said in terms
of one run. That world is also all that a tick finds of the ticks before it:
`ticks_add` cuts a sequence of ticks in two.
-/

namespace CritterScript

/-! ## Registers over registers -/

namespace Registers

/-- Of several values set for a register, the last one stays. -/
theorem get?_setAll (r : Registers) (entries : List (String × Value)) (name : String) :
    (r.setAll entries).get? name = (entries.reverse.lookup name).or (r.get? name) := by
  rw [get?, cells_setAll, getElem?_insertMany]
  rfl

theorem get?_overlay (lower upper : Registers) (name : String) :
    (lower.overlay upper).get? name = (upper.get? name).or (lower.get? name) := by
  have hupper : upper.toList.reverse.lookup name = upper.get? name := by
    have hself := get?_ofList_toList upper.cells name
    rwa [ofList, get?_setAll, get?_empty, Option.or_none] at hself
  rw [overlay, get?_setAll, hupper]

end Registers

/-! ## The messages of one outbox -/

theorem messagesFor_eq_nil {k : String} {sent : List (String × Message)}
    (h : ∀ m, (k, m) ∉ sent) : messagesFor k sent = [] :=
  List.eq_nil_iff_forall_not_mem.mpr fun m hm => h m (mem_messagesFor_iff.mp hm)

/-- An outbox has at most one message for a key. -/
theorem messagesFor_toList (o : Outbox) (k : String) :
    messagesFor k o.toList = o[k]?.toList := by
  cases hk : o[k]? with
  | none =>
    refine messagesFor_eq_nil fun m hm => ?_
    rw [Std.ExtTreeMap.mem_toList_iff_getElem?_eq_some, hk] at hm
    cases hm
  | some m =>
    have hmem := Std.ExtTreeMap.mem_toList_iff_getElem?_eq_some.mpr hk
    have hdistinct := Std.ExtTreeMap.distinct_keys_toList (t := o)
    obtain ⟨front, back, hsplit⟩ := List.append_of_mem hmem
    rw [hsplit] at hdistinct ⊢
    obtain ⟨-, hback, hfront⟩ := List.pairwise_append.mp hdistinct
    have hf : messagesFor k front = [] := messagesFor_eq_nil fun n hn =>
      hfront (k, n) hn (k, m) List.mem_cons_self Std.ReflCmp.compare_self
    have hb : messagesFor k back = [] := messagesFor_eq_nil fun n hn =>
      (List.pairwise_cons.mp hback).1 (k, n) hn Std.ReflCmp.compare_self
    calc messagesFor k (front ++ (k, m) :: back)
        = messagesFor k front ++ m :: messagesFor k back := by simp [messagesFor]
      _ = [m] := by rw [hf, hb, List.nil_append]

namespace Board

/-- A board that has seen one outbox settles on its messages. -/
theorem get?_resolve_submitAll (o : Outbox) (k : String) :
    (empty.submitAll o).resolve.get? k = o[k]?.map Message.value := by
  have hballot : (empty.submitAll o).ballots[k]? = kept Ballot.submit o[k]?.toList := by
    have h := getElem?_after [.outcome ⟨o, 0, false⟩] k
    rwa [List.flatMap_singleton, Call.submissions, messagesFor_toList] at h
  rw [get?_resolve, hballot]
  cases o[k]? <;> rfl

end Board

/-! ## One tick -/

/-- The position at which a tick on these registers starts. A label in the
state register takes precedence, even if the program does not have it. -/
inductive Schedule.StartsAt (c : Schedule) (p : Program) (r : Registers) : Nat → Prop
  | resumed {name : String} {position : Nat} : r.get? stateRegister = some (.label name) →
    p.label? name = some position → StartsAt c p r position
  | lost {name : String} : r.get? stateRegister = some (.label name) → p.label? name = none →
    StartsAt c p r 0
  | entered {name : String} {position : Nat} :
    (∀ other, r.get? stateRegister ≠ some (.label other)) → c.entry = some name →
    p.label? name = some position → StartsAt c p r position
  | first : (∀ other, r.get? stateRegister ≠ some (.label other)) →
    (∀ name ∈ c.entry, p.label? name = none) → StartsAt c p r 0

theorem resumption?_eq_some_iff {r : Registers} {name : String} :
    r.resumption? = some name ↔ r.get? stateRegister = some (.label name) := by
  rw [Registers.resumption?, Registers.get]
  cases hv : r.get? stateRegister with
  | none => simp [Value.label?]
  | some v => cases v <;> simp [Value.label?]

theorem Schedule.startsAt_entryFor (c : Schedule) (p : Program) (r : Registers) :
    c.StartsAt p r (p.start (c.entryFor r)) := by
  rw [Program.start, Schedule.entryFor]
  cases hstate : r.resumption? with
  | some name =>
    have hname := resumption?_eq_some_iff.mp hstate
    rw [Option.some_or, Option.bind_some]
    cases hlabel : p.label? name with
    | some position => exact .resumed hname hlabel
    | none => exact .lost hname hlabel
  | none =>
    have hother : ∀ other, r.get? stateRegister ≠ some (.label other) := by
      intro other h
      rw [resumption?_eq_some_iff.mpr h] at hstate
      cases hstate
    rw [Option.none_or]
    cases hentry : c.entry with
    | none => exact .first hother (by simp [hentry])
    | some name =>
      rw [Option.bind_some]
      cases hlabel : p.label? name with
      | some position => exact .entered hother hentry hlabel
      | none => exact .first hother (by simp [hentry, hlabel])

theorem Schedule.entryFor_of_none (c : Schedule) (h : c.entry = none) (r : Registers) :
    c.entryFor r = r.resumption? := by
  rw [entryFor, h, Option.or_none]

variable {ρ : Type} [Sampler ρ]

/-- The run of a tick. -/
def Program.tickRun (p : Program) (c : Schedule) (w : World ρ) : Execution ρ :=
  p.execute c.limit (c.entryFor w.registers) w.registers w.random

theorem get?_tick (p : Program) (c : Schedule) (tick : Nat) (w : World ρ) (name : String) :
    (p.tick c tick w).2.registers.get? name =
      ((p.tickRun c w).outcome.messages[name]?.map Message.value).or
        ((p.tickRun c w).machine.registers.get? name) := by
  rw [← Board.get?_resolve_submitAll, ← Registers.get?_overlay]
  rfl

/-! ## Many ticks -/

theorem ticksFrom_succ (p : Program) (c : Schedule) (count first : Nat) (past : List Report)
    (w : World ρ) :
    p.ticksFrom c (count + 1) first past w =
      ((p.ticksFrom c count first past w).1 ++
          [(p.tick c (first + count) (p.ticksFrom c count first past w).2).1],
        (p.tick c (first + count) (p.ticksFrom c count first past w).2).2) := by
  induction count generalizing first past w with
  | zero => simp [Program.ticksFrom]
  | succ count ih =>
    have hfirst : ∀ n, p.ticksFrom c (n + 1) first past w =
        p.ticksFrom c n (first + 1) ((p.tick c first w).1 :: past) (p.tick c first w).2 :=
      fun _ => rfl
    rw [hfirst, ih, ← hfirst, show first + 1 + count = first + (count + 1) by omega]

/-- The last of several ticks works on what the others left. -/
theorem ticks_succ (p : Program) (c : Schedule) (count : Nat) (w : World ρ) :
    p.ticks c (count + 1) w =
      ((p.ticks c count w).1 ++ [(p.tick c count (p.ticks c count w).2).1],
        (p.tick c count (p.ticks c count w).2).2) := by
  rw [Program.ticks, ticksFrom_succ, Nat.zero_add]
  rfl

theorem length_ticks (p : Program) (c : Schedule) (count : Nat) (w : World ρ) :
    (p.ticks c count w).1.length = count := by
  induction count with
  | zero => rfl
  | succ count ih => rw [ticks_succ, List.length_append, ih, List.length_singleton]

theorem getElem?_ticks (p : Program) (c : Schedule) {k count : Nat} (h : k < count)
    (w : World ρ) :
    (p.ticks c count w).1[k]? = some (p.tick c k (p.ticks c k w).2).1 := by
  induction count with
  | zero => omega
  | succ count ih =>
    have hlength := length_ticks p c count w
    rw [ticks_succ]
    by_cases hk : k < count
    · rw [List.getElem?_append_left (by omega)]
      exact ih hk
    · obtain rfl : k = count := by omega
      rw [List.getElem?_append_right (by omega)]
      simp [hlength]

/-- Every tick of a sequence is one run from where the tick starts, on what
the ticks before it left. The report has the outcome and the fault of that
run. However it ended, the registers afterwards are those of the run, but for
the keys of its messages, which hold the values of these. Without a configured
entry the run is one that resumes. -/
theorem ticks_by_execution (p : Program) (c : Schedule) (count : Nat) (w : World ρ) :
    (p.ticks c 0 w).2 = w ∧ (p.ticks c count w).1.length = count ∧
      ∀ k < count,
        let before := (p.ticks c k w).2
        let after := (p.ticks c (k + 1) w).2
        let entry := c.entryFor before.registers
        let x := p.execute c.limit entry before.registers before.random
        c.StartsAt p before.registers (p.start entry) ∧
          (c.entry = none → x = p.resume c.limit before.registers before.random) ∧
          (p.ticks c count w).1[k]? = some ⟨k, x.outcome, x.fault?⟩ ∧
          after.random = x.machine.random ∧
          (∀ key m, x.outcome.messages[key]? = some m →
            after.registers.get? key = some m.value) ∧
          ∀ name, name ∉ x.outcome.messages →
            after.registers.get? name = x.machine.registers.get? name := by
  refine ⟨rfl, length_ticks p c count w, fun k hk => ?_⟩
  intro before after entry x
  have hafter : after = (p.tick c k before).2 := congrArg Prod.snd (ticks_succ p c k w)
  have hget : ∀ name, after.registers.get? name =
      (x.outcome.messages[name]?.map Message.value).or (x.machine.registers.get? name) := by
    intro name
    rw [hafter]
    exact get?_tick p c k before name
  refine ⟨c.startsAt_entryFor p before.registers, ?_, getElem?_ticks p c hk w, ?_, ?_, ?_⟩
  · intro hentry
    have hresume : entry = before.registers.resumption? := c.entryFor_of_none hentry _
    rw [Program.resume, ← hresume]
  · rw [hafter]
    rfl
  · intro key m hm
    rw [hget, hm]
    rfl
  · intro name hname
    rw [hget, Std.ExtTreeMap.getElem?_eq_none hname]
    rfl

/-- The state register holds a label that the program does not have, so the
first tick starts at the top, in spite of the entry, and faults at the end. It
has sent a label to the state register, with priority `NaN`, and something to
a register that it has written before. The second tick goes on at that
label. -/
theorem ticks_by_execution_lost :
    let p : Program := ⟨#[⟨.div, [.literal (.number 0), .literal (.number 0), .register "$n"], 0⟩,
      ⟨.send, [.register "$n", .literal (.label "@end"), .register "$state"], 1⟩,
      ⟨.send, [.literal (.number 1), .literal (.label "@x"), .register "$n"], 2⟩,
      ⟨.jmp, [.literal .null], 3⟩], .ofList [("@alt", 2), ("@end", 3)]⟩
    let c : Schedule := ⟨9, some "@alt"⟩
    let w : World SplitMix := ⟨(∅ : Registers).set "$state" (.label "@gone"), .ofSeed 7⟩
    let after := (p.ticks c 1 w).2
    let x := p.execute 9 (c.entryFor w.registers) w.registers w.random
    let y := p.execute 9 (c.entryFor after.registers) after.registers after.random
    c.StartsAt p w.registers 0 ∧ (p.ticks c 2 w).1[0]? = some ⟨0, x.outcome, x.fault?⟩ ∧
      x.cycles = 4 ∧ x.fault? = some ⟨.badJumpTarget .jmp .null, 3⟩ ∧
      x.outcome.messages["$state"]? = some ⟨.label "@end", 0 / 0⟩ ∧
      after.registers.get? "$state" = some (.label "@end") ∧
      after.registers.get? "$n" = some (.label "@x") ∧
      c.StartsAt p after.registers 3 ∧
      (p.ticks c 2 w).1[1]? = some ⟨1, y.outcome, y.fault?⟩ ∧ y.cycles = 1 := by
  intro p c w after x y
  obtain ⟨-, -, hticks⟩ := ticks_by_execution p c 2 w
  obtain ⟨hstart, -, hfirst, -, hkeys, -⟩ := hticks 0 (by decide)
  obtain ⟨hstart', -, hsecond, -⟩ := hticks 1 (by decide)
  have hstate : x.outcome.messages["$state"]? = some ⟨.label "@end", 0 / 0⟩ := by decide +kernel
  have hn : x.outcome.messages["$n"]? = some ⟨.label "@x", 1⟩ := by decide +kernel
  refine ⟨hstart, hfirst, by decide +kernel, by decide +kernel, hstate, hkeys _ _ hstate,
    hkeys _ _ hn, hstart', hsecond, by decide +kernel⟩

/-! ## Sequences of ticks -/

/-- The report, if its tick comes `n` ticks later. -/
def Report.later (n : Nat) (r : Report) : Report :=
  { r with tick := r.tick + n }

/-- What happens in a tick does not depend on its number. -/
theorem tick_add (p : Program) (c : Schedule) (n k : Nat) (w : World ρ) :
    p.tick c (n + k) w = ((p.tick c k w).1.later n, (p.tick c k w).2) := by
  simp only [Program.tick, Report.later, Nat.add_comm n]

/-- Ticks go on from the world that the ticks before them left, and from
nothing else. -/
theorem ticks_add (p : Program) (c : Schedule) (a b : Nat) (w : World ρ) :
    p.ticks c (a + b) w =
      ((p.ticks c a w).1 ++ (p.ticks c b (p.ticks c a w).2).1.map (Report.later a),
        (p.ticks c b (p.ticks c a w).2).2) := by
  induction b with
  | zero => simp [Program.ticks, Program.ticksFrom]
  | succ b ih =>
    rw [← Nat.add_assoc, ticks_succ, ih, ticks_succ p c b]
    simp only [tick_add, List.map_append, List.map_cons, List.map_nil, List.append_assoc]

theorem drop_ticks_add (p : Program) (c : Schedule) (a b : Nat) (w : World ρ) :
    (p.ticks c (a + b) w).1.drop a =
      (p.ticks c b (p.ticks c a w).2).1.map (Report.later a) := by
  rw [ticks_add, List.drop_left' (length_ticks p c a w)]

/-- Running `a + b` ticks is running `a` of them and then `b` on the world that
those left, with reports that are counted on, down to single ticks. So what
comes behind `a` ticks of one history and behind `n` ticks of another is the
same, however those ended, if they left the same world. The reports of fewer
ticks are the first of those of more. -/
theorem ticks_in_succession (p : Program) (c : Schedule) (a b : Nat) (w : World ρ) :
    p.ticks c 1 w = ([(p.tick c 0 w).1], (p.tick c 0 w).2) ∧
      p.ticks c (a + b) w =
        ((p.ticks c a w).1 ++ (p.ticks c b (p.ticks c a w).2).1.map (Report.later a),
          (p.ticks c b (p.ticks c a w).2).2) ∧
      (∀ (n : Nat) (w' : World ρ), (p.ticks c n w').2 = (p.ticks c a w).2 →
        (p.ticks c (n + b) w').2 = (p.ticks c (a + b) w).2 ∧
          ∃ reports : List Report,
            (p.ticks c (a + b) w).1.drop a = reports.map (Report.later a) ∧
              (p.ticks c (n + b) w').1.drop n = reports.map (Report.later n)) ∧
      ∀ n, a ≤ n → (p.ticks c a w).1 <+: (p.ticks c n w).1 := by
  refine ⟨rfl, ticks_add p c a b w, ?_, ?_⟩
  · intro n w' hworld
    refine ⟨by simp only [ticks_add, hworld], (p.ticks c b (p.ticks c a w).2).1, ?_, ?_⟩
    · exact drop_ticks_add p c a b w
    · rw [drop_ticks_add, hworld]
  · intro n hn
    obtain ⟨m, rfl⟩ := Nat.exists_eq_add_of_le hn
    rw [ticks_add]
    exact List.prefix_append ..

/-- Two histories of one tick that ends in a fault and in a timeout, with the
same world after it. The second tick draws a number and sends it. -/
theorem ticks_in_succession_fault_timeout :
    let p : Program := ⟨#[⟨.mov, [.literal (.label "@c"), .register "$state"], 0⟩,
      ⟨.jmp, [.literal .null], 1⟩,
      ⟨.mov, [.literal (.label "@c"), .register "$state"], 3⟩,
      ⟨.jmp, [.literal (.label "@d")], 5⟩,
      ⟨.rand, [.register "$x"], 7⟩,
      ⟨.send, [.literal (.number 1), .register "$x", .register "$y"], 8⟩],
      .ofList [("@b", 2), ("@c", 4), ("@d", 3)]⟩
    let c : Schedule := ⟨9, none⟩
    let w : World SplitMix := ⟨(∅ : Registers).set "$state" (.label "@a"), .ofSeed 7⟩
    let w' : World SplitMix := ⟨(∅ : Registers).set "$state" (.label "@b"), .ofSeed 7⟩
    ((p.ticks c 1 w).1.map fun r => (r.fault.isSome, r.outcome.timeout)) = [(true, false)] ∧
      ((p.ticks c 1 w').1.map fun r => (r.fault.isSome, r.outcome.timeout)) = [(false, true)] ∧
      (p.ticks c 1 w').2 = (p.ticks c 1 w).2 ∧
      (p.ticks c (1 + 1) w').2 = (p.ticks c (1 + 1) w).2 ∧
      (p.ticks c (1 + 1) w').1.drop 1 = (p.ticks c (1 + 1) w).1.drop 1 ∧
      (p.ticks c 1 w).1 <+: (p.ticks c 2 w).1 ∧
      (p.ticks c 2 w).2.registers.contains "$y" = true := by
  intro p c w w'
  have hworld : (p.ticks c 1 w').2 = (p.ticks c 1 w).2 := by rfl
  obtain ⟨-, -, hlater, hfirst⟩ := ticks_in_succession p c 1 1 w
  obtain ⟨hend, reports, hreports, hreports'⟩ := hlater 1 w' hworld
  exact ⟨by decide +kernel, by decide +kernel, hworld, hend, hreports'.trans hreports.symm,
    hfirst 2 (by decide), by decide +kernel⟩

end CritterScript
