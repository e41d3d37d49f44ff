import CritterScript.Proofs.Steps

/-!
# Two runs side by side

Two programs run in lockstep if, from states that are related, they do the
same kind of thing at every step: both are outside, or both complete an
instruction and are related afterwards, or both fail, and their faults are
related too. `Lockstep` asks this of one step, in one direction only, for a
machine does only one thing at a time; `Lockstep.run` is what follows for
whole runs with the same budget. Often one state is a function of the other;
then it is enough that what a step does commutes with that function
(`Carries.lockstep`).
-/

namespace CritterScript

/-- Two endings of one kind, with faults related by `F`. -/
inductive Ending.Alike (F : Fault → Fault → Prop) : Ending → Ending → Prop
  | halted : Ending.Alike F .halted .halted
  | timedOut : Ending.Alike F .timedOut .timedOut
  | faulted {f g : Fault} : F f g → Ending.Alike F (.faulted f) (.faulted g)

theorem Ending.Alike.eq {a b : Ending} (h : a.Alike Eq b) : a = b := by
  cases h with
  | halted => rfl
  | timedOut => rfl
  | faulted hf => rw [hf]

/-- Two runs that took as long, ended in one way, and left states related by
`R`. -/
structure Execution.Alike {ρ σ : Type} (R : Machine ρ → Machine σ → Prop)
    (F : Fault → Fault → Prop) (x : Execution ρ) (y : Execution σ) : Prop where
  machine : R x.machine y.machine
  cycles : x.cycles = y.cycles
  ending : x.ending.Alike F y.ending

theorem Execution.Alike.fault? {ρ σ : Type} {R : Machine ρ → Machine σ → Prop}
    {F : Fault → Fault → Prop} {x : Execution ρ} {y : Execution σ} (h : x.Alike R F y) :
    Option.Rel F x.fault? y.fault? := by
  obtain ⟨s, n, a⟩ := x
  obtain ⟨t, m, b⟩ := y
  obtain ⟨-, -, hending⟩ := h
  cases hending with
  | halted => exact .none
  | timedOut => exact .none
  | faulted hf => exact .some hf

theorem Execution.Alike.timeout {ρ σ : Type} {R : Machine ρ → Machine σ → Prop}
    {F : Fault → Fault → Prop} {x : Execution ρ} {y : Execution σ} (h : x.Alike R F y) :
    x.outcome.timeout = y.outcome.timeout := by
  obtain ⟨s, n, a⟩ := x
  obtain ⟨t, m, b⟩ := y
  obtain ⟨-, -, hending⟩ := h
  cases hending <;> rfl

variable {ρ σ : Type} [Sampler ρ] [Sampler σ]

/-- What a machine does in `p`, a related machine does in `q`. -/
structure Lockstep (p q : Program) (R : Machine ρ → Machine σ → Prop)
    (F : Fault → Fault → Prop) : Prop where
  halts {s : Machine ρ} {t : Machine σ} : R s t → p.size ≤ s.position → q.size ≤ t.position
  completes {e : Event} {s s' : Machine ρ} {t : Machine σ} :
    R s t → Completes p e s s' → ∃ e' t', Completes q e' t t' ∧ R s' t'
  fails {i : Instruction} {c : Cause} {s s' : Machine ρ} {t : Machine σ} :
    R s t → Fails p i c s s' →
      ∃ j d t', Fails q j d t t' ∧ R s' t' ∧ F ⟨c, i.line⟩ ⟨d, j.line⟩

namespace Lockstep

variable {p q : Program} {R : Machine ρ → Machine σ → Prop} {F : Fault → Fault → Prop}
  {s u : Machine ρ} {t : Machine σ}

theorem position_lt (h : Lockstep p q R F) (hst : R s t) (hs : s.position < p.size) :
    t.position < q.size := by
  obtain ⟨e, s', hc⟩ | ⟨i, c, s', hf⟩ := completes_or_fails s hs
  · obtain ⟨e', t', hc', -⟩ := h.completes hst hc
    exact (Array.getElem?_eq_some_iff.mp hc'.fetch).1
  · obtain ⟨j, d, t', hf', -⟩ := h.fails hst hf
    exact hf'.position_lt

theorem steps (h : Lockstep p q R F) {done : List Event} (hsteps : Steps p done s u)
    (hst : R s t) :
    ∃ done' v, Steps q done' t v ∧ done'.length = done.length ∧ R u v := by
  induction hsteps generalizing t with
  | nil => exact ⟨[], t, .nil t, rfl, hst⟩
  | cons hc _ ih =>
    obtain ⟨e', t', hc', hst'⟩ := h.completes hst hc
    obtain ⟨done', v, hdone', hlen, huv⟩ := ih hst'
    exact ⟨e' :: done', v, .cons hc' hdone', congrArg (· + 1) hlen, huv⟩

theorem ends (h : Lockstep p q R F) (hst : R s t) {budget spent : Nat} {x : Execution ρ}
    (hx : Ends p budget spent s x) : ∃ y, Ends q budget spent t y ∧ x.Alike R F y := by
  cases hx with
  | @halted done u hs hl hp =>
    obtain ⟨done', v, hs', hlen, huv⟩ := h.steps hs hst
    refine ⟨_, .halted hs' (hlen ▸ hl) (h.halts huv hp), huv, ?_, .halted⟩
    rw [hlen]
  | @timedOut done u hs hl hp =>
    obtain ⟨done', v, hs', hlen, huv⟩ := h.steps hs hst
    refine ⟨_, .timedOut hs' (hlen ▸ hl) (h.position_lt huv hp), huv, ?_, .timedOut⟩
    rw [hlen]
  | @faulted done u u' i c hs hl hf =>
    obtain ⟨done', v, hs', hlen, huv⟩ := h.steps hs hst
    obtain ⟨j, d, v', hf', huv', hfault⟩ := h.fails huv hf
    refine ⟨_, .faulted hs' (hlen ▸ hl) hf', huv', ?_, .faulted hfault⟩
    rw [hlen]

/-- Programs in lockstep give runs that are alike. -/
theorem run (h : Lockstep p q R F) (hst : R s t) (budget spent : Nat) :
    (s.run p budget spent).Alike R F (t.run q budget spent) := by
  obtain ⟨y, hy, halike⟩ := h.ends hst (run_ends p budget spent s)
  rw [hy.run_eq]
  exact halike

end Lockstep

/-- The maps carry the steps of `p` to steps of `q`: at the image of a state
stands the image of its instruction, which has the image of the effect, and to
bring this about leads to the image of the next state. -/
structure Carries (p q : Program) (state : Machine ρ → Machine ρ)
    (instruction : Instruction → Instruction) (effect : Effect → Effect) : Prop where
  halts {s : Machine ρ} : p.size ≤ s.position → q.size ≤ (state s).position
  fetch {s : Machine ρ} {i : Instruction} :
    p.code[s.position]? = some i → q.code[(state s).position]? = some (instruction i)
  draw (s : Machine ρ) (i : Instruction) : (state s).draw (instruction i) = s.draw i
  effect_eq (s : Machine ρ) (i : Instruction) (sample : Float) :
    (instruction i).effect q (state s).registers sample =
      (i.effect p s.registers sample).map effect
  drawn (s : Machine ρ) (random : ρ) :
    { state s with random := random } = state { s with random := random }
  apply (s : Machine ρ) (e : Effect) : (state s).apply (effect e) = state (s.apply e)

/-- Faults are related if they have the same cause at an instruction and its
image. -/
theorem Carries.lockstep {p q : Program} {state : Machine ρ → Machine ρ}
    {instruction : Instruction → Instruction} {effect : Effect → Effect}
    {F : Fault → Fault → Prop} (h : Carries p q state instruction effect)
    (hfault : ∀ c i, F ⟨c, i.line⟩ ⟨c, (instruction i).line⟩) :
    Lockstep p q (fun s t => t = state s) F where
  halts := by
    rintro s _ rfl hs
    exact h.halts hs
  completes := by
    rintro e s s' _ rfl hc
    refine ⟨⟨instruction e.instruction, effect e.effect⟩, _, .of_effect (h.fetch hc.fetch) ?_ rfl,
      ?_⟩
    · rw [h.draw, h.effect_eq, hc.effect]
      rfl
    · rw [hc.result, h.draw, h.drawn, h.apply]
  fails := by
    rintro i c s s' _ rfl hf
    refine ⟨instruction i, c, _, .of_effect (h.fetch hf.fetch) ?_ rfl, ?_, hfault c i⟩
    · rw [h.draw, h.effect_eq, hf.effect]
      rfl
    · rw [hf.result, h.draw, h.drawn]

end CritterScript
