import CritterScript.Proofs.Grammar
import CritterScript.Proofs.Lockstep

/-!
# Layout

Blanks, comments, blank lines, carriage returns and the letter case of opcodes
are layout: `SameScript` relates two scripts that differ in nothing else, and
`Corresponding` pairs the numbers of their lines.

Such scripts are read alike, and the programs are the same up to the line
numbers of their instructions (`Program.Renumbered`). Machines never look at
line numbers, so these programs run in lockstep (`Program.Renumbered.lockstep`).
`layout_independent` puts the two together.
-/

namespace CritterScript

/-! ## Programs up to line numbers -/

/-- The same instruction on lines related by `L`. -/
structure Instruction.Renumbered (L : Nat → Nat → Prop) (i j : Instruction) : Prop where
  opcode : i.opcode = j.opcode
  operands : i.operands = j.operands
  line : L i.line j.line

inductive Line.Renumbered (L : Nat → Nat → Prop) : Line → Line → Prop
  | blank : Line.Renumbered L .blank .blank
  | label (name : String) : Line.Renumbered L (.label name) (.label name)
  | instruction {i j : Instruction} :
    i.Renumbered L j → Line.Renumbered L (.instruction i) (.instruction j)

/-- The same labels, and the same instructions on lines related by `L`. -/
structure Program.Renumbered (L : Nat → Nat → Prop) (p q : Program) : Prop where
  code : List.Forall₂ (Instruction.Renumbered L) p.code.toList q.code.toList
  labels : p.labels = q.labels

section Renumbered

variable {L : Nat → Nat → Prop} {p q : Program}

theorem Line.Renumbered.imp {M : Nat → Nat → Prop} {l m : Line} (h : l.Renumbered L m)
    (hLM : ∀ a b, L a b → M a b) : l.Renumbered M m := by
  cases h with
  | blank => exact .blank
  | label name => exact .label name
  | instruction hi => exact .instruction ⟨hi.opcode, hi.operands, hLM _ _ hi.line⟩

theorem Program.Renumbered.size_eq (h : p.Renumbered L q) : p.size = q.size :=
  h.code.length_eq

theorem Program.Renumbered.fetch (h : p.Renumbered L q) {k : Nat} {i : Instruction}
    (hi : p.code[k]? = some i) : ∃ j, q.code[k]? = some j ∧ i.Renumbered L j := by
  rw [← Array.getElem?_toList] at hi ⊢
  exact exists_getElem?_of_forall₂ h.code hi

theorem Program.Renumbered.add (h : p.Renumbered L q) {l m : Line} (hlm : l.Renumbered L m) :
    (p.add l).Renumbered L (q.add m) := by
  cases hlm with
  | blank => exact h
  | label name =>
    refine ⟨h.code, ?_⟩
    show p.labels.insert name p.size = q.labels.insert name q.size
    rw [h.labels, h.size_eq]
  | @instruction i j hij =>
    refine ⟨?_, h.labels⟩
    show List.Forall₂ _ (p.code.push i).toList (q.code.push j).toList
    rw [Array.toList_push, Array.toList_push]
    exact List.rel_append h.code (.cons hij .nil)

theorem Program.Renumbered.foldl_add {ls ms : List Line}
    (hlines : List.Forall₂ (Line.Renumbered L) ls ms) (h : p.Renumbered L q) :
    (ls.foldl Program.add p).Renumbered L (ms.foldl Program.add q) := by
  induction hlines generalizing p q with
  | nil => exact h
  | cons hlm _ ih => exact ih (h.add hlm)

theorem renumbered_ofLines {ls ms : List Line}
    (hlines : List.Forall₂ (Line.Renumbered L) ls ms) :
    (Program.ofLines ls).Renumbered L (Program.ofLines ms) :=
  Program.Renumbered.foldl_add hlines ⟨.nil, rfl⟩

theorem Program.Renumbered.opcodes_operands_eq (h : p.Renumbered L q) :
    p.code.toList.map (fun i => (i.opcode, i.operands)) =
      q.code.toList.map fun i => (i.opcode, i.operands) := by
  rw [← List.forall₂_eq_eq_eq, List.forall₂_map_left_iff, List.forall₂_map_right_iff]
  exact h.code.imp fun i j hij => Prod.ext hij.opcode hij.operands

/-- What an instruction does depends neither on its line nor on those of the
program. -/
theorem Program.Renumbered.effect_eq (h : p.Renumbered L q) {i j : Instruction}
    (hij : i.Renumbered L j) (r : Registers) (sample : Float) :
    i.effect p r sample = j.effect q r sample := by
  have hsize := h.size_eq
  obtain ⟨code, labels⟩ := p
  obtain ⟨code', labels'⟩ := q
  obtain ⟨op, operands, line⟩ := i
  obtain ⟨op', operands', line'⟩ := j
  obtain rfl : labels = labels' := h.labels
  obtain rfl : op = op' := hij.opcode
  obtain rfl : operands = operands' := hij.operands
  cases op with
  | ret =>
    show Except.ok (Effect.jump _) = Except.ok (Effect.jump _)
    rw [hsize]
  | _ => rfl

theorem Instruction.Renumbered.draw_eq {ρ : Type} [Sampler ρ] {i j : Instruction}
    (hij : i.Renumbered L j) (s : Machine ρ) : s.draw i = s.draw j := by
  rw [Machine.draw, Machine.draw, hij.opcode]

/-- Programs that differ in line numbers only go through the same states. -/
theorem Program.Renumbered.lockstep {ρ : Type} [Sampler ρ] (h : p.Renumbered L q) :
    Lockstep p q (fun s t : Machine ρ => s = t)
      (fun f g => f.cause = g.cause ∧ L f.line g.line) where
  halts := by
    rintro s _ rfl hs
    rwa [← h.size_eq]
  completes := by
    rintro e s s' _ rfl hc
    obtain ⟨j, hj, hij⟩ := h.fetch hc.fetch
    refine ⟨⟨j, e.effect⟩, s', .of_effect hj ?_ ?_, rfl⟩
    · rw [← hij.draw_eq, ← h.effect_eq hij]
      exact hc.effect
    · rw [← hij.draw_eq]
      exact hc.result
  fails := by
    rintro i c s s' _ rfl hf
    obtain ⟨j, hj, hij⟩ := h.fetch hf.fetch
    refine ⟨j, c, s', .of_effect hj ?_ ?_, rfl, rfl, hij.line⟩
    · rw [← hij.draw_eq, ← h.effect_eq hij]
      exact hf.effect
    · rw [← hij.draw_eq]
      exact hf.result

theorem Program.Renumbered.boot_eq {ρ : Type} (h : p.Renumbered L q) (entry : Option String)
    (r : Registers) (random : ρ) : p.boot entry r random = q.boot entry r random := by
  have hlabel : p.label? = q.label? := by
    funext name
    rw [Program.label?, Program.label?, h.labels]
  rw [Program.boot, Program.boot, Program.start, Program.start, hlabel]

theorem Program.Renumbered.execute_alike {ρ : Type} [Sampler ρ] (h : p.Renumbered L q)
    (limit : Nat) (entry : Option String) (r : Registers) (random : ρ) :
    (p.execute limit entry r random).Alike (fun s t => s = t)
      (fun f g => f.cause = g.cause ∧ L f.line g.line) (q.execute limit entry r random) :=
  h.lockstep.run (h.boot_eq entry r random) limit 0

end Renumbered

/-! ## Words up to letter case -/

/-- The same words, but for the letter case of a first word that is no
label. -/
inductive SameWords : List String → List String → Prop
  | same (words : List String) : SameWords words words
  | recased {head head' : String} (rest : List String) :
    startsWith labelSigil head = false → EqIgnoringCase head head' →
    SameWords (head :: rest) (head' :: rest)

theorem toLower_eq_labelSigil_iff {c : Char} : c.toLower = labelSigil ↔ c = labelSigil := by
  constructor
  · intro h
    have hupper : ¬ c.isUpper = true := by
      intro hc
      have halpha : c.toLower.isAlpha = true := by
        rw [Char.isAlpha_toLower_eq_isAlpha, Char.isAlpha, hc, Bool.true_or]
      rw [h] at halpha
      exact absurd halpha (by decide)
    rwa [Char.toLower_eq_of_not_isUpper hupper] at h
  · rintro rfl
    rfl

/-- The sigil of labels is no letter. -/
theorem EqIgnoringCase.startsWith_eq {s t : String} (h : EqIgnoringCase s t) :
    startsWith labelSigil s = startsWith labelSigil t := by
  have hlower : ∀ u : String, startsWith labelSigil u =
      ((u.toList.map Char.toLower).head? == some labelSigil) := by
    intro u
    rw [startsWith]
    cases u.toList with
    | nil => rfl
    | cons c cs =>
      rw [Bool.eq_iff_iff]
      simp only [List.head?_cons, List.map_cons, beq_iff_eq, Option.some.injEq,
        toLower_eq_labelSigil_iff]
  rw [hlower s, hlower t, h]

theorem SameWords.symm {words words' : List String} (h : SameWords words words') :
    SameWords words' words := by
  cases h with
  | same => exact .same _
  | recased rest hl hcase => exact .recased rest (hcase.startsWith_eq ▸ hl) hcase.symm

/-- The same words say the same on any line. -/
theorem WritesLine.of_sameWords {k : Nat} {words words' : List String} {line : Line}
    (h : WritesLine k words line) (hw : SameWords words words') (m : Nat) :
    ∃ line', WritesLine m words' line' ∧ line.Renumbered (fun a b => a = k ∧ b = m) line' := by
  cases hw with
  | same =>
    cases h with
    | blank => exact ⟨_, .blank, .blank⟩
    | label hl => exact ⟨_, .label hl, .label _⟩
    | instruction hl hop ho hc =>
      exact ⟨_, .instruction hl hop ho hc, .instruction ⟨rfl, rfl, rfl, rfl⟩⟩
  | recased rest hl hcase =>
    cases h with
    | label hl' =>
      rw [hl] at hl'
      cases hl'
    | instruction _ hop ho hc =>
      have hl' := hcase.startsWith_eq ▸ hl
      exact ⟨_, .instruction hl' (hcase.symm.trans hop) ho hc,
        .instruction ⟨rfl, rfl, rfl, rfl⟩⟩

theorem readTokens_alike {k m : Nat} {tokens tokens' : List Token}
    (hk : ∀ t ∈ tokens, t.place.line = k) (hm : ∀ t ∈ tokens', t.place.line = m)
    (hw : SameWords (tokens.map Token.text) (tokens'.map Token.text)) :
    Alike (fun e e' => e.place.line = k ∧ e'.place.line = m)
      (Line.Renumbered fun a b => a = k ∧ b = m) (readTokens tokens) (readTokens tokens') := by
  cases hread : readTokens tokens with
  | ok line =>
    obtain ⟨line', hline', halike⟩ := ((readTokens_eq_ok_iff hk).mp hread).of_sameWords hw m
    rw [(readTokens_eq_ok_iff hm).mpr hline']
    exact .ok halike
  | error e =>
    cases hread' : readTokens tokens' with
    | ok line' =>
      -- the words would say something on the other line as well
      obtain ⟨line, hline, -⟩ := ((readTokens_eq_ok_iff hm).mp hread').of_sameWords hw.symm k
      rw [(readTokens_eq_ok_iff hk).mpr hline] at hread
      cases hread
    | error e' =>
      exact .error ⟨((readTokens_eq_error_iff hk).mp hread).place_line hk,
        ((readTokens_eq_error_iff hm).mp hread').place_line hm⟩

/-! ## Scripts up to layout -/

/-- The lines of a script that hold a word, each with its number. -/
def codeLines (source : String) : List (Nat × List Token) :=
  ((sourceLines source).zipIdx.map fun l => (l.2, tokenize l.1 l.2)).filter
    fun l => !l.2.isEmpty

/-- The two scripts differ in layout only: blank lines apart, they have the
same words line by line, but for the letter case of first words that are no
labels. -/
def SameScript (s t : String) : Prop :=
  List.Forall₂ (fun l m => SameWords (l.2.map Token.text) (m.2.map Token.text))
    (codeLines s) (codeLines t)

/-- Blank lines apart, line number `k` of one script stands where line number
`m` of the other does. -/
def Corresponding (s t : String) (k m : Nat) : Prop :=
  (k, m) ∈ ((codeLines s).map Prod.fst).zip ((codeLines t).map Prod.fst)

theorem place_line_of_mem_codeLines {source : String} {l : Nat × List Token}
    (h : l ∈ codeLines source) : ∀ t ∈ l.2, t.place.line = l.1 := by
  obtain ⟨x, -, rfl⟩ := List.mem_map.mp (List.mem_filter.mp h).1
  exact place_line_of_mem_tokenize

/-- A line that is read adds to the program before the lines after it. -/
theorem foldl_add_mapM_cons {tokens : List Token} {a : Line} (ha : readTokens tokens = .ok a)
    (lines : List (List Token)) (p : Program) :
    ((tokens :: lines).mapM readTokens).map (·.foldl Program.add p) =
      (lines.mapM readTokens).map (·.foldl Program.add (p.add a)) := by
  rw [mapM_cons_of_ok ha]
  cases lines.mapM readTokens <;> rfl

/-- Lines without words leave no trace in the program. -/
theorem foldl_add_mapM_filter (lines : List (List Token)) (p : Program) :
    ((lines.filter (!·.isEmpty)).mapM readTokens).map (·.foldl Program.add p) =
      (lines.mapM readTokens).map (·.foldl Program.add p) := by
  induction lines generalizing p with
  | nil => rfl
  | cons tokens lines ih =>
    cases tokens with
    | nil =>
      rw [List.filter_cons_of_neg (by decide), foldl_add_mapM_cons rfl]
      exact ih p
    | cons t ts =>
      rw [List.filter_cons_of_pos rfl]
      cases hread : readTokens (t :: ts) with
      | ok a => rw [foldl_add_mapM_cons hread, foldl_add_mapM_cons hread, ih]
      | error e => rw [mapM_cons_of_error hread, mapM_cons_of_error hread]

theorem read_eq_codeLines (source : String) :
    Program.read source = ((codeLines source).mapM fun l => readTokens l.2).map .ofLines := by
  have hwords : (codeLines source).map Prod.snd =
      ((sourceLines source).zipIdx.map fun l => tokenize l.1 l.2).filter (!·.isEmpty) := by
    rw [codeLines, List.filter_map, List.map_map, List.filter_map]
    rfl
  calc Program.read source
      = (((sourceLines source).zipIdx.map fun l => tokenize l.1 l.2).mapM readTokens).map
          .ofLines := by
        rw [List.mapM_map]
        rfl
    _ = (((codeLines source).map Prod.snd).mapM readTokens).map .ofLines := by
        rw [hwords]
        exact (foldl_add_mapM_filter _ .empty).symm
    _ = ((codeLines source).mapM fun l => readTokens l.2).map .ofLines := by
        rw [List.mapM_map]
        rfl

/-- Scripts that differ in layout only are read alike. -/
theorem SameScript.read_alike {s t : String} (h : SameScript s t) :
    Alike (fun e e' => Corresponding s t e.place.line e'.place.line)
      (Program.Renumbered (Corresponding s t)) (Program.read s) (Program.read t) := by
  rw [read_eq_codeLines, read_eq_codeLines]
  refine Alike.map (Alike.mapM ?_) fun _ _ => renumbered_ofLines
  obtain ⟨hlength, hwords⟩ := List.forall₂_iff_zip.mp h
  refine List.forall₂_iff_zip.mpr ⟨hlength, fun {l m} hlm => ?_⟩
  have hcorr : Corresponding s t l.1 m.1 := by
    rw [Corresponding, List.zip_map]
    exact List.mem_map_of_mem hlm
  obtain ⟨hl, hm⟩ := List.of_mem_zip hlm
  refine (readTokens_alike (place_line_of_mem_codeLines hl) (place_line_of_mem_codeLines hm)
    (hwords hlm)).imp ?_ ?_
  · rintro e e' ⟨he, he'⟩
    rwa [he, he']
  · intro a a' ha
    refine ha.imp ?_
    rintro _ _ ⟨rfl, rfl⟩
    exact hcorr

/-- Layout does not matter. Two scripts that differ in nothing else are both
read, or both refused on corresponding lines; once read they have the same
instructions and the same labels, and all their runs agree, up to the
corresponding lines that faults name. -/
theorem layout_independent {s t : String} (h : SameScript s t) :
    Alike (fun e e' => Corresponding s t e.place.line e'.place.line)
      (fun p q =>
        p.code.toList.map (fun i => (i.opcode, i.operands)) =
          q.code.toList.map (fun i => (i.opcode, i.operands)) ∧
        p.labels = q.labels ∧
        ∀ (ρ : Type) [Sampler ρ] (limit : Nat) (entry : Option String) (r : Registers)
          (random : ρ),
          let x := p.execute limit entry r random
          let y := q.execute limit entry r random
          x.machine = y.machine ∧ x.outcome = y.outcome ∧
            Option.Rel (fun f g => f.cause = g.cause ∧ Corresponding s t f.line g.line)
              x.fault? y.fault?)
      (Program.read s) (Program.read t) := by
  refine h.read_alike.imp (fun _ _ => id) fun p q hpq => ?_
  refine ⟨hpq.opcodes_operands_eq, hpq.labels, fun ρ _ limit entry r random => ?_⟩
  have hrun := hpq.execute_alike limit entry r random
  refine ⟨hrun.machine, ?_, hrun.fault?⟩
  rw [Outcome.mk.injEq]
  exact ⟨congrArg Machine.outbox hrun.machine, hrun.cycles, hrun.timeout⟩

/-- Comments, blank lines, carriage returns and capitals move a fault from
line 1 to line 3, and change nothing else. -/
theorem layout_independent_jump :
    let s := "@a\njmp null"
    let t := "; note\r\n @a\r\n\n\tJmp  null ;why\r"
    SameScript s t ∧ ∃ p q, Program.read s = .ok p ∧ Program.read t = .ok q ∧
      p.labels = q.labels ∧
      (p.execute 9 none ∅ (SplitMix.ofSeed 7)).fault? = some ⟨.badJumpTarget .jmp .null, 1⟩ ∧
      ∃ g, (q.execute 9 none ∅ (SplitMix.ofSeed 7)).fault? = some g ∧
        g.cause = .badJumpTarget .jmp .null ∧ g.line = 3 := by
  intro s t
  have hs : codeLines s =
      [(0, [⟨"@a", ⟨0, 0⟩⟩]), (1, [⟨"jmp", ⟨1, 0⟩⟩, ⟨"null", ⟨1, 4⟩⟩])] := by cbv
  have ht : codeLines t =
      [(1, [⟨"@a", ⟨1, 1⟩⟩]), (3, [⟨"Jmp", ⟨3, 1⟩⟩, ⟨"null", ⟨3, 6⟩⟩])] := by cbv
  have hsame : SameScript s t := by
    rw [SameScript, hs, ht]
    exact .cons (.same _) (.cons (.recased _ (by cbv) (by cbv)) .nil)
  let p : Program := ⟨#[⟨.jmp, [.literal .null], 1⟩], (∅ : NameTable Nat).insert "@a" 0⟩
  have hread : Program.read s = .ok p := by cbv
  have hp : (p.execute 9 none ∅ (SplitMix.ofSeed 7)).fault? =
      some ⟨.badJumpTarget .jmp .null, 1⟩ := by cbv
  have halike := layout_independent hsame
  rw [hread] at halike
  generalize hread' : Program.read t = answer at halike
  cases halike with
  | @ok _ q hpq =>
    obtain ⟨-, hlabels, hruns⟩ := hpq
    obtain ⟨-, -, hfault⟩ := hruns SplitMix 9 none ∅ (SplitMix.ofSeed 7)
    rw [hp] at hfault
    generalize hq : (q.execute 9 none ∅ (SplitMix.ofSeed 7)).fault? = fault at hfault
    cases hfault with
    | @some _ g hg =>
      obtain ⟨hcause, hline⟩ := hg
      have hline' : g.line = 3 := by
        rw [Corresponding, hs, ht] at hline
        simpa using hline
      exact ⟨hsame, p, q, hread, rfl, hlabels, hp, g, hq, hcause.symm, hline'⟩

end CritterScript
