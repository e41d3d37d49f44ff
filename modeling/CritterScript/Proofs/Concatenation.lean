import CritterScript.Proofs.Grammar

/-!
# Scripts one after the other

Reading keeps nothing from one line to the next but the program so far, and
of that a line sees only how long it is. So a script that starts `n` lines
further down reads as it does at the top, with `n` added to every line number
(`readLine_add`), and a program can be put behind another by adding the
length of the first to the labels of the second (`label?_foldl_add`).
`read_append` puts both together.
-/

namespace CritterScript

/-! ## Further down -/

/-- The place `n` lines further down. -/
def Place.down (n : Nat) (p : Place) : Place :=
  { p with line := p.line + n }

def Token.down (n : Nat) (t : Token) : Token :=
  { t with place := t.place.down n }

def SyntaxError.down (n : Nat) (e : SyntaxError) : SyntaxError :=
  { e with place := e.place.down n }

def Instruction.down (n : Nat) (i : Instruction) : Instruction :=
  { i with line := i.line + n }

def Line.down (n : Nat) : Line → Line
  | .instruction i => .instruction (i.down n)
  | line => line

def Program.down (n : Nat) (p : Program) : Program :=
  { p with code := p.code.map (Instruction.down n) }

theorem tokenize_add (text : String) (index n : Nat) :
    tokenize text (index + n) = (tokenize text index).map (Token.down n) := by
  rw [tokenize, tokenize, List.map_map]
  rfl

theorem map_text_down (tokens : List Token) (n : Nat) :
    (tokens.map (Token.down n)).map Token.text = tokens.map Token.text := by
  rw [List.map_map]
  rfl

theorem WritesLine.down {index : Nat} {words : List String} {line : Line}
    (h : WritesLine index words line) (n : Nat) : WritesLine (index + n) words (line.down n) := by
  cases h with
  | blank => exact .blank
  | label hl => exact .label hl
  | instruction hl hop ho hc => exact .instruction hl hop ho hc

theorem SpoilsOperand.down {t : Token} {e : SyntaxError} (h : SpoilsOperand t e) (n : Nat) :
    SpoilsOperand (t.down n) (e.down n) := by
  cases h with
  | literal hr hl hs hn hx => exact .literal hr hl hs hn hx
  | item hr hl hs hfirst => exact .item hr hl hs hfirst

theorem SpoilsLine.down {tokens : List Token} {e : SyntaxError} (h : SpoilsLine tokens e)
    (n : Nat) : SpoilsLine (tokens.map (Token.down n)) (e.down n) := by
  cases h with
  | codeAfterLabel hl => exact .codeAfterLabel hl
  | badInstruction hl hop => exact .badInstruction hl hop
  | badOperand hl hop hfirst hspoils =>
    exact .badOperand hl hop (hfirst.map fun _ => Iff.rfl) (hspoils.down n)
  | @wrongCount head rest op operands hl hop ho hc =>
    rw [← map_text_down rest n] at ho
    rw [← List.length_map (Token.down n)] at hc ⊢
    exact .wrongCount hl hop ho hc
  | @wrongKind head t rest op operands slot a before hl hop ho hc hfirst =>
    rw [← map_text_down rest n] at ho
    rw [← List.length_map (Token.down n)] at hc
    have hfirst' := hfirst.map
      (Q := fun x : Slot × Token × Operand => x.1.accepts x.2.2.kind = true)
      (f := Prod.map id (Prod.map (Token.down n) id)) fun _ => Iff.rfl
    rw [← List.zip_map_right, ← List.zip_map_left] at hfirst'
    rw [← List.length_map (Prod.map id (Prod.map (Token.down n) id))]
    exact @SpoilsLine.wrongKind (head.down n) (t.down n) _ op operands slot a _
      hl hop ho hc hfirst'

theorem readLine_add (index n : Nat) (text : String) :
    Alike (fun e e' => e.down n = e') (fun l l' => l.down n = l')
      (readLine index text) (readLine (index + n) text) := by
  cases hread : readLine index text with
  | ok line =>
    have hline := (readLine_eq_ok_iff.mp hread).down n
    rw [← map_text_down _ n, ← tokenize_add, ← readLine_eq_ok_iff] at hline
    rw [hline]
    exact .ok rfl
  | error e =>
    have he := (readLine_eq_error_iff.mp hread).down n
    rw [← tokenize_add, ← readLine_eq_error_iff] at he
    rw [he]
    exact .error rfl

/-! ## One program behind another -/

@[simp] theorem Program.down_label? (n : Nat) (p : Program) (name : String) :
    (p.down n).label? name = p.label? name :=
  rfl

theorem Program.add_down (n : Nat) (p : Program) (line : Line) :
    (p.down n).add (line.down n) = (p.add line).down n := by
  cases line with
  | blank => rfl
  | label name => simp only [Program.add, Line.down, Program.down, Program.size, Array.size_map]
  | instruction i => simp only [Program.add, Line.down, Program.down, Array.map_push]

theorem foldl_add_down (n : Nat) (lines : List Line) (p : Program) :
    (lines.map (Line.down n)).foldl Program.add (p.down n) =
      (lines.foldl Program.add p).down n := by
  induction lines generalizing p with
  | nil => rfl
  | cons line lines ih => rw [List.map_cons, List.foldl_cons, List.foldl_cons, p.add_down, ih]

theorem ofLines_down (n : Nat) (lines : List Line) :
    Program.ofLines (lines.map (Line.down n)) = (Program.ofLines lines).down n := by
  have hempty : Program.empty.down n = .empty := by
    simp only [Program.down, Program.empty, Array.map_empty]
  have h := foldl_add_down n lines .empty
  rwa [hempty] at h

theorem size_foldl_add (lines : List Line) (p : Program) :
    (lines.foldl Program.add p).size = (Program.ofLines lines).size + p.size := by
  have h := congrArg List.length (code_foldl_add lines p)
  rw [← code_ofLines, List.length_append, Nat.add_comm] at h
  exact h

theorem label?_add (p : Program) (line : Line) (name : String) :
    (p.add line).label? name =
      if line = .label name then some p.size else p.label? name := by
  cases line with
  | blank => rfl
  | label name' =>
    simp only [Program.add, Program.label?, Std.ExtTreeMap.getElem?_insert,
      Std.LawfulEqCmp.compare_eq_iff_eq, Line.label.injEq]
  | instruction i => rfl

/-- The labels of a program that goes on with further lines: those of the
lines, by as much further on as the program is long, and where they define
none, those of the program. -/
theorem label?_foldl_add (lines : List Line) (p : Program) (name : String) :
    (lines.foldl Program.add p).label? name =
      (((Program.ofLines lines).label? name).map (· + p.size)).or (p.label? name) := by
  induction lines using List.reverseRecOn with
  | nil =>
    have hempty : Program.empty.label? name = none := Std.ExtTreeMap.getElem?_empty
    show p.label? name = ((Program.empty.label? name).map _).or _
    rw [hempty, Option.map_none, Option.none_or]
  | append_singleton lines line ih =>
    rw [Program.ofLines, List.foldl_append, List.foldl_append, List.foldl_cons, List.foldl_nil,
      List.foldl_cons, List.foldl_nil, label?_add, label?_add, size_foldl_add, ih]
    by_cases h : line = .label name
    · rw [if_pos h, if_pos h]
      rfl
    · rw [if_neg h, if_neg h]
      rfl

/-! ## One script behind another -/

theorem sourceLines_append (s t : String) :
    sourceLines (s ++ "\n" ++ t) = sourceLines s ++ sourceLines t := by
  have hsplit : (s ++ "\n" ++ t).toList.splitOn '\n' =
      s.toList.splitOn '\n' ++ t.toList.splitOn '\n' := by
    rw [String.toList_append, String.toList_append, List.append_assoc]
    exact List.splitOn_append_cons_self s.toList t.toList
  rw [sourceLines, hsplit, List.map_append]
  rfl

theorem length_sourceLines (s : String) :
    (sourceLines s).length = s.toList.count '\n' + 1 := by
  rw [sourceLines, List.length_map]
  induction s.toList with
  | nil => rfl
  | cons c cs ih =>
    rw [List.splitOn_cons_eq_if_modifyHead, List.count_cons]
    by_cases h : (c == '\n') = true
    · rw [if_pos h, if_pos h, List.length_cons, ih]
    · rw [if_neg h, if_neg h, List.length_modifyHead, ih]

/-- The answers of a script's lines, in short. -/
def readLines (n : Nat) (lines : List String) : Except SyntaxError (List Line) :=
  (lines.zipIdx n).mapM fun l => readLine l.2 l.1

theorem read_eq_readLines (source : String) :
    Program.read source = (readLines 0 (sourceLines source)).map .ofLines :=
  rfl

theorem readLines_add (n : Nat) (lines : List String) :
    Alike (fun e e' => e.down n = e') (fun ls ls' => ls.map (Line.down n) = ls')
      (readLines 0 lines) (readLines n lines) := by
  have hpairs : List.Forall₂
      (fun l l' => Alike (fun e e' => SyntaxError.down n e = e') (fun m m' => Line.down n m = m')
        (readLine l.2 l.1) (readLine l'.2 l'.1)) lines.zipIdx (lines.zipIdx n) := by
    rw [@List.zipIdx_eq_map_add _ lines n, List.forall₂_map_right_iff, List.forall₂_same]
    rintro ⟨text, index⟩ -
    show Alike _ _ (readLine index text) (readLine (n + index) text)
    rw [Nat.add_comm n]
    exact readLine_add index n text
  refine (Alike.mapM hpairs).imp (fun _ _ => id) fun ls ls' h => ?_
  rwa [← List.forall₂_map_left_iff, List.forall₂_eq_eq_eq] at h

theorem readLines_append (lines lines' : List String) :
    readLines 0 (lines ++ lines') =
      readLines 0 lines >>= fun ls => readLines lines.length lines' >>= fun ls' =>
        pure (ls ++ ls') := by
  rw [readLines, List.zipIdx_append, List.mapM_append, Nat.zero_add]
  rfl

/-- The program of two scripts, one behind the other. -/
theorem ofLines_append_down (n : Nat) (ls ls' : List Line) :
    let p := Program.ofLines ls
    let q := Program.ofLines ls'
    let r := Program.ofLines (ls ++ ls'.map (Line.down n))
    r.code.toList = p.code.toList ++ q.code.toList.map (Instruction.down n) ∧
      ∀ name, r.label? name = ((q.label? name).map (· + p.size)).or (p.label? name) := by
  intro p q r
  have hq : Program.ofLines (ls'.map (Line.down n)) = q.down n := ofLines_down n ls'
  have hr : r = (ls'.map (Line.down n)).foldl Program.add p := by
    show (ls ++ ls'.map (Line.down n)).foldl Program.add .empty = _
    rw [List.foldl_append]
    rfl
  constructor
  · rw [hr, code_foldl_add, ← code_ofLines, hq, Program.down, Array.toList_map]
  · intro name
    rw [hr, label?_foldl_add, hq, Program.down_label?]

/-- Two scripts one behind the other: the mistake of the first; or else the
mistake of the second, as many lines further down as the first is long; or
else the instructions of the first and those of the second, and the labels of
the first overridden by those of the second, which stand for as many
instructions further on as the first has. -/
theorem read_append (s t : String) :
    match Program.read s, Program.read t with
    | .error e, _ => Program.read (s ++ "\n" ++ t) = .error e
    | .ok _, .error e =>
      Program.read (s ++ "\n" ++ t) = .error (e.down (s.toList.count '\n' + 1))
    | .ok p, .ok q =>
      ∃ r, Program.read (s ++ "\n" ++ t) = .ok r ∧
        r.code.toList =
          p.code.toList ++ q.code.toList.map (Instruction.down (s.toList.count '\n' + 1)) ∧
        ∀ name, r.label? name = ((q.label? name).map (· + p.size)).or (p.label? name) := by
  have hs := read_eq_readLines s
  have ht := read_eq_readLines t
  have hst := read_eq_readLines (s ++ "\n" ++ t)
  rw [sourceLines_append, readLines_append, length_sourceLines] at hst
  generalize s.toList.count '\n' + 1 = n at hst ⊢
  cases hls : readLines 0 (sourceLines s) with
  | error e =>
    rw [hls] at hs hst
    rw [hs]
    exact hst
  | ok ls =>
    rw [hls] at hs hst
    have halike := readLines_add n (sourceLines t)
    generalize readLines 0 (sourceLines t) = x at ht halike
    generalize readLines n (sourceLines t) = y at hst halike
    cases halike with
    | error he =>
      subst he
      rw [hs, ht]
      exact hst
    | @ok ls' _ hls' =>
      subst hls'
      rw [hs, ht]
      exact ⟨_, hst, ofLines_append_down n ls ls'⟩

end CritterScript
