import CritterScript.Board
import CritterScript.Proofs.Number.Order
import Mathlib

/-!
# What is left of many messages

The messages for one key come one after the other. An outbox keeps one of
them, and a board keeps all that count. Both compare priorities, and as long
as these are numbers the greatest one prevails. A message with priority `NaN`
wipes out what was there before it and gives way to whatever comes next, so
only the messages after the last such one matter (`recent`).

`comesTo_kept` says this once for both, by induction on the messages. Of the
recent messages with the greatest priority, an outbox keeps the last
(`keeps_over`), and a board keeps all, in their order (`keeps_submit`).
-/

namespace CritterScript

/-! ## Recent messages -/

/-- The messages after the last one with priority `NaN`. -/
def recent (ms : List Message) : List Message :=
  ms.rtakeWhile fun m => !m.priority.isNaN

section Recent

variable {ms : List Message} {m : Message}

theorem recent_concat_of_isNaN (ms : List Message) (h : m.priority.isNaN = true) :
    recent (ms ++ [m]) = [] :=
  List.rtakeWhile_concat_neg _ ms m (by rw [h]; decide)

theorem recent_concat (ms : List Message) (h : m.priority.isNaN = false) :
    recent (ms ++ [m]) = recent ms ++ [m] :=
  List.rtakeWhile_concat_pos _ ms m (by rw [h]; rfl)

theorem isNaN_of_mem_recent (h : m ∈ recent ms) : m.priority.isNaN = false := by
  have hp := List.mem_rtakeWhile_imp h
  simpa using hp

theorem recent_eq_self (h : ∀ m ∈ ms, m.priority.isNaN = false) : recent ms = ms := by
  rw [recent, List.rtakeWhile_eq_self_iff]
  intro m hm
  rw [h m hm]
  rfl

end Recent

/-! ## Keeping what matters -/

section Kept

variable {σ : Type} {keep : Option σ → Message → σ} {P : List Message → σ → Prop}

/-- What is kept of messages that come in turn, if `keep` says what is kept
of a further one. -/
def kept (keep : Option σ → Message → σ) (ms : List Message) : Option σ :=
  ms.foldl (fun o m => some (keep o m)) none

theorem kept_concat (keep : Option σ → Message → σ) (ms : List Message) (m : Message) :
    kept keep (ms ++ [m]) = some (keep (kept keep ms) m) := by
  rw [kept, List.foldl_append]
  rfl

/-- Messages come to `s`: this is `P` of the recent ones, or if there are none
all that is kept is the last message. -/
structure ComesTo (keep : Option σ → Message → σ) (P : List Message → σ → Prop)
    (ms : List Message) (s : σ) : Prop where
  of_recent : recent ms ≠ [] → P (recent ms) s
  of_last : recent ms = [] → ∃ m, ms.getLast? = some m ∧ m.priority.isNaN = true ∧ s = keep none m

/-- What is needed of a way to keep messages: a message with priority `NaN`
wipes out what was there and gives way to the next, and `P` goes on with
messages that have a number for a priority. -/
structure Keeps (keep : Option σ → Message → σ) (P : List Message → σ → Prop) : Prop where
  wipe (o : Option σ) {m : Message} : m.priority.isNaN = true → keep o m = keep none m
  yield {m : Message} (n : Message) :
    m.priority.isNaN = true → keep (some (keep none m)) n = keep none n
  first {m : Message} : m.priority.isNaN = false → P [m] (keep none m)
  next {ms : List Message} {s : σ} {m : Message} : (∀ n ∈ ms, n.priority.isNaN = false) →
    P ms s → m.priority.isNaN = false → P (ms ++ [m]) (keep (some s) m)

theorem Keeps.concat (h : Keeps keep P) {ms : List Message} {o : Option σ} (m : Message)
    (hnone : o = none → ms = []) (hsome : ∀ s ∈ o, ComesTo keep P ms s) :
    ComesTo keep P (ms ++ [m]) (keep o m) := by
  cases hm : m.priority.isNaN with
  | true =>
    have hrecent := recent_concat_of_isNaN ms hm
    exact ⟨fun hne => absurd hrecent hne, fun _ => ⟨m, List.getLast?_concat, hm, h.wipe o hm⟩⟩
  | false =>
    have hrecent := recent_concat ms hm
    refine ⟨fun _ => ?_, fun hnil => absurd hnil (by rw [hrecent]; simp)⟩
    rw [hrecent]
    cases o with
    | none =>
      rw [hnone rfl]
      exact h.first hm
    | some s =>
      have hs := hsome s rfl
      by_cases hnil : recent ms = []
      · obtain ⟨n, -, hn, rfl⟩ := hs.of_last hnil
        rw [hnil, h.yield m hn]
        exact h.first hm
      · exact h.next (fun n hn => isNaN_of_mem_recent hn) (hs.of_recent hnil) hm

/-- Something is kept just if there was a message, and this is what the
messages come to. -/
theorem comesTo_kept (h : Keeps keep P) (ms : List Message) :
    (kept keep ms = none ↔ ms = []) ∧ ∀ s ∈ kept keep ms, ComesTo keep P ms s := by
  induction ms using List.reverseRecOn with
  | nil => exact ⟨iff_of_true rfl rfl, fun s hs => by cases hs⟩
  | append_singleton ms m ih =>
    rw [kept_concat]
    refine ⟨iff_of_false (Option.some_ne_none _) (by simp), ?_⟩
    intro s hs
    obtain rfl := Option.mem_some_iff.mp hs
    exact h.concat m ih.1.mp ih.2

end Kept

/-! ## Messages by key -/

/-- The messages for a key, of messages with their keys. -/
def messagesFor (k : String) (sent : List (String × Message)) : List Message :=
  sent.filterMap fun s => if s.1 = k then some s.2 else none

theorem mem_messagesFor_iff {k : String} {sent : List (String × Message)} {m : Message} :
    m ∈ messagesFor k sent ↔ (k, m) ∈ sent := by
  rw [messagesFor, List.mem_filterMap]
  constructor
  · rintro ⟨⟨key, n⟩, hmem, hkey⟩
    by_cases hk : key = k
    · rw [if_pos hk] at hkey
      cases hkey
      exact hk ▸ hmem
    · rw [if_neg hk] at hkey
      cases hkey
  · intro hmem
    exact ⟨(k, m), hmem, if_pos rfl⟩

theorem messagesFor_concat (k : String) (sent : List (String × Message)) (s : String × Message) :
    messagesFor k (sent ++ [s]) =
      if s.1 = k then messagesFor k sent ++ [s.2] else messagesFor k sent := by
  rw [messagesFor, List.filterMap_append]
  by_cases hk : s.1 = k
  · simp [messagesFor, hk]
  · simp [messagesFor, hk]

/-- Where only the messages for a key concern what is seen of the state, this
is what is kept of them. -/
theorem foldl_eq_kept {σ τ : Type} {keep : Option σ → Message → σ} {k : String}
    {view : τ → Option σ} {step : τ → String × Message → τ}
    (hstep : ∀ t s, view (step t s) = if s.1 = k then some (keep (view t) s.2) else view t)
    (sent : List (String × Message)) {t : τ} (ht : view t = none) :
    view (sent.foldl step t) = kept keep (messagesFor k sent) := by
  induction sent using List.reverseRecOn with
  | nil => exact ht
  | append_singleton sent s ih =>
    rw [List.foldl_append, List.foldl_cons, List.foldl_nil, hstep, messagesFor_concat, ih]
    by_cases hk : s.1 = k
    · rw [if_pos hk, if_pos hk, kept_concat]
    · rw [if_neg hk, if_neg hk]

/-! ## The message that an outbox keeps -/

/-- The last of the messages that have the greatest priority. -/
def LastGreatest (ms : List Message) (m : Message) : Prop :=
  ∃ before after, ms = before ++ m :: after ∧ (∀ n ∈ before, n.priority ≤ m.priority) ∧
    ∀ n ∈ after, n.priority < m.priority

/-- The message for a key after a further one. -/
def Message.over : Option Message → Message → Message
  | some old, m => if old.priority > m.priority then old else m
  | none, m => m

theorem getElem?_post (o : Outbox) (key k : String) (m : Message) :
    (o.post key m)[k]? = if key = k then some (Message.over o[k]? m) else o[k]? := by
  rw [Outbox.post]
  by_cases hk : key = k
  · subst hk
    rw [if_pos rfl]
    cases hold : o[key]? with
    | none => simp only [Std.ExtTreeMap.getElem?_insert_self, Message.over]
    | some old =>
      by_cases hlt : old.priority > m.priority
      · simp only [if_pos hlt, hold, Message.over]
      · simp only [if_neg hlt, Std.ExtTreeMap.getElem?_insert_self, Message.over]
  · have hinsert : (o.insert key m)[k]? = o[k]? := by
      rw [Std.ExtTreeMap.getElem?_insert, if_neg (by simpa using hk)]
    rw [if_neg hk]
    cases o[key]? with
    | none => exact hinsert
    | some old =>
      by_cases hlt : old.priority > m.priority
      · simp only [if_pos hlt]
      · simp only [if_neg hlt, hinsert]

/-- A greatest message stays the last one, or gives way to the next. -/
theorem LastGreatest.concat {ms : List Message} {m n : Message} (h : LastGreatest ms m)
    (hm : m.priority.isNaN = false) (hn : n.priority.isNaN = false) :
    LastGreatest (ms ++ [n]) (.over (some m) n) := by
  obtain ⟨before, after, rfl, hbefore, hafter⟩ := h
  by_cases hlt : n.priority < m.priority
  · rw [Message.over, if_pos hlt]
    refine ⟨before, after ++ [n], by simp, hbefore, ?_⟩
    intro k hk
    obtain hk | hk := List.mem_append.mp hk
    · exact hafter k hk
    · rw [List.mem_singleton.mp hk]
      exact hlt
  · rw [Message.over, if_neg hlt]
    have hmn : m.priority ≤ n.priority := Number.le_of_not_lt hm hn hlt
    refine ⟨before ++ m :: after, [], rfl, ?_, ?_⟩
    · intro k hk
      obtain hk | rfl | hk := by simpa using hk
      · exact Number.le_trans (hbefore k hk) hmn
      · exact hmn
      · exact Number.le_trans (Number.le_of_lt (hafter k hk)) hmn
    · intro k hk
      cases hk

theorem LastGreatest.mem {ms : List Message} {m : Message} (h : LastGreatest ms m) : m ∈ ms := by
  obtain ⟨before, after, rfl, -⟩ := h
  simp

theorem keeps_over : Keeps Message.over LastGreatest where
  wipe o m hm := by
    cases o with
    | none => rfl
    | some old => exact if_neg (Number.not_lt_of_isNaN_left hm)
  yield n hm := if_neg (Number.not_lt_of_isNaN_right hm)
  first _ := ⟨[], [], rfl, by simp, by simp⟩
  next hms h hm := h.concat (hms _ h.mem) hm

/-! ## The messages that a board keeps -/

/-- The ballot has the messages of the greatest priority, and no others. -/
def Ballot.Counts (ms : List Message) (ballot : Ballot) : Prop :=
  ∃ top ∈ ms, (∀ m ∈ ms, m.priority ≤ top.priority) ∧
    ballot = ⟨top.priority, (ms.filter (·.priority == top.priority)).map Message.value⟩

theorem getElem?_submit (b : Board) (key k : String) (m : Message) :
    (b.submit key m).ballots[k]? =
      if key = k then some (Ballot.submit b.ballots[k]? m) else b.ballots[k]? := by
  rw [Board.submit, Std.ExtTreeMap.getElem?_insert]
  by_cases hk : key = k
  · subst hk
    simp
  · rw [if_neg (by simpa using hk), if_neg hk]

section Submit

variable {x : Float} {values : List Value} {m : Message}

theorem submit_of_lt (h : m.priority < x) :
    Ballot.submit (some ⟨x, values⟩) m = ⟨x, values⟩ :=
  if_pos h

theorem submit_of_beq (hlt : ¬ m.priority < x) (h : (x == m.priority) = true) :
    Ballot.submit (some ⟨x, values⟩) m = ⟨x, values ++ [m.value]⟩ := by
  simp only [Ballot.submit, if_neg hlt, if_pos h]

theorem submit_of_not_beq (hlt : ¬ m.priority < x) (h : (x == m.priority) = false) :
    Ballot.submit (some ⟨x, values⟩) m = ⟨m.priority, [m.value]⟩ := by
  simp only [Ballot.submit, if_neg hlt, h, Bool.false_eq_true, if_false]

end Submit

theorem filter_beq_self {m : Message} (h : m.priority.isNaN = false) :
    [m].filter (·.priority == m.priority) = [m] :=
  List.filter_cons_of_pos (Number.beq_self h)

/-- A further submission falls behind the others, joins them, or leaves them
behind. -/
theorem Ballot.Counts.concat {ms : List Message} {ballot : Ballot} {m : Message}
    (h : Ballot.Counts ms ballot) (hm : m.priority.isNaN = false) :
    Ballot.Counts (ms ++ [m]) (Ballot.submit (some ballot) m) := by
  obtain ⟨top, htop, hgreatest, rfl⟩ := h
  have hbound : ∀ x : Float, top.priority ≤ x → m.priority ≤ x →
      ∀ n ∈ ms ++ [m], n.priority ≤ x := by
    intro x hx hmx n hn
    obtain hn | hn := List.mem_append.mp hn
    · exact Number.le_trans (hgreatest n hn) hx
    · rw [List.mem_singleton.mp hn]
      exact hmx
  have htop' := hgreatest top htop
  by_cases hlt : m.priority < top.priority
  · have hdrop : [m].filter (·.priority == top.priority) = [] :=
      List.filter_cons_of_neg (by rw [Number.beq_eq_false_of_lt hlt]; decide)
    refine ⟨top, List.mem_append_left _ htop, hbound _ htop' (Number.le_of_lt hlt), ?_⟩
    rw [submit_of_lt hlt, List.filter_append, hdrop, List.append_nil]
  have hle : top.priority ≤ m.priority :=
    Number.le_of_not_lt (Number.isNaN_of_le htop').1 hm hlt
  by_cases hbeq : (top.priority == m.priority) = true
  · have hbeq' := Number.beq_symm hbeq
    have hjoin : [m].filter (·.priority == top.priority) = [m] := List.filter_cons_of_pos hbeq'
    refine ⟨top, List.mem_append_left _ htop, hbound _ htop' (Number.le_of_beq hbeq'), ?_⟩
    rw [submit_of_beq hlt hbeq, List.filter_append, hjoin, List.map_append, List.map_singleton]
  · have hgt : top.priority < m.priority := Number.lt_of_le_of_not_beq hle hbeq
    have hnone : ms.filter (·.priority == m.priority) = [] := by
      rw [List.filter_eq_nil_iff]
      intro n hn
      rw [Number.beq_eq_false_of_lt (Number.lt_of_le_of_lt (hgreatest n hn) hgt)]
      decide
    refine ⟨m, by simp, hbound _ hle (Number.le_self hm), ?_⟩
    rw [submit_of_not_beq hlt (Bool.eq_false_iff.mpr hbeq), List.filter_append, hnone,
      filter_beq_self hm, List.nil_append, List.map_singleton]

theorem keeps_submit : Keeps Ballot.submit Ballot.Counts where
  wipe o m hm := by
    cases o with
    | none => rfl
    | some b =>
      exact submit_of_not_beq (Number.not_lt_of_isNaN_left hm)
        (Number.beq_eq_false_of_isNaN_right hm)
  yield n hm :=
    submit_of_not_beq (Number.not_lt_of_isNaN_right hm) (Number.beq_eq_false_of_isNaN_left hm)
  first {m} hm := by
    refine ⟨m, List.mem_singleton_self m, ?_, ?_⟩
    · intro n hn
      rw [List.mem_singleton.mp hn]
      exact Number.le_self hm
    · rw [filter_beq_self hm, List.map_singleton]
      rfl
  next _ h hm := h.concat hm

end CritterScript
