import Mathlib.Data.List.Forall2
import Lia.Proofs.Grammar.Complete
import Lia.Proofs.Grammar.Sound
import Lia.Proofs.Parser.Shape
import Lia.Proofs.Token.Spelled

/-!
# Errors stand at the first wrong token

What is refused depends on the tokens up to it alone, and of these on their kinds and on
the names and marks among them (`Refuses.congr`). Whatever has been read can still be
completed to a program (`State.exists_completion`). Main statement: an error names the
first token that no program goes on with (`parse_refuses_first`).
-/

namespace Lia

/-- One end of the source, behind all other tokens. -/
def Terminated (ts : List Token) : Prop :=
  ∃ us e, ts = us ++ [e] ∧ e.isEof = true ∧ ∀ t ∈ us, t.isEof = false

namespace Parser

-- ---------------------------------------------------------------------------
-- Where a run is refused
-- ---------------------------------------------------------------------------

/-- The tokens before an index are taken, and the one at the index is refused. -/
inductive Refuses : State .program → List Token → Nat → String → Prop
  | here (h : σ.step t = .refuse expected note) : Refuses σ (t :: ts) 0 expected
  | later (h : σ.Takes t σ') (hr : Refuses σ' ts n expected) : Refuses σ (t :: ts) (n + 1) expected

variable {σ σ' : State .program} {t u : Token} {ts us : List Token}

theorem Refuses.run_eq (h : Refuses σ ts n expected) : ∃ t, ts[n]? = some t ∧
    (run σ ts).taken = n ∧ (run σ ts).result = .error (.refused expected t) := by
  induction h with
  | here h => simp [run, h]
  | later h _ ih =>
    obtain ⟨note, h⟩ := h
    simpa [run, h] using ih

theorem refuses_of_run (h : (run σ ts).result = .error (.refused expected t)) :
    Refuses σ ts (run σ ts).taken expected ∧ ts[(run σ ts).taken]? = some t := by
  induction ts generalizing σ with
  | nil => cases h
  | cons u us ih =>
    cases hs : σ.step u with
    | next σ' note =>
      simp only [run, hs] at h ⊢
      obtain ⟨hr, ht⟩ := ih h
      exact ⟨.later ⟨note, hs⟩ hr, ht⟩
    | refuse expected' note =>
      simp only [run, hs] at h ⊢
      cases h
      exact ⟨.here hs, rfl⟩
    | _ =>
      simp only [run, hs] at h
      cases h

/-- A call has its name from the token that begins it. -/
theorem phase_ne_callName (h : Grammar.Read ts σ) : σ.phase ≠ .callName := by
  cases h with
  | due => simp
  | within _ _ _ hp => cases hp <;> simp

/-- What follows the refused token makes no difference, nor does what numbers and strings
before it are. -/
theorem Refuses.congr (h : Refuses σ ts n expected) (hs : σ.shape = σ'.shape)
    (hr : Grammar.Read vs σ) (ha : List.Forall₂ Token.Alike (ts.take (n + 1)) (us.take (n + 1))) :
    Refuses σ' us n expected := by
  induction h generalizing σ' us vs with
  | here h =>
    cases us with
    | nil => simp at ha
    | cons u us =>
      obtain ⟨ha, -⟩ := List.forall₂_cons.1 ha
      have hstep := State.step_congr hs (phase_ne_callName hr) ha
      rw [h] at hstep
      obtain ⟨note, hu⟩ := Step.shape_eq_refuse hstep
      exact .here hu
  | later h _ ih =>
    cases us with
    | nil => simp at ha
    | cons u us =>
      obtain ⟨ha, hrest⟩ := List.forall₂_cons.1 ha
      obtain ⟨note, h⟩ := h
      have hstep := State.step_congr hs (phase_ne_callName hr) ha
      rw [h] at hstep
      obtain ⟨σ'', note', hu, hshape⟩ := Step.shape_eq_next hstep
      exact .later ⟨note', hu⟩ (ih hshape.symm (hr.step h) hrest)

theorem State.Takes.isEof (h : σ.Takes t σ') : t.isEof = false := by
  obtain ⟨note, h⟩ := h
  rw [Bool.eq_false_iff]
  intro he
  obtain ⟨_, _, _, hs⟩ | ⟨_, _, _, hs⟩ := σ.step_eof he <;> rw [hs] at h <;> cases h

/-- What was taken before leads to some state, whatever stands behind it. -/
theorem Refuses.exists_state (h : Refuses σ ts n expected) :
    ∃ σ', (∀ t ∈ ts.take n, t.isEof = false) ∧
      ∀ us, outcome σ (ts.take n ++ us) = outcome σ' us := by
  induction h with
  | here => exact ⟨_, by simp, fun _ => rfl⟩
  | later h _ ih =>
    obtain ⟨σ', he, ho⟩ := ih
    refine ⟨σ', ?_, fun us => ?_⟩
    · simpa using ⟨h.isEof, he⟩
    · rw [List.take_succ_cons, List.cons_append, outcome_takes _ h, ho]

-- ---------------------------------------------------------------------------
-- What has been read can be completed
-- ---------------------------------------------------------------------------

/-- A statement may stand here, or the end of the list. -/
def State.IsDue (σ : State .program) : Prop :=
  σ.phase = .statement ∨ ∃ c inner, σ.phase = .afterConsequent c inner

/-- Without an `else` behind it an `if` joins its list. -/
theorem State.IsDue.outcome_eq (h : σ.IsDue) : ∃ body, ∀ us : List Token,
    (∀ t ∈ us.head?, t.isWord "else" = false) →
      outcome σ us = outcome ⟨.statement, body, σ.outer⟩ us := by
  obtain ⟨phase, body, outer⟩ := σ
  obtain rfl | ⟨c, inner, rfl⟩ := h
  · exact ⟨body, fun _ _ => rfl⟩
  · exact ⟨_, fun us hus => Grammar.outcome_afterConsequent (σ := ⟨.statement, body, outer⟩) hus⟩

theorem State.closed_isDue (σ : State .program) (inner : List Stmt) (opener : Opener) :
    (σ.closed inner opener).IsDue ∧ (σ.closed inner opener).outer = σ.outer := by
  cases opener with
  | consequent c => exact ⟨.inr ⟨c, inner, rfl⟩, rfl⟩
  | _ => exact ⟨.inl rfl, rfl⟩

/-- One brace for each list that is open, and the end of the source. -/
theorem State.IsDue.completes (h : σ.IsDue) :
    ∃ p, outcome σ (List.replicate σ.outer.length (.mark '\x7d') ++ [Token.eof 0]) = .ok p := by
  generalize ho : σ.outer = outer
  induction outer generalizing σ with
  | nil =>
    obtain ⟨body, hb⟩ := h.outcome_eq
    refine ⟨⟨body⟩, ?_⟩
    rw [hb _ (by simp [Token.eof, Token.of, Token.isWord, Token.isIdent]), ho]
    exact outcome_end rfl rfl rfl
  | cons l around ih =>
    obtain ⟨body, hb⟩ := h.outcome_eq
    obtain ⟨hd, hc⟩ := closed_isDue ⟨.statement, l.2, around⟩ body l.1
    obtain ⟨p, hp⟩ := ih hd hc
    refine ⟨p, ?_⟩
    rw [List.length_cons, List.replicate_succ, List.cons_append, hb _ (by simp; rfl), ho]
    rw [outcome_takes (closed ⟨.statement, l.2, around⟩ body l.1) ⟨none, ?_⟩, hp]
    rw [step_statement rfl]
    exact atStatement_close (σ := ⟨.statement, body, (l.1, l.2) :: around⟩) rfl rfl

/-- The tokens go on to a program. -/
def State.Completes (σ : State .program) : Prop :=
  ∃ us p, (∀ t ∈ us, t.isEof = false) ∧ outcome σ (us ++ [Token.eof 0]) = .ok p

theorem State.Takes.completes (h : σ.Takes t σ') (hc : σ'.Completes) : σ.Completes := by
  obtain ⟨us, p, he, ho⟩ := hc
  refine ⟨t :: us, p, List.forall_mem_cons.2 ⟨h.isEof, he⟩, ?_⟩
  rw [List.cons_append, outcome_takes _ h, ho]

theorem State.IsDue.completable (h : σ.IsDue) : σ.Completes := by
  obtain ⟨p, hp⟩ := h.completes
  refine ⟨_, p, fun t ht => ?_, hp⟩
  rw [List.eq_of_mem_replicate ht]
  rfl

/-- How many tokens a construct is from its end, or from the brace of an inner list, on the
shortest way. -/
def Phase.distance : Phase → Nat
  | .statement | .afterConsequent .. => 0
  | .brace _ | .eventEnd _ | .awaitEnd _ | .callWords _ | .callFor _ | .callEnd .. => 1
  | .eventKind | .eventClose _ | .repeatClose _ | .condition .. | .callName | .callArgs _
  | .callComma _ | .forClose .. => 2
  | .eventName _ | .repeatCount | .conditionOpen _ | .forCount _ => 3
  | .eventOpen _ | .repeatOpen | .untilWord | .forOpen _ => 4
  | .keyword _ => 5

/-- Every construct goes on towards its end. -/
theorem State.exists_nearer (h : ¬ σ.IsDue) :
    ∃ t σ', σ.Takes t σ' ∧ σ'.phase.distance < σ.phase.distance := by
  have hlt := Nat.lt_succ_self
  obtain ⟨phase, body, outer⟩ := σ
  cases phase with
  | statement => exact absurd (.inl rfl) h
  | afterConsequent c inner => exact absurd (.inr ⟨c, inner, rfl⟩) h
  | keyword k =>
    refine ⟨.word k.word, ⟨afterKeyword k, body, outer⟩, ⟨none, ?_⟩, ?_⟩
    · cases k <;> rfl
    · cases k <;> simp [afterKeyword, Phase.distance]
  | untilWord => exact ⟨.word "until", _, ⟨_, rfl⟩, hlt _⟩
  | eventKind => exact ⟨.word "start", _, ⟨_, rfl⟩, hlt _⟩
  | eventName | callName => exact ⟨.word "x", _, ⟨_, rfl⟩, hlt _⟩
  | repeatCount | forCount => exact ⟨.of .number 1 none, _, ⟨_, rfl⟩, hlt _⟩
  | eventOpen | repeatOpen | conditionOpen | forOpen => exact ⟨.mark '(', _, ⟨_, rfl⟩, hlt _⟩
  | eventClose | repeatClose | callArgs | callComma | forClose =>
    exact ⟨.mark ')', _, ⟨_, rfl⟩, hlt _⟩
  | condition use => cases use <;> exact ⟨.mark ')', _, ⟨_, rfl⟩, hlt _⟩
  | eventEnd | awaitEnd | callWords | callFor | callEnd => exact ⟨.mark ';', _, ⟨_, rfl⟩, hlt _⟩
  | brace opener => cases opener <;> exact ⟨.mark '\x7b', _, ⟨_, rfl⟩, hlt _⟩

/-- The tokens that have led to a state are the beginning of a program. -/
theorem State.exists_completion (σ : State .program) : σ.Completes := by
  induction hn : σ.phase.distance using Nat.strongRecOn generalizing σ with
  | ind n ih =>
    by_cases hd : σ.IsDue
    · exact hd.completable
    · obtain ⟨t, σ', ht, hlt⟩ := exists_nearer hd
      exact ht.completes (ih _ (hn ▸ hlt) σ' rfl)

end Parser

-- ---------------------------------------------------------------------------
-- Main statement
-- ---------------------------------------------------------------------------

open Lia.Parser

variable {ts : List Token} {source : Option String} {e : ParseError}

theorem parse_index : (parse ts source).cursor.index = (run State.program ts).taken :=
  Nat.zero_add _

theorem parse_unexpected_iff : (parse ts source).result = .error (.unexpected e) ↔
    Refuses State.program ts e.index e.expected ∧ ts[e.index]? = some e.token ∧
      e.location = locate source e.token := by
  rw [parse, Cursor.read_result, Cursor.ofTokens, Nat.zero_add]
  constructor
  · intro h
    split at h
    next => cases h
    next expected t hr =>
      cases h
      obtain ⟨hr, ht⟩ := refuses_of_run hr
      exact ⟨hr, ht, rfl⟩
    next => cases h
  · obtain ⟨expected, token, index, location⟩ := e
    rintro ⟨h, ht, hl⟩
    obtain ⟨t, ht', rfl, hr⟩ := h.run_eq
    obtain rfl : token = t := Option.some.inj (ht.symm.trans ht')
    obtain rfl : location = locate source token := hl
    simp only [hr]

theorem parse_refuses_first (h : (parse ts source).result = .error (.unexpected e)) :
    (parse ts source).cursor.index = e.index ∧ ts[e.index]? = some e.token ∧
      (∀ us source', List.Forall₂ Token.Alike (ts.take (e.index + 1)) (us.take (e.index + 1)) →
        ∃ e', (parse us source').result = .error (.unexpected e') ∧ e'.index = e.index ∧
          e'.expected = e.expected) ∧
      ∃ us p, Terminated (ts.take e.index ++ us) ∧
        (parse (ts.take e.index ++ us) source).result = .ok p := by
  obtain ⟨hr, ht, -⟩ := parse_unexpected_iff.1 h
  refine ⟨?_, ht, ?_, ?_⟩
  · obtain ⟨-, -, hn, -⟩ := hr.run_eq
    rw [parse_index, hn]
  · intro us source' ha
    have hu := hr.congr rfl Grammar.Read.program ha
    obtain ⟨u, hu', -, -⟩ := hu.run_eq
    exact ⟨⟨e.expected, u, e.index, locate source' u⟩, parse_unexpected_iff.2 ⟨hu, hu', rfl⟩, rfl, rfl⟩
  · obtain ⟨σ, hpast, ho⟩ := hr.exists_state
    obtain ⟨us, p, hus, hp⟩ := σ.exists_completion
    refine ⟨us ++ [Token.eof 0], p, ⟨ts.take e.index ++ us, Token.eof 0, by simp, rfl, ?_⟩, ?_⟩
    · exact List.forall_mem_append.2 ⟨hpast, hus⟩
    · rw [parse_eq_ok_iff, ho, hp]

/-- `loop { on jump; }`, where only the kind of an event can stand behind `on`. -/
def strayTokens : List Token :=
  [.word "loop", .mark '\x7b', .word "on", .word "jump", .mark ';', .mark '\x7d', .eof 17]

theorem strayTokens_refuses_first :
    let e : ParseError := ⟨"event kind (start, key, click or backdrop)", .word "jump", 3, none⟩
    (parse strayTokens).result = .error (.unexpected e) ∧ (parse strayTokens).cursor.index = 3 ∧
      strayTokens[3]? = some (.word "jump") ∧
      (∃ e', (parse (strayTokens.take 4)).result = .error (.unexpected e') ∧ e'.index = 3 ∧
        e'.expected = e.expected) ∧
      ∃ us p, Terminated (strayTokens.take 3 ++ us) ∧
        (parse (strayTokens.take 3 ++ us)).result = .ok p := by
  intro e
  have h : (parse strayTokens).result = .error (.unexpected e) := rfl
  obtain ⟨hi, ht, hsame, hbefore⟩ := parse_refuses_first h
  exact ⟨h, hi, ht, hsame (strayTokens.take 4) none (List.forall₂_same.2 fun t _ => .refl t), hbefore⟩

end Lia
