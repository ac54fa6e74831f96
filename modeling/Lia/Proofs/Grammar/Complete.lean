import Lia.Proofs.Parser.Step

/-!
# The reader follows the grammar

A reader that is due a statement and meets the tokens of one goes on behind it, with
that statement in its list (`Statement.outcome_eq`). Main statement: the tokens of a
program are read as that program (`Program.outcome_eq`).
-/

namespace Lia.Grammar

open Lia.Parser

variable {σ : State .program} {ts us : List Token}

theorem takes_keyword (hσ : σ.phase = .statement) (k : Keyword) (ht : t.isWord k.word = true) :
    σ.Takes t (σ.goto (State.afterKeyword k)) :=
  ⟨none, by simp [State.step, hσ, State.atStatement_keyword ht]⟩

theorem takes_name (hσ : σ.phase = .statement) (hn : n.isIdent = true)
    (hk : ∀ w ∈ constructWords, n.isWord w = false) :
    σ.Takes n (σ.goto (.callWords ⟨n.value, []⟩)) :=
  ⟨_, (State.step_statement hσ).trans (State.atStatement_name hn hk)⟩

-- ---------------------------------------------------------------------------
-- Events
-- ---------------------------------------------------------------------------

/-- What is due behind the name of an event kind. -/
def kindPhase? : String → Option Phase
  | "start" => some (.eventEnd .start)
  | "click" => some (.eventEnd .click)
  | "key" => some (.eventOpen .key)
  | "backdrop" => some (.eventOpen .backdrop)
  | _ => none

theorem takes_kind (hk : k.isWord w = true) (hp : kindPhase? w = some phase) :
    (σ.goto .eventKind).Takes k (σ.goto phase) := by
  obtain ⟨hi, hv⟩ := Token.isWord_iff.1 hk
  refine ⟨none, ?_⟩
  unfold kindPhase? at hp
  split at hp <;> cases hp <;>
    simp [State.step, State.goto, State.atEventKind, Token.isIdent, hi, hv]

/-- The argument of an event. -/
theorem outcome_argument (a : Argued) (hl : l.isPunct "(" = true) (hn : IsName n)
    (hr : r.isPunct ")" = true) :
    outcome (σ.goto (.eventOpen a)) (l :: n :: r :: us) =
      outcome (σ.goto (.eventEnd (a.trigger n.value))) us := by
  rw [outcome_takes (σ.goto (.eventName a)) ⟨none, by simp [State.step, State.goto, State.mark, hl]⟩,
    outcome_takes (σ.goto (.eventClose (a.trigger n.value)))
      ⟨none, by rcases hn with hn | hn <;> simp [State.step, State.goto, hn]⟩,
    outcome_takes (σ.goto (.eventEnd (a.trigger n.value)))
      ⟨none, by simp [State.step, State.goto, State.mark, hr]⟩]

theorem Event.outcome_eq (h : Event ts trigger) (hσ : σ.phase = .statement) :
    outcome σ (ts ++ us) = outcome (σ.goto (.eventEnd trigger)) us := by
  cases h with
  | start ho hk | click ho hk =>
    simp only [List.cons_append, List.nil_append]
    rw [outcome_takes _ (takes_keyword hσ .event ho), State.afterKeyword,
      outcome_takes _ (takes_kind hk rfl)]
  | key ho hk hl hn hr | backdrop ho hk hl hn hr =>
    simp only [List.cons_append, List.nil_append]
    rw [outcome_takes _ (takes_keyword hσ .event ho), State.afterKeyword,
      outcome_takes _ (takes_kind hk rfl), outcome_argument _ hl hn hr]
    rfl

-- ---------------------------------------------------------------------------
-- Conditions
-- ---------------------------------------------------------------------------

/-- Where a construct goes on behind its condition. -/
def afterCondition (text : String) : ConditionUse → Phase
  | .branch => .brace (some (.consequent text))
  | .awaitUntil => .awaitEnd text

theorem outcome_words (hts : ∀ t ∈ ts, t.isPunct ")" = false ∧ t.isEof = false)
    (hr : r.isPunct ")" = true) (words : List String) :
    outcome (σ.goto (.condition use words)) (ts ++ r :: us) =
      outcome (σ.goto (afterCondition (" ".intercalate (words ++ ts.map Token.text)) use)) us := by
  induction ts generalizing words with
  | nil =>
    refine outcome_takes _ ⟨none, ?_⟩
    cases use <;> simp [State.step, State.goto, State.atCondition, hr, State.endCondition,
      afterCondition]
  | cons t ts ih =>
    obtain ⟨hp, he⟩ := hts t (by simp)
    have hstep : (σ.goto (.condition use words)).step t =
        .next (σ.goto (.condition use (words ++ [t.text]))) := by
      simp [State.step, State.goto, State.atCondition, hp, he]
    rw [List.cons_append, outcome_takes _ ⟨none, hstep⟩,
      ih fun t ht => hts t (List.mem_cons_of_mem _ ht)]
    simp

theorem Condition.outcome_eq (h : Condition ts c) :
    outcome (σ.goto (.conditionOpen use)) (ts ++ us) = outcome (σ.goto (afterCondition c use)) us := by
  obtain ⟨hl, hts, hr⟩ := h
  rw [List.cons_append, List.cons_append, List.append_assoc, List.singleton_append,
    outcome_takes (σ.goto (.condition use []))
      ⟨none, by simp [State.step, State.goto, State.mark, hl]⟩,
    outcome_words hts hr, List.nil_append]

-- ---------------------------------------------------------------------------
-- Calls
-- ---------------------------------------------------------------------------

theorem outcome_bareWords (h : ∀ t ∈ ts, IsBareWord t) (c : CallHead) :
    outcome (σ.goto (.callWords c)) (ts ++ us) =
      outcome (σ.goto (.callWords ⟨c.name, c.args ++ ts.map Token.value⟩)) us := by
  induction ts generalizing c with
  | nil => simp
  | cons t ts ih =>
    obtain ⟨hi, hf⟩ := h t (by simp)
    have hstep : (σ.goto (.callWords c)).step t = .next (σ.goto (.callWords (c.add t.value))) := by
      simp [State.step, State.goto, hi, hf]
    rw [List.cons_append, outcome_takes _ ⟨none, hstep⟩,
      ih fun t ht => h t (List.mem_cons_of_mem _ ht)]
    simp [CallHead.add]

theorem IsAtom.takes (h : IsAtom t) (c : CallHead) :
    (σ.goto (.callArgs c)).Takes t (σ.goto (.callComma (c.add t.value))) := by
  have hp : t.isPunct ")" = false := by
    rcases h with h | h | h <;> exact Token.isPunct_of_kind (by simp [h])
  refine ⟨none, ?_⟩
  rcases h with h | h | h <;> simp [State.step, State.goto, State.atArg, hp, h]

/-- Without a comma behind an argument the next token stands as if it were the first. -/
theorem step_callComma (ht : t.isPunct "," = false) (c : CallHead) :
    (σ.goto (.callComma c)).step t = (σ.goto (.callArgs c)).step t := by
  simp [State.step, State.goto, State.atArg, ht]

theorem Arguments.head_ne_comma (h : Arguments ts vs) (hr : r.isPunct ")" = true) :
    ∀ t ∈ (ts ++ r :: us).head?, t.isPunct "," = false := by
  intro t ht
  cases h with
  | nil =>
    obtain rfl : r = t := by simpa using ht
    exact Token.isPunct_of_ne hr (by decide)
  | atom ha _ | comma ha _ _ =>
    obtain rfl : _ = t := by simpa using ht
    rcases ha with h | h | h <;> exact Token.isPunct_of_kind (by simp [h])

theorem Arguments.outcome_eq (h : Arguments ts vs) (hr : r.isPunct ")" = true) (c : CallHead) :
    outcome (σ.goto (.callArgs c)) (ts ++ r :: us) =
      outcome (σ.goto (.callFor ⟨c.name, c.args ++ vs⟩)) us := by
  induction h generalizing c with
  | nil =>
    rw [List.append_nil]
    exact outcome_takes _ ⟨none, by simp [State.step, State.goto, State.atArg, hr]⟩
  | atom ha h ih =>
    rw [List.cons_append, outcome_takes _ (ha.takes c),
      outcome_congr fun t ht => step_callComma (h.head_ne_comma hr t ht) _, ih]
    simp [CallHead.add]
  | @comma t ts vs comma ha hc h ih =>
    have hstep : (σ.goto (.callComma (c.add t.value))).step comma =
        .next (σ.goto (.callArgs (c.add t.value))) := by
      simp [State.step, State.goto, hc]
    rw [List.cons_append, List.cons_append, outcome_takes _ (ha.takes c),
      outcome_takes _ ⟨none, hstep⟩, ih]
    simp [CallHead.add]

/-- Behind the argument list stands a final `for` or the end of the call, never a word
or a parenthesis of the list. -/
theorem ArgumentList.outcome_eq (h : ArgumentList ts vs)
    (hus : ∀ t ∈ us.head?, t.isPunct "(" = false ∧ ¬IsBareWord t) (c : CallHead) :
    outcome (σ.goto (.callWords c)) (ts ++ us) =
      outcome (σ.goto (.callFor ⟨c.name, c.args ++ vs⟩)) us := by
  cases h with
  | absent =>
    rw [List.append_nil, List.nil_append]
    refine outcome_congr fun t ht => ?_
    obtain ⟨hp, hw⟩ := hus t ht
    have hb : (t.isIdent && !t.isWord "for") = false := by
      rw [Bool.eq_false_iff]
      intro hb
      simp only [Bool.and_eq_true, Bool.not_eq_true'] at hb
      exact hw hb
    simp [State.step, State.goto, hp, hb, State.atFor, State.atCallEnd, State.finish_eq, State.push]
  | present hl h hr =>
    have hi := Token.isIdent_of_isPunct hl
    rw [List.cons_append, List.cons_append, List.append_assoc, List.singleton_append,
      outcome_takes (σ.goto (.callArgs c))
        ⟨none, by simp [State.step, State.goto, hl, hi]⟩,
      h.outcome_eq hr]

theorem Duration.head_of_end (h : Duration ts d) (he : e.isPunct ";" = true) :
    ∀ t ∈ (ts ++ e :: us).head?, t.isPunct "(" = false ∧ ¬IsBareWord t := by
  intro t ht
  cases h with
  | absent =>
    obtain rfl : e = t := by simpa using ht
    have hi := Token.isIdent_of_isPunct he
    exact ⟨Token.isPunct_of_ne he (by decide), fun hw => by simp [hw.1] at hi⟩
  | present hf _ _ _ =>
    obtain rfl : _ = t := by simpa using ht
    exact ⟨Token.isPunct_of_isIdent (Token.isIdent_of_isWord hf), fun hw => by simp [hw.2] at hf⟩

theorem outcome_callEnd (he : e.isPunct ";" = true) (c : CallHead) (d : Value) :
    outcome (σ.goto (.callEnd c d)) (e :: us) = outcome (σ.push (.call c.name c.args d)) us := by
  refine outcome_takes _ ⟨none, ?_⟩
  simp [State.step, State.goto, State.atCallEnd, he, State.finish_eq, State.push]

theorem Duration.outcome_eq (h : Duration ts d) (he : e.isPunct ";" = true) (c : CallHead) :
    outcome (σ.goto (.callFor c)) (ts ++ e :: us) =
      outcome (σ.push (.call c.name c.args d)) us := by
  cases h with
  | absent =>
    have hw : e.isWord "for" = false := Token.isWord_of_isPunct he
    rw [List.nil_append, ← outcome_callEnd he]
    refine outcome_congr fun t ht => ?_
    obtain rfl : e = t := by simpa using ht
    simp [State.step, State.goto, State.atFor, hw, State.atCallEnd, State.finish_eq, State.push]
  | @present f l n r hf hl hn hr =>
    rw [List.cons_append, List.cons_append, List.cons_append, List.cons_append, List.nil_append,
      outcome_takes (σ.goto (.forOpen c))
        ⟨none, by simp [State.step, State.goto, State.atFor, hf]⟩,
      outcome_takes (σ.goto (.forCount c))
        ⟨none, by simp [State.step, State.goto, State.mark, hl]⟩,
      outcome_takes (σ.goto (.forClose c n.value))
        ⟨none, by simp [State.step, State.goto, hn]⟩,
      outcome_takes (σ.goto (.callEnd c n.value))
        ⟨none, by simp [State.step, State.goto, State.mark, hr]⟩,
      outcome_callEnd he]

-- ---------------------------------------------------------------------------
-- Statements
-- ---------------------------------------------------------------------------

/-- Without an `else` an `if` has ended before the token behind its block. -/
theorem outcome_afterConsequent (hus : ∀ t ∈ us.head?, t.isWord "else" = false) :
    outcome (σ.goto (.afterConsequent c ss)) us =
      outcome (σ.push (.branch (.text c) ss none)) us := by
  refine outcome_congr fun t ht => ?_
  rw [State.step_afterConsequent rfl (hus t ht), State.step_statement rfl]
  rfl

/-- An `if` as far as its first block. -/
theorem outcome_branch (hσ : σ.phase = .statement) (hw : w.isWord "if" = true) (hc : Condition ts c) :
    outcome σ (w :: ts ++ us) = outcome (σ.goto (.brace (some (.consequent c)))) us := by
  rw [List.cons_append, outcome_takes _ (takes_keyword hσ .branch hw), State.afterKeyword,
    hc.outcome_eq, afterCondition]

theorem takes_else (he : e.isWord "else" = true) (c : String) (ss : List Stmt) :
    (σ.goto (.afterConsequent c ss)).Takes e (σ.goto (.brace (some (.alternate c ss)))) :=
  ⟨none, by simp [State.step, State.goto, State.atElse, he]⟩

mutual
theorem Statement.outcome_eq {σ : State .program} {ts us : List Token} {s : Stmt}
    (hσ : σ.phase = .statement) (hus : s.isOpen → ∀ t ∈ us.head?, t.isWord "else" = false) :
    Statement ts s → outcome σ (ts ++ us) = outcome (σ.push s) us
  | .empty he =>
    outcome_takes _ ⟨none, by simp [State.step, hσ, State.atStatement_semicolon he]⟩
  | .event h he => by
    rw [List.append_assoc, h.outcome_eq hσ]
    exact outcome_takes _ ⟨none, by simp [State.step, State.goto, State.mark, he, State.finish_eq,
      State.push]⟩
  | .repeatTimes (n := n) hw hl hn hr hb => by
    simp only [List.cons_append]
    rw [outcome_takes _ (takes_keyword hσ .repeatTimes hw),
      outcome_takes (σ.goto .repeatCount)
        ⟨none, by simp [State.step, State.goto, State.afterKeyword, State.mark, hl]⟩,
      outcome_takes (σ.goto (.repeatClose n.value))
        ⟨none, by simp [State.step, State.goto, hn]⟩,
      outcome_takes (σ.goto (.brace (some (.repeatTimes n.value))))
        ⟨none, by simp [State.step, State.goto, State.mark, hr]⟩,
      Block.outcome_eq _ hb]
    rfl
  | .forever hw hb => by
    rw [List.cons_append, outcome_takes _ (takes_keyword hσ .forever hw)]
    exact Block.outcome_eq _ hb
  | .branch hw hc hb => by
    rw [List.append_assoc, outcome_branch hσ hw hc, Block.outcome_eq _ hb]
    exact outcome_afterConsequent (hus rfl)
  | .branchElse hw hc hb he ha => by
    rw [List.append_assoc, List.append_assoc, outcome_branch hσ hw hc, Block.outcome_eq _ hb,
      State.closed, List.cons_append, outcome_takes _ (takes_else he _ _)]
    exact Block.outcome_eq _ ha
  | .awaitUntil hw hu hc he => by
    simp only [List.cons_append, List.append_assoc, List.nil_append]
    rw [outcome_takes _ (takes_keyword hσ .awaitUntil hw),
      outcome_takes (σ.goto (.conditionOpen .awaitUntil))
        ⟨none, by simp [State.step, State.goto, State.afterKeyword, hu]⟩,
      hc.outcome_eq, afterCondition]
    exact outcome_takes _ ⟨none, by simp [State.step, State.goto, State.mark, he, State.finish_eq,
      State.push]⟩
  | .call hn hk hw ha hd he => by
    simp only [List.cons_append, List.append_assoc, List.nil_append]
    rw [outcome_takes _ (takes_name hσ hn hk), outcome_bareWords hw,
      ha.outcome_eq (hd.head_of_end he), hd.outcome_eq he, List.nil_append]
theorem Statements.outcome_eq {σ : State .program} {ts us : List Token} {ss : List Stmt}
    (hσ : σ.phase = .statement) (hus : ∀ t ∈ us.head?, t.isWord "else" = false) :
    Statements ts ss → outcome σ (ts ++ us) = outcome { σ with body := σ.body ++ ss } us
  | .nil => by simp
  | @Statements.cons _ _ vs _ h hs hn => by
    rw [List.append_assoc, Statement.outcome_eq hσ ?_ h, Statements.outcome_eq rfl hus hs]
    · simp [State.push, hσ]
    · intro ho t ht
      cases vs with
      | nil => exact hus t (by simpa using ht)
      | cons v vs => exact hn ho t (by simpa using ht)
theorem Block.outcome_eq {σ : State .program} {ts us : List Token} {ss : List Stmt}
    (opener : Opener) :
    Block ts ss → outcome (σ.goto (.brace (some opener))) (ts ++ us) =
      outcome (σ.closed ss opener) us
  | .mk (r := r) hl h hr => by
    have hw : ∀ t ∈ (r :: us).head?, t.isWord "else" = false := by
      rintro t ht
      obtain rfl : r = t := by simpa using ht
      exact Token.isWord_of_isPunct hr
    simp only [List.cons_append, List.append_assoc, List.nil_append]
    rw [outcome_takes ⟨.statement, [], (opener, σ.body) :: σ.outer⟩
        ⟨none, by simp [State.step, State.goto, State.mark, hl]⟩,
      Statements.outcome_eq rfl hw h, List.nil_append]
    refine outcome_takes _ ⟨none, ?_⟩
    simp only [State.step]
    rw [State.atStatement_close rfl hr]
    cases opener <;> rfl
end

/-- The tokens of a program are read as it, and what follows them is not looked at. -/
theorem Program.outcome_eq (h : Program ts p) : outcome State.program (ts ++ us) = .ok p := by
  obtain @⟨ts, body, e, h, he⟩ := h
  have hw : ∀ t ∈ (e :: us).head?, t.isWord "else" = false := by
    intro t ht
    obtain rfl : e = t := by simpa using ht
    exact Token.isWord_of_kind (by simp [Token.isEof_iff.1 he])
  rw [List.append_assoc, List.singleton_append, h.outcome_eq rfl hw]
  exact outcome_end rfl rfl he

end Lia.Grammar
