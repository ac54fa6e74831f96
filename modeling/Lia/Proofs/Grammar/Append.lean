import Lia.Proofs.Stmt.Print
import Lia.Proofs.Token.Append

/-!
# Programs behind one another

A program ends in a final mark, so the tokens of another one can follow without a space.
The grammar joins them as well, but for an `else` that would continue the last `if`. Main
statement: texts of programs are parsed one behind the other, or refused in this one case
(`parseSource_append`).
-/

namespace Lia

open Lia.Parser

/-- An `else` that stands behind the statements would be taken by their last one. -/
def EndsOpen (ss : List Stmt) : Prop := ∃ s ∈ ss.getLast?, s.isOpen = true

namespace Grammar

variable {ts us : List Token} {e t : Token}

-- ---------------------------------------------------------------------------
-- Final marks
-- ---------------------------------------------------------------------------

def Ended (ts : List Token) : Prop := ∃ t ∈ ts.getLast?, t.IsEnd

theorem ended_concat (he : e.IsEnd) (ts : List Token) : Ended (ts ++ [e]) := ⟨e, by simp, he⟩

theorem Ended.append (h : Ended us) (ts : List Token) : Ended (ts ++ us) := by
  obtain ⟨t, ht, he⟩ := h
  exact ⟨t, by simp [Option.mem_def.1 ht], he⟩

theorem Ended.cons (h : Ended ts) (t : Token) : Ended (t :: ts) := h.append [t]

theorem Block.ended (h : Block ts ss) : Ended ts := by
  cases h with
  | mk _ _ hr => exact ended_concat (.inr hr) _

theorem Statement.ended (h : Statement ts s) : Ended ts := by
  cases h with
  | empty he => exact ended_concat (.inl he) []
  | event _ he | awaitUntil _ _ _ he | call _ _ _ _ _ he => exact ended_concat (.inl he) _
  | repeatTimes _ _ _ _ hb => exact (((hb.ended.cons _).cons _).cons _).cons _
  | forever _ hb => exact hb.ended.cons _
  | branch _ _ hb => exact hb.ended.append _
  | branchElse _ _ _ _ ha => exact (ha.ended.cons _).append _

theorem Statements.ended (h : Statements ts ss) : ∀ t ∈ ts.getLast?, t.IsEnd := by
  induction ss generalizing ts with
  | nil =>
    cases h
    simp
  | cons s ss ih =>
    cases h with
    | @cons _ _ us _ h hs =>
      intro t ht
      cases us with
      | nil =>
        obtain ⟨e, he, hend⟩ := h.ended
        rw [List.append_nil, he] at ht
        exact Option.some.inj ht ▸ hend
      | cons u us => exact ih hs t (by simpa using ht)

-- ---------------------------------------------------------------------------
-- An `else` behind an `if`
-- ---------------------------------------------------------------------------

variable {σ : State .program}

theorem outcome_brace (ht : t.isPunct "\x7b" = false) (opener : Option Opener) :
    outcome (σ.goto (.brace opener)) (t :: us) = .error (.refused (Text.quoted "\x7b") t) := by
  cases opener <;> simp [outcome, run, State.step, State.goto, State.mark, ht]

theorem Statement.outcome_else (hσ : σ.phase = .statement) (he : e.isWord "else" = true)
    (h : Statement ts s) (ho : s.isOpen = true) :
    ∃ opener, outcome σ (ts ++ e :: us) = outcome (σ.goto (.brace opener)) us := by
  cases h with
  | @branch _ c _ body _ hw hc hb =>
    refine ⟨some (.alternate c body), ?_⟩
    rw [List.append_assoc, outcome_branch hσ hw hc, Block.outcome_eq _ hb, State.closed,
      outcome_takes _ (takes_else he _ _)]
  | _ => cases ho

/-- An `else` is taken as that of the `if` before it, and has a block. -/
theorem Statements.outcome_else (he : e.isWord "else" = true) (ht : t.isPunct "\x7b" = false)
    {σ : State .program} (hσ : σ.phase = .statement) {ts : List Token} {ss : List Stmt} :
    Statements ts ss → EndsOpen ss →
      outcome σ (ts ++ e :: t :: us) = .error (.refused (Text.quoted "\x7b") t)
  | .nil, ho => by simp [EndsOpen] at ho
  | @Statements.cons ts s vs ss h hs hn, ho => by
    rw [List.append_assoc]
    cases ss with
    | nil =>
      obtain rfl : vs = [] := by cases hs; rfl
      obtain ⟨opener, heq⟩ : ∃ opener, outcome σ (ts ++ e :: t :: us) =
          outcome (σ.goto (.brace opener)) (t :: us) :=
        h.outcome_else hσ he (by simpa [EndsOpen] using ho)
      rw [List.nil_append, heq, outcome_brace ht]
    | cons s' ss =>
      have hhead : s.isOpen = true → ∀ u ∈ (vs ++ e :: t :: us).head?, u.isWord "else" = false := by
        cases vs with
        | nil => cases hs.eq_nil rfl
        | cons v vs => exact hn
      rw [h.outcome_eq hσ hhead]
      exact Statements.outcome_else he ht rfl hs (by simpa [EndsOpen] using ho)

theorem Statements.outcome_eq_outOfTokens (h : Statements ts ss) :
    outcome State.program ts = .error .outOfTokens := by
  have ho : outcome State.program (ts ++ []) = outcome ⟨.statement, ss, []⟩ [] :=
    h.outcome_eq rfl (by simp)
  rwa [List.append_nil] at ho

/-- Behind the name of a call stands no brace, not even behind `else`. -/
theorem Statements.ne_brace (h : Statements (e :: t :: us) ss) (he : e.isWord "else" = true) :
    t.isPunct "\x7b" = false := by
  rw [Bool.eq_false_iff]
  intro hb
  have hk : ∀ w ∈ constructWords, e.isWord w = false := by
    rintro w hw
    refine Token.isWord_of_ne he ?_
    rintro rfl
    simp [constructWords] at hw
  have hi := Token.isIdent_of_isPunct hb
  have hf := Token.isWord_of_isPunct (w := "for") hb
  have hne {s : String} (hs : "\x7b" ≠ s) : t.isPunct s = false := Token.isPunct_of_ne hb hs
  have ho := h.outcome_eq_outOfTokens
  rw [outcome_takes _ (takes_name rfl (Token.isIdent_of_isWord he) hk)] at ho
  simp [outcome, run, State.step, State.goto, State.atFor, State.atCallEnd, hi, hf, hne] at ho

/-- Such a call does not follow an `if` that it would continue. -/
theorem Statements.not_append (h : Statements ts ss) (ho : EndsOpen ss)
    (h' : Statements us ss') (he : ∃ t ∈ us.head?, t.isWord "else" = true) (body : List Stmt) :
    ¬ Statements (ts ++ us) body := by
  intro hbody
  obtain ⟨e, hhead, he⟩ := he
  obtain ⟨us, rfl⟩ := List.head?_eq_some_iff.1 hhead
  cases us with
  -- The call has a final mark, so something stands behind its name.
  | nil =>
    rcases h'.ended e rfl with hend | hend <;> simp [Token.isWord_of_isPunct hend] at he
  | cons t us =>
    have hrefused : outcome State.program (ts ++ e :: t :: us) =
        .error (.refused (Text.quoted "\x7b") t) := h.outcome_else he (h'.ne_brace he) rfl ho
    rw [hbody.outcome_eq_outOfTokens] at hrefused
    cases hrefused

end Grammar

-- ---------------------------------------------------------------------------
-- Texts
-- ---------------------------------------------------------------------------

def BeginsElse (text : String) : Prop :=
  ∃ ts, tokenize text = .ok ts ∧ ∃ t ∈ ts.head?, t.isWord "else" = true

theorem spelled_of_parseSource {text : String} {p : Program} (h : parseSource text = .ok p) :
    ∃ ts, Spelled ts text.toList := by
  obtain ⟨us, htokens, -⟩ := parseSource_ok_iff.1 h
  obtain ⟨ts, hs, -⟩ := exists_spelled htokens
  exact ⟨ts, hs⟩

section
variable {text : String} {ts : List Token} (hs : Spelled ts text.toList)
include hs

theorem parseSource_spelled_iff {body : List Stmt} :
    parseSource text = .ok ⟨body⟩ ↔ Grammar.Statements ts body := by
  refine ⟨fun h => ?_, parseSource_of_spelled hs⟩
  obtain ⟨us, htokens, hus⟩ := hs.tokenize
  obtain ⟨us', htokens', hp⟩ := parseSource_ok_iff.1 h
  obtain rfl : us = us' := Except.ok.inj (htokens.symm.trans htokens')
  have ht := tokenize_tokenized htokens
  rw [← outcome_ok_iff ht, ← outcome_unplaced, outcome_ok_iff ht.unplaced, hus] at hp
  exact hp.statements

theorem parseSource_unexpected (h : ∀ body, ¬ Grammar.Statements ts body) :
    ∃ e, parseSource text = .error (.grammatical (.unexpected e)) := by
  obtain ⟨us, htokens, hus⟩ := hs.tokenize
  have hno : ∀ p, ¬ Grammar.Program us p := by
    rintro ⟨body⟩ hp
    exact h body ((parseSource_spelled_iff hs).1 (parseSource_ok_iff.2 ⟨us, htokens, hp⟩))
  obtain ⟨e, he⟩ := parse_unexpected (tokenize_tokenized htokens) (some text) hno
  exact ⟨e, by simp [parseSource, readSource, htokens, he, Except.mapError]⟩

theorem beginsElse_iff : BeginsElse text ↔ ∃ t ∈ ts.head?, t.isWord "else" = true := by
  obtain ⟨us, htokens, hus⟩ := hs.tokenize
  rw [BeginsElse, htokens]
  simp only [Except.ok.injEq, exists_eq_left']
  cases us with
  | nil => simp at hus
  | cons u us =>
    have hword : u.isWord "else" = u.unplaced.isWord "else" := rfl
    cases ts with
    | nil =>
      obtain ⟨hu, -⟩ := List.cons.inj hus
      have hend : (Token.eof 0).unplaced.isWord "else" = false := rfl
      simp [hword, hu, hend]
    | cons v ts =>
      obtain ⟨hu, -⟩ := List.cons.inj hus
      simp [hword, hu]

end

/-- A text of a program behind another one is parsed as both, unless it begins with an
`else` that the `if` before it takes. -/
theorem parseSource_append {s t : String} {ss us : List Stmt} (hs : parseSource s = .ok ⟨ss⟩)
    (ht : parseSource t = .ok ⟨us⟩) :
    (¬ (EndsOpen ss ∧ BeginsElse t) → parseSource (s ++ t) = .ok ⟨ss ++ us⟩) ∧
      (EndsOpen ss ∧ BeginsElse t → ∃ e, parseSource (s ++ t) = .error (.grammatical (.unexpected e))) := by
  obtain ⟨ts, hts⟩ := spelled_of_parseSource hs
  obtain ⟨vs, hvs⟩ := spelled_of_parseSource ht
  have hgs := (parseSource_spelled_iff hts).1 hs
  have hgt := (parseSource_spelled_iff hvs).1 ht
  have happend : Spelled (ts ++ vs) (s ++ t).toList := by
    rw [String.toList_append]
    exact hts.append hgs.ended hvs
  rw [beginsElse_iff hvs]
  constructor
  · intro hno
    refine (parseSource_spelled_iff happend).2 (.append hgt hgs fun s' hs' ho v hv => ?_)
    rw [Bool.eq_false_iff]
    exact fun he => hno ⟨⟨s', hs', ho⟩, v, hv, he⟩
  · rintro ⟨hopen, helse⟩
    exact parseSource_unexpected happend (hgs.not_append hopen hgt helse)

def choiceSource : String := "if (x) \x7b\x7d"

def elseSource : String := "else;"

def choiceBody : List Stmt := [.branch (.text "x") [] none]

def elseBody : List Stmt := [.call (.text "else") [] .null]

theorem choice_append_else : parseSource choiceSource = .ok ⟨choiceBody⟩ ∧
    parseSource elseSource = .ok ⟨elseBody⟩ ∧
    ¬ (EndsOpen elseBody ∧ BeginsElse choiceSource) ∧
    parseSource (elseSource ++ choiceSource) = .ok ⟨elseBody ++ choiceBody⟩ ∧
    (EndsOpen choiceBody ∧ BeginsElse elseSource) ∧
    ∃ e, parseSource (choiceSource ++ elseSource) = .error (.grammatical (.unexpected e)) := by
  have hchoice : Spelled [.word "if", .mark '(', .word "x", .mark ')', .mark '\x7b', .mark '\x7d']
      choiceSource.toList :=
    .word (w := "if") rfl (broken_cons rfl) <| .space rfl <| .mark rfl <|
      .word (w := "x") rfl (broken_cons rfl) <| .mark rfl <| .space rfl <| .mark rfl <| .mark rfl .nil
  have helse : Spelled [.word "else", .mark ';'] elseSource.toList :=
    .word (w := "else") rfl (broken_cons rfl) <| .mark rfl .nil
  have hword : ∀ t ∈ [Token.word "x"], t.isPunct ")" = false ∧ t.isEof = false := by
    simp [Token.isPunct, Token.isEof, Token.word]
  have hcond : Grammar.Condition [.mark '(', .word "x", .mark ')'] "x" := .mk rfl hword rfl
  have hnil : Grammar.Statements [] [] := .nil
  have hblock : Grammar.Block [.mark '\x7b', .mark '\x7d'] [] := .mk rfl hnil rfl
  have hp : parseSource choiceSource = .ok ⟨choiceBody⟩ :=
    parseSource_of_spelled hchoice (.cons (.branch rfl hcond hblock) hnil (by simp))
  have hwords : ∀ t ∈ ([] : List Token), Grammar.IsBareWord t := by simp
  have hcall : Grammar.Statement [.word "else", .mark ';'] (.call (.text "else") [] .null) :=
    .call rfl (by decide) hwords .absent .absent rfl
  have hq : parseSource elseSource = .ok ⟨elseBody⟩ :=
    parseSource_of_spelled helse (.cons hcall hnil (by simp))
  have hno : ¬ (EndsOpen elseBody ∧ BeginsElse choiceSource) := by
    simp [EndsOpen, elseBody, Stmt.isOpen]
  have hyes : EndsOpen choiceBody ∧ BeginsElse elseSource :=
    ⟨⟨_, rfl, rfl⟩, (beginsElse_iff helse).2 ⟨_, rfl, rfl⟩⟩
  exact ⟨hp, hq, hno, (parseSource_append hq hp).1 hno, hyes, (parseSource_append hp hq).2 hyes⟩

end Lia
