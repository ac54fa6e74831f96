import Lia.Proofs.Grammar
import Lia.Proofs.Parser.Run

/-!
# Single steps of reading a program

What a state of the reader makes of the tokens that the grammar names, when a whole
program is wanted: no statement is the goal then, so a statement that ends always
joins its list. Main statements: a token that is taken can be left out in front
(`outcome_takes`), and no state goes past the end of the source
(`State.step_eof`).
-/

namespace Lia.Parser

-- ---------------------------------------------------------------------------
-- Words of constructs
-- ---------------------------------------------------------------------------

namespace Keyword

theorem ofValue?_word (k : Keyword) : ofValue? (.text k.word) = some k := by cases k <;> rfl

theorem ofValue?_eq_some_iff {v : Value} {k : Keyword} :
    ofValue? v = some k ↔ v = .text k.word := by
  constructor
  · intro h
    unfold ofValue? at h
    split at h <;> cases h <;> rfl
  · rintro rfl
    exact ofValue?_word k

theorem word_mem (k : Keyword) : k.word ∈ Grammar.constructWords := by cases k <;> decide

theorem exists_of_mem {w : String} (h : w ∈ Grammar.constructWords) : ∃ k : Keyword, k.word = w := by
  simp only [Grammar.constructWords, List.mem_cons, List.not_mem_nil, or_false] at h
  obtain rfl | rfl | rfl | rfl | rfl := h
  · exact ⟨.event, rfl⟩
  · exact ⟨.repeatTimes, rfl⟩
  · exact ⟨.forever, rfl⟩
  · exact ⟨.branch, rfl⟩
  · exact ⟨.awaitUntil, rfl⟩

/-- A name begins a call if it is none of the words that begin a construct. -/
theorem ofValue?_eq_none_iff {t : Token} (ht : t.isIdent = true) :
    ofValue? t.value = none ↔ ∀ w ∈ Grammar.constructWords, t.isWord w = false := by
  rw [Token.isIdent_iff] at ht
  constructor
  · intro h w hw
    obtain ⟨k, rfl⟩ := exists_of_mem hw
    rw [Bool.eq_false_iff]
    intro hk
    rw [(Token.isWord_iff.1 hk).2, ofValue?_word] at h
    cases h
  · intro h
    cases hk : ofValue? t.value with
    | none => rfl
    | some k =>
      have hf := h _ k.word_mem
      rw [Token.isWord_iff.2 ⟨ht, ofValue?_eq_some_iff.1 hk⟩] at hf
      cases hf

end Keyword

-- ---------------------------------------------------------------------------
-- Runs
-- ---------------------------------------------------------------------------

variable {σ σ' : State .program} {ts : List Token} {t : Token}

/-- What reading a program gives from a state on. -/
def outcome (σ : State .program) (ts : List Token) : Except Stop Program := (run σ ts).result

/-- The reading goes on behind the token, or it ends with an error. -/
def Step.goesOn : Step g → Bool
  | .next .. | .refuse .. => true
  | _ => false

/-- A token that is taken, whatever is noted about it. -/
def State.Takes (σ : State .program) (t : Token) (σ' : State .program) : Prop :=
  ∃ note, σ.step t = .next σ' note

theorem outcome_takes (σ' : State .program) (h : σ.Takes t σ') : outcome σ (t :: ts) = outcome σ' ts := by
  obtain ⟨note, h⟩ := h
  simp [outcome, run, h]

/-- States that make the same of the next token read alike. -/
theorem outcome_congr (h : ∀ t ∈ ts.head?, σ.step t = σ'.step t) : outcome σ ts = outcome σ' ts := by
  cases ts with
  | nil => rfl
  | cons t ts => simp [outcome, run, h t (by simp)]

namespace State

/-- No statement is the goal, so each joins its list. -/
theorem finish_eq (s : Stmt) : σ.finish s = .next (σ.push s) := rfl

-- ---------------------------------------------------------------------------
-- A statement is due
-- ---------------------------------------------------------------------------

theorem atStatement_ident (ht : t.isIdent = true) : σ.atStatement t = σ.begin t := by
  have he := Token.isEof_of_isIdent ht
  have hp : t.isPunct "\x7d" = false := Token.isPunct_of_isIdent ht
  unfold atStatement
  split <;> simp [beginOr, he, hp]

theorem atStatement_semicolon (ht : t.isPunct ";" = true) :
    σ.atStatement t = .next (σ.push .empty) := by
  have he := Token.isEof_of_isPunct ht
  have hi := Token.isIdent_of_isPunct ht
  have hp : t.isPunct "\x7d" = false := Token.isPunct_of_ne ht (by decide)
  unfold atStatement
  split <;> simp [beginOr, begin, finish_eq, he, hp, hi, ht]

theorem atStatement_keyword {k : Keyword} (ht : t.isWord k.word = true) :
    σ.atStatement t = .next (σ.goto (afterKeyword k)) := by
  have hi := Token.isIdent_of_isWord ht
  rw [atStatement_ident hi]
  simp [begin, hi, (Token.isWord_iff.1 ht).2, Keyword.ofValue?_word]

theorem atStatement_name (hi : t.isIdent = true)
    (hk : ∀ w ∈ Grammar.constructWords, t.isWord w = false) :
    σ.atStatement t = .next (σ.goto (.callWords ⟨t.value, []⟩)) (verbNote? t.value) := by
  rw [atStatement_ident hi]
  simp [begin, hi, (Keyword.ofValue?_eq_none_iff hi).2 hk]

/-- What a list of statements becomes when its brace closes. The state is the one
before the list was opened. -/
def closed (σ : State .program) (inner : List Stmt) : Opener → State .program
  | .repeatTimes count => σ.push (.repeatTimes count inner)
  | .forever => σ.push (.forever inner)
  | .consequent c => σ.goto (.afterConsequent c inner)
  | .alternate c consequent => σ.push (.branch (.text c) consequent (some inner))

theorem close_eq (opener : Opener) (inner : List Stmt) :
    σ.close opener inner = .next (σ.closed inner opener) := by
  cases opener <;> rfl

theorem atStatement_close (ho : σ.outer = (opener, before) :: around) (ht : t.isPunct "\x7d" = true) :
    σ.atStatement t = .next (closed ⟨.statement, before, around⟩ σ.body opener) := by
  simp [atStatement, ho, beginOr, ht, close_eq]

theorem step_statement (hσ : σ.phase = .statement) : σ.step t = σ.atStatement t := by
  simp [step, hσ]

theorem atStatement_end (ho : σ.outer = []) (ht : t.isEof = true) :
    σ.atStatement t = .before ⟨σ.body⟩ (some (.parsed σ.body.length)) := by
  simp [atStatement, ho, ht]

theorem step_afterConsequent {inner : List Stmt} (hσ : σ.phase = .afterConsequent c inner)
    (ht : t.isWord "else" = false) :
    σ.step t = (σ.push (.branch (.text c) inner none)).atStatement t := by
  simp [step, hσ, atElse, ht, asGoal?]

-- ---------------------------------------------------------------------------
-- Where a reading ends
-- ---------------------------------------------------------------------------

theorem goesOn_ite {b : Prop} [Decidable b] {x y : Step g} (hx : x.goesOn) (hy : y.goesOn) :
    (if b then x else y).goesOn := by
  split <;> assumption

theorem begin_goesOn : (σ.begin t).goesOn := by
  refine goesOn_ite ?_ (goesOn_ite rfl rfl)
  split <;> rfl

theorem atStatement_goesOn (ht : t.isEof = false) : (σ.atStatement t).goesOn := by
  unfold atStatement
  split
  · rw [close_eq]
    exact goesOn_ite rfl (goesOn_ite rfl begin_goesOn)
  · simp only [ht]
    exact begin_goesOn

theorem atFor_goesOn : (σ.atFor c t).goesOn := goesOn_ite rfl (goesOn_ite rfl rfl)

theorem atArg_goesOn : (σ.atArg c t).goesOn := goesOn_ite rfl (goesOn_ite rfl rfl)

/-- No statement is the goal, so a program ends at the end of the source only. -/
theorem step_goesOn (ht : t.isEof = false) : (σ.step t).goesOn := by
  obtain ⟨phase, body, outer⟩ := σ
  cases phase with
  | statement => exact atStatement_goesOn ht
  | brace opener => cases opener <;> exact goesOn_ite rfl rfl
  | eventKind =>
    simp only [step, atEventKind]
    split <;> rfl
  | afterConsequent c inner => exact goesOn_ite rfl (atStatement_goesOn ht)
  | condition use words =>
    refine goesOn_ite ?_ (goesOn_ite rfl rfl)
    cases use <;> rfl
  | callWords c => exact goesOn_ite rfl (goesOn_ite rfl atFor_goesOn)
  | callArgs c => exact atArg_goesOn
  | callComma c => exact goesOn_ite rfl atArg_goesOn
  | callFor c => exact atFor_goesOn
  | _ => exact goesOn_ite rfl rfl

/-- The statements of the program, if the source may end here. -/
def complete? (σ : State .program) : Option (List Stmt) :=
  match σ.outer, σ.phase with
  | [], .statement => some σ.body
  | [], .afterConsequent c inner => some (σ.body ++ [.branch (.text c) inner none])
  | _, _ => none

theorem atStatement_unclosed (ho : σ.outer = l :: around) (ht : t.isEof = true) :
    σ.atStatement t = .refuse "'\x7d' (unclosed block)" := by
  have hp : t.isPunct "\x7d" = false := Token.isPunct_of_kind (by simp [Token.isEof_iff.1 ht])
  simp [atStatement, ho, beginOr, hp, ht]

/-- The end of the source is never taken. -/
theorem step_eof (ht : t.isEof = true) :
    (∃ ss note, σ.complete? = some ss ∧ σ.step t = .before ⟨ss⟩ note) ∨
      ∃ expected note, σ.complete? = none ∧ σ.step t = .refuse expected note := by
  have hk := Token.isEof_iff.1 ht
  have hi : t.isIdent = false := Token.isIdent_of_kind (by simp [hk])
  have hw : ∀ s, t.isWord s = false := fun s => Token.isWord_of_kind (by simp [hk])
  have hp : ∀ s, t.isPunct s = false := fun s => Token.isPunct_of_kind (by simp [hk])
  obtain ⟨phase, body, outer⟩ := σ
  cases phase with
  | statement =>
    rw [step_statement rfl]
    cases outer with
    | nil => exact .inl ⟨body, _, rfl, atStatement_end rfl ht⟩
    | cons l around => exact .inr ⟨_, none, rfl, atStatement_unclosed rfl ht⟩
  | afterConsequent c inner =>
    -- The `if` ends here, and the end of the source stands behind it.
    rw [step_afterConsequent rfl (hw _)]
    cases outer with
    | nil => exact .inl ⟨_, _, rfl, atStatement_end rfl ht⟩
    | cons l around => exact .inr ⟨_, none, rfl, atStatement_unclosed rfl ht⟩
  | brace opener => cases opener <;> simp [step, complete?, mark, hp]
  | _ =>
    simp [step, complete?, mark, atEventKind, atCondition, atArg, atFor, atCallEnd, hi, hw, hp, ht,
      hk]

end State

theorem outcome_end (hσ : σ.phase = .statement) (ho : σ.outer = []) (ht : t.isEof = true) :
    outcome σ (t :: ts) = .ok ⟨σ.body⟩ := by
  simp [outcome, run, State.step_statement hσ, State.atStatement_end ho ht]

/-- No run goes past the end of the source. -/
theorem outcome_ne_outOfTokens (ht : t ∈ ts) (he : t.isEof = true) :
    outcome σ ts ≠ .error .outOfTokens :=
  run_ne_outOfTokens (List.findIdx_lt_length_of_exists ⟨t, ht, he⟩)

end Lia.Parser

namespace Lia

open Lia.Parser

variable {ts : List Token} {source : Option String}

theorem parse_eq_ok_iff {p : Program} :
    (parse ts source).result = .ok p ↔ outcome State.program ts = .ok p := by
  rw [parse, Cursor.read_result, outcome, Cursor.ofTokens]
  split <;> simp [*]

theorem parse_eq_outOfTokens_iff :
    (parse ts source).result = .error .outOfTokens ↔
      outcome State.program ts = .error .outOfTokens := by
  rw [parse, Cursor.read_result, outcome, Cursor.ofTokens]
  split <;> simp [*]

end Lia
