import Lia.Proofs.Grammar.Complete
import Lia.Proofs.Grammar.Sound
import Lia.Proofs.Token.Spelled

/-!
# The parser accepts the grammar

`parse_iff_program`: of the tokens of a source, `parse` makes the program that the
grammar gives them, and an error if it gives none. `parseSource_ok_iff` says which
source texts give a program. The grammar itself is unambiguous (`Grammar.Program.unique`).
-/

namespace Lia

-- ---------------------------------------------------------------------------
-- The tokens of a source
-- ---------------------------------------------------------------------------

/-- Spellings of the four classes, and the end of the source behind them. -/
inductive Tokenized : List Token → Prop
  | eof (he : e.isEof) : Tokenized [e]
  | cons (ht : t.kind ∈ [.punct, .ident, .string, .number]) (h : Tokenized ts) : Tokenized (t :: ts)

theorem munch_kind {s : List Char} {m : Munch} (h : munch s = some m) :
    m.kind ∈ [.punct, .ident, .string, .number] := by
  have hs := munch_spells h
  cases hk : m.kind with
  | eof | other => simp [hk, TokenKind.spells] at hs
  | _ => simp

theorem Scanned.tokenized {offset : Nat} {s : List Char} {ts : List Token}
    (h : Scanned offset s ts) : Tokenized ts := by
  induction h with
  | eof => exact .eof rfl
  | space _ _ ih => exact ih
  | lexeme hm _ _ ih => exact .cons (munch_kind hm) ih

theorem tokenize_tokenized {source : String} (h : tokenize source = .ok ts) : Tokenized ts :=
  (Scanned.of_scan h).tokenized

theorem Tokenized.exists_eof (h : Tokenized ts) : ∃ t ∈ ts, t.isEof = true := by
  induction h with
  | eof he => exact ⟨_, by simp, he⟩
  | cons _ _ ih =>
    obtain ⟨t, ht, he⟩ := ih
    exact ⟨t, .tail _ ht, he⟩

theorem Tokenized.unplaced (h : Tokenized ts) : Tokenized (ts.map Token.unplaced) := by
  induction h with
  | eof he => exact .eof he
  | cons ht _ ih => exact .cons ht ih

/-- The first end of the source is the last token. -/
theorem Tokenized.eq_nil (h : Tokenized (ts ++ e :: us)) (he : e.isEof = true) : us = [] := by
  induction ts with
  | nil =>
    cases h with
    | eof => rfl
    | cons ht => simp [Token.isEof_iff.1 he] at ht
  | cons t ts ih =>
    rw [List.cons_append] at h
    generalize hw : ts ++ e :: us = ws at h ih
    cases h with
    | eof => simp at hw
    | cons _ h => exact ih h

-- ---------------------------------------------------------------------------
-- Main statements
-- ---------------------------------------------------------------------------

open Lia.Parser

theorem Grammar.Program.unique (hp : Grammar.Program ts p) (hq : Grammar.Program ts q) : p = q := by
  have hp : outcome State.program (ts ++ []) = .ok p := hp.outcome_eq
  rw [hq.outcome_eq] at hp
  exact (Except.ok.inj hp).symm

theorem Grammar.Program.statements {body : List Stmt} (h : Grammar.Program (ts ++ [e]) ⟨body⟩) :
    Grammar.Statements ts body := by
  generalize hus : ts ++ [e] = us at h
  obtain @⟨vs, body, e', hs, -⟩ := h
  obtain rfl : ts = vs := (List.append_inj' hus rfl).1
  exact hs

theorem outcome_ok_iff (h : Tokenized ts) (p : Program) :
    outcome State.program ts = .ok p ↔ Grammar.Program ts p := by
  constructor
  · intro ho
    obtain ⟨us, rest, rfl, hp⟩ := Grammar.Program.of_outcome ho
    obtain @⟨vs, body, e, hs, he⟩ := hp
    obtain rfl : rest = [] := Tokenized.eq_nil (by simpa using h) he
    rw [List.append_nil]
    exact .mk hs he
  · intro hp
    rw [← List.append_nil ts]
    exact hp.outcome_eq

theorem parse_ok_iff (h : Tokenized ts) (source : Option String) (p : Program) :
    (parse ts source).result = .ok p ↔ Grammar.Program ts p :=
  parse_eq_ok_iff.trans (outcome_ok_iff h p)

theorem parse_unexpected (h : Tokenized ts) (source : Option String)
    (hno : ∀ p, ¬ Grammar.Program ts p) : ∃ e, (parse ts source).result = .error (.unexpected e) := by
  cases hr : (parse ts source).result with
  | ok p => exact absurd ((parse_ok_iff h source p).1 hr) (hno p)
  | error e =>
    cases e with
    | unexpected e => exact ⟨e, rfl⟩
    | outOfTokens =>
      obtain ⟨t, ht, he⟩ := h.exists_eof
      exact absurd (parse_eq_outOfTokens_iff.1 hr) (outcome_ne_outOfTokens ht he)

theorem parse_iff_program (h : Tokenized ts) (source : Option String) :
    (∀ p, (parse ts source).result = .ok p ↔ Grammar.Program ts p) ∧
      ((∀ p, ¬ Grammar.Program ts p) →
        ∃ e, (parse ts source).result = .error (.unexpected e)) :=
  ⟨parse_ok_iff h source, parse_unexpected h source⟩

/-- `if (x) { say for(2); } else { ; }` -/
def choiceTokens : List Token :=
  let punct (s : String) := Token.of .punct s none
  let word (s : String) := Token.of .ident s none
  [word "if", punct "(", word "x", punct ")", punct "\x7b", word "say", word "for", punct "(",
    Token.of .number 2 none, punct ")", punct ";", punct "\x7d", word "else", punct "\x7b",
    punct ";", punct "\x7d", Token.eof 0]

theorem choiceTokens_program : Tokenized choiceTokens ∧ Grammar.Program choiceTokens
    ⟨[.branch (.text "x") [.call (.text "say") [] 2] (some [.empty])]⟩ := by
  have h : Tokenized choiceTokens := by
    repeat refine .cons (by decide) ?_
    exact .eof rfl
  exact ⟨h, ((parse_iff_program h none).1 _).1 (by rfl)⟩

theorem mapError_eq_ok_iff {r : Except ε α} {f : ε → ε'} {a : α} :
    r.mapError f = .ok a ↔ r = .ok a := by
  cases r with
  | ok b => exact ⟨fun h => congrArg _ (Except.ok.inj h), fun h => congrArg _ (Except.ok.inj h)⟩
  | error => exact iff_of_false (fun h => by cases h) (fun h => by cases h)

theorem parseSource_ok_iff {source : String} {p : Program} :
    parseSource source = .ok p ↔ ∃ ts, tokenize source = .ok ts ∧ Grammar.Program ts p := by
  unfold parseSource readSource
  cases ht : tokenize source with
  | error e => simp
  | ok ts =>
    have h := parse_ok_iff (tokenize_tokenized ht) (some source) p
    simp only [mapError_eq_ok_iff, h, Except.ok.injEq, exists_eq_left']

end Lia
