import Lia.Proofs.Grammar.Parse
import Lia.Proofs.Parser.Run

/-!
# Where the tokens stand

A step looks at the kind and the value of a token, not at its place, so neither does a run
(`run_unplaced`), and the places and the source serve to locate an error only. Main
statement: two sources with the same lexemes are read alike, however they are laid out
(`parse_layout`).
-/

namespace Lia

open Lia.Parser

-- ---------------------------------------------------------------------------
-- Runs
-- ---------------------------------------------------------------------------

namespace Parser

def Stop.unplaced : Stop → Stop
  | .refused expected t => .refused expected t.unplaced
  | .outOfTokens => .outOfTokens

variable {g : Goal}

theorem step_unplaced (σ : State g) (t : Token) : σ.step t.unplaced = σ.step t := rfl

theorem run_unplaced (σ : State g) (ts : List Token) : run σ (ts.map Token.unplaced) =
    ⟨(run σ ts).taken, (run σ ts).notes, (run σ ts).result.mapError Stop.unplaced⟩ := by
  induction ts generalizing σ with
  | nil => rfl
  | cons t ts ih =>
    rw [List.map_cons]
    unfold run
    rw [step_unplaced]
    cases σ.step t with
    | next σ' note => simp only [ih]
    | done | before | refuse => rfl

end Parser

-- ---------------------------------------------------------------------------
-- Errors and readings
-- ---------------------------------------------------------------------------

namespace ParseError

/-- How the message begins. -/
def place (e : ParseError) : String :=
  match e.location with
  | some (line, column) => s!"line {line}, column {column}"
  | none => s!"token {e.index}"

/-- The message behind the place. -/
def complaint (e : ParseError) : String :=
  ": expected " ++ e.expected ++ ", got " ++ e.token.describe

theorem message_eq (e : ParseError) : e.message = e.place ++ e.complaint := by
  have h : e.message = e.place ++ ": expected " ++ e.expected ++ ", got " ++ e.token.describe := rfl
  simp only [h, complaint, String.append_assoc]

/-- The same error, wherever its token stands. -/
structure Alike (e e' : ParseError) : Prop where
  index : e.index = e'.index
  expected : e.expected = e'.expected
  token : e.token.unplaced = e'.token.unplaced
  message : ∃ rest, e.message = e.place ++ rest ∧ e'.message = e'.place ++ rest

theorem Alike.of_unplaced {e e' : ParseError} (index : e.index = e'.index)
    (expected : e.expected = e'.expected) (token : e.token.unplaced = e'.token.unplaced) :
    e.Alike e' := by
  refine ⟨index, expected, token, e.complaint, e.message_eq, ?_⟩
  have hdescribe : e.token.describe = e'.token.describe := by
    show e.token.unplaced.describe = e'.token.unplaced.describe
    rw [token]
  rw [message_eq, complaint, complaint, expected, hdescribe]

end ParseError

/-- The same tokens taken, and the same answer or the same error. -/
structure Reading.Alike (r r' : Reading α) : Prop where
  index : r.cursor.index = r'.cursor.index
  notes : r.notes = r'.notes
  result : (∃ a, r.result = .ok a ∧ r'.result = .ok a) ∨
    ∃ e e', r.result = .error (.unexpected e) ∧ r'.result = .error (.unexpected e') ∧ e.Alike e'

variable {ts us : List Token}

theorem Parser.Stop.refused_of_unplaced {stop : Stop} {expected : String} {t : Token}
    (h : stop.unplaced = .refused expected t) :
    ∃ u, stop = .refused expected u ∧ u.unplaced = t := by
  cases stop with
  | outOfTokens => cases h
  | refused expected' u =>
    cases h
    exact ⟨u, rfl, rfl⟩

theorem Cursor.read_alike {g : Goal} (σ : State g) (h : ts.map Token.unplaced = us.map Token.unplaced)
    (he : endIndex ts < ts.length) (source source' : Option String) :
    ((Cursor.ofTokens ts).read source σ).Alike ((Cursor.ofTokens us).read source' σ) := by
  have hrun : run σ (ts.map Token.unplaced) = run σ (us.map Token.unplaced) := by rw [h]
  rw [run_unplaced, run_unplaced] at hrun
  obtain ⟨htaken, hnotes, hresult⟩ := Outcome.mk.inj hrun
  have hindex : 0 + (run σ ts).taken = 0 + (run σ us).taken := by rw [htaken]
  refine ⟨hindex, hnotes, ?_⟩
  rw [read_result, read_result]
  simp only [ofTokens]
  have hend := run_ne_outOfTokens (σ := σ) he
  cases hr : (run σ ts).result with
  | ok r =>
    cases hr' : (run σ us).result with
    | ok r' =>
      rw [hr, hr'] at hresult
      cases hresult
      exact .inl ⟨r, rfl, rfl⟩
    | error => rw [hr, hr'] at hresult; cases hresult
  | error stop =>
    cases stop with
    | outOfTokens => exact absurd hr hend
    | refused expected t =>
      cases hr' : (run σ us).result with
      | ok => rw [hr, hr'] at hresult; cases hresult
      | error stop =>
        rw [hr, hr'] at hresult
        obtain ⟨u, rfl, hu⟩ := Stop.refused_of_unplaced (Except.error.inj hresult).symm
        exact .inr ⟨_, _, rfl, rfl, .of_unplaced hindex rfl hu.symm⟩

-- ---------------------------------------------------------------------------
-- Lexemes
-- ---------------------------------------------------------------------------

/-- What a source has of a token, apart from its place. -/
def Token.lexeme (t : Token) : TokenKind × String := (t.kind, t.text)

/-- The value is the one that the lexeme spells. -/
theorem Token.Spelt.unplaced_eq {t u : Token} (ht : t.unplaced.Spelt) (hu : u.unplaced.Spelt)
    (h : t.lexeme = u.lexeme) : t.unplaced = u.unplaced := by
  obtain ⟨k, v, pos, w⟩ := t
  obtain ⟨k', v', pos', w'⟩ := u
  obtain ⟨rfl, rfl⟩ : k = k' ∧ w = w' := Prod.mk.inj h
  obtain rfl : v = v' := Except.ok.inj (ht.value.symm.trans hu.value)
  rfl

theorem map_unplaced_eq (ht : ∀ t ∈ ts, t.unplaced.Spelt) (hu : ∀ t ∈ us, t.unplaced.Spelt)
    (h : ts.map Token.lexeme = us.map Token.lexeme) :
    ts.map Token.unplaced = us.map Token.unplaced := by
  induction ts generalizing us with
  | nil => rw [List.map_eq_nil_iff.1 h.symm]
  | cons t ts ih =>
    cases us with
    | nil => cases h
    | cons u us =>
      obtain ⟨hl, h⟩ := List.cons.inj h
      rw [List.forall_mem_cons] at ht hu
      rw [List.map_cons, List.map_cons, ht.1.unplaced_eq hu.1 hl, ih ht.2 hu.2 h]

theorem tokenize_unplaced_eq {s s' : String} (ht : tokenize s = .ok ts) (hu : tokenize s' = .ok us)
    (h : ts.map Token.lexeme = us.map Token.lexeme) :
    ts.map Token.unplaced = us.map Token.unplaced := by
  obtain ⟨ts, rfl, hts⟩ := tokenize_spelt ht
  obtain ⟨us, rfl, hus⟩ := tokenize_spelt hu
  rw [List.map_append, List.map_append] at h ⊢
  rw [map_unplaced_eq hts hus (List.append_inj' h rfl).1]
  rfl

-- ---------------------------------------------------------------------------
-- Main statement
-- ---------------------------------------------------------------------------

/-- Space between the lexemes makes no difference to the program, and none to an error but
for its place. Nor does it matter whether there is a source to place the error in. -/
theorem parse_layout (source source' : Option String) :
    (∀ s s' ts us, tokenize s = .ok ts → tokenize s' = .ok us →
      ts.map Token.lexeme = us.map Token.lexeme → (parse ts source).Alike (parse us source')) ∧
    ∀ ts, (∃ t ∈ ts, t.isEof = true) → (parse ts source).Alike (parse ts source') := by
  constructor
  · intro s s' ts us ht hu h
    have heof := (tokenize_tokenized ht).exists_eof
    exact Cursor.read_alike _ (tokenize_unplaced_eq ht hu h)
      (List.findIdx_lt_length_of_exists heof) source source'
  · intro ts heof
    exact Cursor.read_alike _ rfl (List.findIdx_lt_length_of_exists heof) source source'

/-- A call without its semicolon, whose tokens stand where these offsets say. -/
def unclosedTokens (lpar one rpar stop : Nat) : List Token :=
  let punct (s : String) (pos : Nat) : Token := ⟨.punct, s, some pos, s⟩
  [⟨.ident, "wait", some 0, "wait"⟩, punct "(" lpar, ⟨.number, 1, some one, "1"⟩, punct ")" rpar,
    .eof stop]

theorem unclosed_layout :
    tokenize "wait(1)" = .ok (unclosedTokens 4 5 6 7) ∧
      tokenize "wait (1\n)" = .ok (unclosedTokens 5 6 8 9) ∧
      (unclosedTokens 4 5 6 7).map Token.lexeme = (unclosedTokens 5 6 8 9).map Token.lexeme ∧
      (parse (unclosedTokens 4 5 6 7)).Alike
        (parse (unclosedTokens 5 6 8 9) (some "wait (1\n)")) := by
  have hend (offset : Nat) : scan offset [] = .ok [.eof offset] := by rw [scan]
  have htight : tokenize "wait(1)" = .ok (unclosedTokens 4 5 6 7) := by
    have hopen : scan 4 "(1)".toList = .ok _ :=
      scan_munch rfl rfl (scan_munch rfl rfl (scan_munch rfl rfl (hend 7)))
    exact scan_munch (s := "wait(1)".toList) (m := ⟨.ident, _, _⟩) rfl rfl hopen
  have hloose : tokenize "wait (1\n)" = .ok (unclosedTokens 5 6 8 9) := by
    have hclose : scan 7 "\n)".toList = .ok _ :=
      (scan_space rfl 7).trans (scan_munch rfl rfl (hend 9))
    have hopen : scan 4 " (1\n)".toList = .ok _ :=
      (scan_space rfl 4).trans (scan_munch rfl rfl (scan_munch rfl rfl hclose))
    exact scan_munch (s := "wait (1\n)".toList) (m := ⟨.ident, _, _⟩) rfl rfl hopen
  exact ⟨htight, hloose, rfl, (parse_layout none _).1 _ _ _ _ htight hloose rfl⟩

end Lia
