import Lia.Report
import Lia.Proofs.Grammar.Parse
import Lia.Proofs.Parser.FirstError
import Lia.Proofs.Text.Lines
import Lia.Proofs.Token.Segmentation
import Lia.Proofs.Token.Unexpected

/-!
# Reports show the place of an error

A token that is refused stands somewhere in the source or at its end, and so does what begins no
lexeme. Main statement: the report of either error quotes the line that this offset lies in, under
its number, and line and column lead back to the offset (`report_locates`).
-/

namespace Lia

open Text

/-- A token of a source stands where its spelling begins, and the end behind all of it. -/
inductive Token.StandsAt (s : String) : Token → Nat → Prop
  | lexeme (h : t.LongestAt s.toList o) : StandsAt s t o
  | eof : StandsAt s (.eof s.length) s.length

/-- The report quotes the line that an offset lies in, so many characters from its beginning. -/
structure SourceError.ReportedAt (s : String) (e : SourceError) (o n d : Nat) : Prop where
  number_eq : n = 1 + (s.toList.take o).count '\n'
  quotes : ∃ line, LiesIn (splitLines s.toList) o n line d ∧ ∀ fileName,
    report fileName s e = fileName ++ ":" ++ toString n ++ ": error: " ++ e.message ++ "\n" ++
      "    " ++ strip (String.ofList line) ++ "\n"

section
variable {s : String} {t : Token} {o : Nat}

theorem Token.StandsAt.pos (h : t.StandsAt s o) : t.pos = some o := by
  cases h with
  | lexeme h => exact h.pos
  | eof => rfl

theorem Token.StandsAt.le_length (h : t.StandsAt s o) : o ≤ s.length := by
  cases h with
  | lexeme h =>
    obtain ⟨hlt, -⟩ := h.not_space
    rw [String.length_toList] at hlt
    exact hlt.le
  | eof => exact le_rfl

theorem Tokenization.standsAt {ts : List Token} (h : Tokenization s ts) (ht : t ∈ ts) :
    ∃ o, t.StandsAt s o := by
  obtain ⟨lexemes, rfl, -, hl⟩ := h
  rcases List.mem_append.1 ht with ht | ht
  · obtain ⟨o, -, h⟩ := hl.longest t ht
    exact ⟨o, .lexeme h⟩
  · obtain rfl := List.mem_singleton.1 ht
    exact ⟨_, .eof⟩

end

-- ---------------------------------------------------------------------------
-- Errors of a source
-- ---------------------------------------------------------------------------

theorem mapError_eq_error_iff {r : Except ε α} {f : ε → ε'} {e' : ε'} :
    r.mapError f = .error e' ↔ ∃ e, r = .error e ∧ f e = e' := by
  cases r with
  | ok a => exact iff_of_false (fun h => by cases h) (fun ⟨_, h, _⟩ => by cases h)
  | error e => simp [Except.mapError]

variable {s : String} {o n d : Nat}

theorem parseSource_grammatical_iff {e : ParseFailure} :
    parseSource s = .error (.grammatical e) ↔
      ∃ ts, tokenize s = .ok ts ∧ (parse ts (some s)).result = .error e := by
  unfold parseSource readSource
  cases ht : tokenize s with
  | error e => simp
  | ok ts => simp [mapError_eq_error_iff]

theorem parseSource_lexical_iff {e : LexError} :
    parseSource s = .error (.lexical e) ↔ tokenize s = .error e := by
  unfold parseSource readSource
  cases ht : tokenize s with
  | error e => simp
  | ok ts => simp [mapError_eq_error_iff]

theorem parseSource_standsAt {e : ParseError}
    (h : parseSource s = .error (.grammatical (.unexpected e))) :
    ∃ o, e.token.StandsAt s o ∧ e.location = some (lineAt s o, columnAt s o) := by
  obtain ⟨ts, ht, hp⟩ := parseSource_grammatical_iff.1 h
  obtain ⟨-, htoken, hlocation⟩ := parse_unexpected_iff.1 hp
  obtain ⟨o, ho⟩ := ((tokenization_iff ht).2 rfl).standsAt (List.mem_of_getElem? htoken)
  refine ⟨o, ho, ?_⟩
  rw [hlocation, locate, ho.pos]
  rfl

theorem SourceError.reportedAt {e : SourceError} {line : List Char}
    (h : LiesIn (splitLines s.toList) o n line d) (he : e.line? s = some (n, lineText s n)) :
    e.ReportedAt s o n d := by
  obtain ⟨-, hn, -⟩ := liesIn_iff.1 ⟨line, h⟩
  refine ⟨by rw [hn, lineAt, Nat.add_comm], line, h, fun fileName => ?_⟩
  rw [report, he, ← h.lineText_eq]

-- ---------------------------------------------------------------------------
-- Main statement
-- ---------------------------------------------------------------------------

theorem report_locates (s : String) :
    (∀ e, parseSource s = .error (.grammatical (.unexpected e)) → ∃ o n d,
      e.token.StandsAt s o ∧ e.location = some (n, d + 1) ∧
        (SourceError.grammatical (.unexpected e)).ReportedAt s o n d) ∧
    (∀ o snippet, tokenize s = .error (.unexpected o snippet) → ∃ n d,
      parseSource s = .error (.lexical (.unexpected o snippet)) ∧
        (SourceError.lexical (.unexpected o snippet)).ReportedAt s o n d) ∧
    ∀ o o' n n' d d' line line', LiesIn (splitLines s.toList) o n line d →
      LiesIn (splitLines s.toList) o' n' line' d' → (o = o' ↔ n = n' ∧ d = d') := by
  refine ⟨fun e he => ?_, fun o snippet he => ?_, fun o o' n n' d d' line line' h h' => ?_⟩
  · obtain ⟨o, ho, hlocation⟩ := parseSource_standsAt he
    obtain ⟨n, line, d, h⟩ := exists_liesIn (String.length_toList.symm ▸ ho.le_length)
    obtain ⟨-, hn, hd⟩ := liesIn_iff.1 ⟨line, h⟩
    rw [← hn, ← hd] at hlocation
    refine ⟨o, n, d, ho, hlocation, SourceError.reportedAt h ?_⟩
    rw [SourceError.line?, hlocation, Option.map_some]
  · obtain ⟨hu, -⟩ := scan_unexpected_iff.1 he
    obtain ⟨n, line, d, h⟩ := exists_liesIn hu.lt_length.le
    obtain ⟨-, hn, -⟩ := liesIn_iff.1 ⟨line, h⟩
    refine ⟨n, d, parseSource_lexical_iff.2 he, SourceError.reportedAt h ?_⟩
    rw [SourceError.line?, hn]
  · constructor
    · rintro rfl
      obtain ⟨-, rfl, hd⟩ := liesIn_iff.1 ⟨line, h⟩
      obtain ⟨-, rfl, hd'⟩ := liesIn_iff.1 ⟨line', h'⟩
      exact ⟨rfl, by omega⟩
    · rintro ⟨rfl, rfl⟩
      rw [h.offset_eq, h'.offset_eq]

/-- A newline inside a text, and nothing behind the call. -/
def openCall : String := "x(\"\n\")"

def openCallTokens : List Token :=
  [⟨.ident, .text "x", some 0, "x"⟩, ⟨.punct, .text "(", some 1, "("⟩,
    ⟨.string, .text "\n", some 2, "\"\n\""⟩, ⟨.punct, .text ")", some 5, ")"⟩, .eof 6]

/-- A quote that is not closed, on the second line. -/
def openQuote : String := "\n\"x"

theorem openCall_located :
    let e : ParseError := ⟨"';' after statement x", .eof 6, 4, some (2, 3)⟩
    parseSource openCall = .error (.grammatical (.unexpected e)) ∧
      (∃ o n d, e.token.StandsAt openCall o ∧ e.location = some (n, d + 1) ∧
        (SourceError.grammatical (.unexpected e)).ReportedAt openCall o n d) ∧
      tokenize openQuote = .error (.unexpected 1 "\"x") ∧
      (∃ n d, parseSource openQuote = .error (.lexical (.unexpected 1 "\"x")) ∧
        (SourceError.lexical (.unexpected 1 "\"x")).ReportedAt openQuote 1 n d) ∧
      LiesIn (splitLines openCall.toList) 4 2 "\")".toList 0 ∧
      LiesIn (splitLines openCall.toList) 6 2 "\")".toList 2 ∧ (4 = 6 ↔ 2 = 2 ∧ 0 = 2) := by
  intro e
  have hend : scan 6 [] = .ok [.eof 6] := by rw [scan]
  have hstring : scan 2 "\"\n\")".toList = .ok _ :=
    scan_munch rfl rfl (scan_munch (m := ⟨.punct, _, _⟩) rfl rfl hend)
  have htokens : tokenize openCall = .ok openCallTokens :=
    scan_munch (s := openCall.toList) (m := ⟨.ident, _, _⟩) rfl rfl
      (scan_munch (m := ⟨.punct, _, _⟩) rfl rfl hstring)
  have hparse : (parse openCallTokens (some openCall)).result = .error (.unexpected e) := rfl
  have he := parseSource_grammatical_iff.2 ⟨_, htokens, hparse⟩
  have hquote : tokenize openQuote = .error (.unexpected 1 "\"x") := by
    refine (scan_space (c := '\n') (s := "\"x".toList) rfl 0).trans ?_
    rw [show "\"x".toList = ['"', 'x'] from rfl, scan]
    rfl
  have h : LiesIn (splitLines openCall.toList) 4 2 "\")".toList 0 :=
    ⟨by decide, by decide, by decide, by decide, by decide⟩
  have h' : LiesIn (splitLines openCall.toList) 6 2 "\")".toList 2 :=
    ⟨by decide, by decide, by decide, by decide, by decide⟩
  exact ⟨he, (report_locates openCall).1 e he, hquote, (report_locates openQuote).2.1 _ _ hquote,
    h, h', (report_locates openCall).2.2 _ _ _ _ _ _ _ _ h h'⟩

end Lia
