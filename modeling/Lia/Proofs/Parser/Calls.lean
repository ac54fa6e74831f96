import Mathlib.Data.List.Forall2
import Lia.Proofs.Parser.Run
import Lia.Proofs.Parser.Step

/-!
# Calls at a cursor

Whatever is asked of the parser, in any order and also behind errors, the cursor goes on from
token to token up to the first end of the source, and an error is about the token under it.
Each call keeps the cursor inside (`Call.perform_safe`), and gives the same whatever stands
behind that end (`Call.perform_shown`). Main statement, on all calls one after another:
`performAll_safe`.
-/

namespace Lia

open Lia.Parser

-- ---------------------------------------------------------------------------
-- Calls
-- ---------------------------------------------------------------------------

namespace Parser

/-- What can be asked for at a cursor. -/
inductive Call
  | peek
  | next
  | atPunct (mark : String)
  | expect (kind : TokenKind) (value : Value) (expected : String)
  | expectPunct (mark : String)
  | expectNumber (context : String)
  /-- An error about the token, whatever it is. -/
  | refuse (expected : String)
  | program
  | statement
  | construct (k : Keyword)
  /-- A call statement, whose name may be any token. -/
  | simple
  | block
  | bracedBlock
  | condition

namespace Call

abbrev Answer : Call → Type
  | .peek | .next | .expect .. | .expectPunct _ => Token
  | .atPunct _ => Bool
  | .expectNumber _ => Value
  | .refuse _ => Empty
  | .program => Program
  | .statement | .construct _ | .simple => Stmt
  | .block | .bracedBlock => List Stmt
  | .condition => String

def perform (source : Option String) (c : Cursor) : (call : Call) → Reading call.Answer
  | .peek => c.peek
  | .next => c.next
  | .atPunct mark => c.atPunct mark
  | .expect kind value expected => c.expect source kind value expected
  | .expectPunct mark => c.expectPunct source mark
  | .expectNumber context => c.expectNumber source context
  | .refuse expected => c.refuse source expected
  | .program => c.read source State.program
  | .statement => c.read source State.statement
  | .construct k => c.read source (State.keyword k)
  | .simple => c.read source State.call
  | .block => c.read source State.block
  | .bracedBlock => c.read source State.bracedBlock
  | .condition => c.read source State.condition

/-- A part of the grammar that has a token at least, as a whole program need not. -/
def isPart : Call → Bool
  | .statement | .construct _ | .simple | .block | .bracedBlock | .condition => true
  | _ => false

end Call

/-- A program is read up to the end of the source. -/
theorem run_program_taken {σ : State .program} {ts : List Token} {p : Program}
    (h : endIndex ts < ts.length) (hp : (run σ ts).result = .ok p) :
    (run σ ts).taken = endIndex ts := by
  induction ts generalizing σ with
  | nil => cases h
  | cons t ts ih =>
    cases he : t.isEof with
    | true => rw [(run_of_stays (σ.step_eof_stays he)).1, endIndex_cons_of_eof he]
    | false =>
      have hgoes := State.step_goesOn (σ := σ) he
      rw [endIndex_cons he] at h ⊢
      cases hs : σ.step t with
      | next σ' note =>
        simp only [run, hs] at hp ⊢
        rw [ih (Nat.lt_of_succ_lt_succ h) hp]
      | refuse expected note => simp [run, hs] at hp
      | _ => simp [hs, Step.goesOn] at hgoes

/-- The goal is not reached in front of the token. -/
def Step.advances : Step g → Bool
  | .before .. => false
  | _ => true

namespace State

theorem advances_ite {b : Prop} [Decidable b] {x y : Step g} (hx : x.advances) (hy : y.advances) :
    (if b then x else y).advances := by
  split <;> assumption

theorem finish_advances (σ : State g) (s : Stmt) : (σ.finish s).advances := by
  unfold finish
  split <;> rfl

theorem begin_advances (σ : State g) (t : Token) : (σ.begin t).advances := by
  refine advances_ite ?_ (advances_ite (finish_advances _ _) rfl)
  split <;> rfl

end State

/-- A run that does not reach its goal at once takes a token. -/
theorem run_taken_pos {g : Goal} {σ : State g} {ts : List Token} {r : g.Result}
    (h : ∀ t, (σ.step t).advances) (hr : (run σ ts).result = .ok r) : 0 < (run σ ts).taken := by
  cases ts with
  | nil => cases hr
  | cons t ts =>
    have ht := h t
    cases hs : σ.step t with
    | before => simp [hs, Step.advances] at ht
    | refuse => simp [run, hs] at hr
    | _ => simp [run, hs]

/-- A call with the cursor before it and what it gave. -/
structure Performed where
  call : Call
  before : Cursor
  reading : Reading call.Answer

/-- Calls one after another. Each begins where the one before has left the cursor, whether
that one has failed or not. -/
def performAll (source : Option String) (c : Cursor) : List Call → List Performed
  | [] => []
  | call :: calls =>
    let reading := call.perform source c
    ⟨call, c, reading⟩ :: performAll source reading.cursor calls

end Parser

-- ---------------------------------------------------------------------------
-- What a call keeps and shows
-- ---------------------------------------------------------------------------

/-- A place among the tokens, not behind their first end of the source. -/
structure Cursor.Within (c : Cursor) (ts : List Token) : Prop where
  rest : c.rest = ts.drop c.index
  index_le : c.index ≤ endIndex ts

namespace Reading

/-- A reading that begins at a cursor ends there or further on, with an answer or with an error
about the token under the cursor. -/
structure Safe (r : Reading α) (ts : List Token) (before : Cursor) : Prop where
  within : r.cursor.Within ts
  forward : before.index ≤ r.cursor.index
  ends : (∃ a, r.result = .ok a) ∨ ∃ e, r.result = .error (.unexpected e) ∧
    e.index = r.cursor.index ∧ ts[e.index]? = some e.token

/-- Where the cursor is, but not the tokens that remain. -/
def shown (r : Reading α) : Nat × List Note × Except ParseFailure α :=
  (r.cursor.index, r.notes, r.result)

def map (f : α → β) (r : Reading α) : Reading β := ⟨r.cursor, r.notes, r.result.map f⟩

theorem Safe.map {r : Reading α} (h : r.Safe ts c) (f : α → β) : (r.map f).Safe ts c := by
  refine ⟨h.within, h.forward, ?_⟩
  obtain ⟨a, ha⟩ | ⟨e, he, hi⟩ := h.ends
  · exact .inl ⟨f a, congrArg (Except.map f) ha⟩
  · exact .inr ⟨e, congrArg (Except.map f) he, hi⟩

theorem shown_map (r : Reading α) (f : α → β) :
    (r.map f).shown = (r.shown.1, r.shown.2.1, r.shown.2.2.map f) := rfl

end Reading

def Parser.Performed.shown (p : Performed) :
    (call : Call) × Nat × List Note × Except ParseFailure call.Answer :=
  ⟨p.call, p.reading.shown⟩

-- ---------------------------------------------------------------------------
-- Single tokens
-- ---------------------------------------------------------------------------

namespace Cursor

variable {t : Token} {ts : List Token} {n : Nat} {source : Option String}

theorem next_cons : next ⟨t :: ts, n⟩ =
    ⟨if t.isEof then ⟨t :: ts, n⟩ else ⟨ts, n + 1⟩, [], .ok t⟩ := rfl

theorem expect_cons (kind : TokenKind) (value : Value) (expected : String) :
    expect ⟨t :: ts, n⟩ source kind value expected =
      if t.kind = kind && (value.isNull || t.value.same value) then next ⟨t :: ts, n⟩
      else refuse ⟨t :: ts, n⟩ source (if expected = "" then
        (if value.isNull then Text.quoted kind.name else value.literal) else expected) := rfl

theorem expectNumber_cons (context : String) : expectNumber ⟨t :: ts, n⟩ source context =
    (if decide (t.kind = .number) then next ⟨t :: ts, n⟩
      else refuse ⟨t :: ts, n⟩ source ("number in " ++ context)).map Token.value := rfl

end Cursor

-- ---------------------------------------------------------------------------
-- Inside the tokens
-- ---------------------------------------------------------------------------

variable {c c' : Cursor} {ts us : List Token} {source : Option String}

namespace Cursor.Within

theorem start : (Cursor.ofTokens ts).Within ts := ⟨rfl, Nat.zero_le _⟩

theorem advance (hc : c.Within ts) {n : Nat} (hn : c.index + n ≤ endIndex ts) :
    (c.advance n).Within ts := by
  refine ⟨?_, hn⟩
  rw [Cursor.advance, hc.rest, List.drop_drop]

section
variable (hc : c.Within ts) (h : endIndex ts < ts.length)
include hc h

/-- The rest of the tokens has an end of the source as well. -/
theorem endIndex_rest :
    endIndex c.rest = endIndex ts - c.index ∧ endIndex c.rest < c.rest.length := by
  have hi := hc.index_le
  have he : endIndex c.rest = endIndex ts - c.index := by rw [hc.rest, endIndex_drop hi]
  refine ⟨he, ?_⟩
  rw [he, hc.rest, List.length_drop]
  omega

theorem exists_token : ∃ t rest n, c = ⟨t :: rest, n⟩ ∧ ts[n]? = some t := by
  obtain ⟨rest, n⟩ := c
  have hrest : rest = ts.drop n := hc.rest
  obtain ⟨-, hl⟩ := hc.endIndex_rest h
  cases rest with
  | nil => cases hl
  | cons t rest =>
    refine ⟨t, rest, n, rfl, ?_⟩
    rw [← List.head?_drop, ← hrest, List.head?_cons]

-- ---------------------------------------------------------------------------
-- Safety
-- ---------------------------------------------------------------------------

theorem peek_safe : c.peek.Safe ts c := by
  obtain ⟨t, rest, n, rfl, -⟩ := hc.exists_token h
  exact ⟨hc, Nat.le_refl _, .inl ⟨t, rfl⟩⟩

theorem atPunct_safe (mark : String) : (c.atPunct mark).Safe ts c := by
  obtain ⟨t, rest, n, rfl, -⟩ := hc.exists_token h
  exact ⟨hc, Nat.le_refl _, .inl ⟨t.isPunct mark, rfl⟩⟩

theorem refuse_safe (expected : String) : (c.refuse source expected : Reading α).Safe ts c := by
  obtain ⟨t, rest, n, rfl, ht⟩ := hc.exists_token h
  exact ⟨hc, Nat.le_refl _, .inr ⟨_, rfl, rfl, ht⟩⟩

theorem next_safe : c.next.Safe ts c := by
  obtain ⟨t, rest, n, rfl, -⟩ := hc.exists_token h
  rw [next_cons]
  cases he : t.isEof with
  | true => exact ⟨hc, Nat.le_refl _, .inl ⟨t, rfl⟩⟩
  | false =>
    have hi := hc.index_le
    have hrest := (hc.endIndex_rest h).1
    simp only [endIndex_cons he] at hi hrest
    exact ⟨hc.advance (n := 1) (show n + 1 ≤ endIndex ts by omega), Nat.le_succ n, .inl ⟨t, rfl⟩⟩

theorem expect_safe (kind : TokenKind) (value : Value) (expected : String) :
    (c.expect source kind value expected).Safe ts c := by
  obtain ⟨t, rest, n, rfl, -⟩ := hc.exists_token h
  rw [expect_cons]
  split
  · exact hc.next_safe h
  · exact hc.refuse_safe h _

theorem expectNumber_safe (context : String) : (c.expectNumber source context).Safe ts c := by
  obtain ⟨t, rest, n, rfl, -⟩ := hc.exists_token h
  rw [expectNumber_cons]
  apply Reading.Safe.map
  split
  · exact hc.next_safe h
  · exact hc.refuse_safe h _

theorem read_safe {g : Goal} (σ : State g) : (c.read source σ).Safe ts c := by
  obtain ⟨he, hl⟩ := hc.endIndex_rest h
  have hi := hc.index_le
  have hle := run_taken_le (σ := σ) hl
  refine ⟨hc.advance (n := (run σ c.rest).taken) (by omega), Nat.le_add_right _ _, ?_⟩
  rw [Cursor.read_result]
  cases hr : (run σ c.rest).result with
  | ok r => exact .inl ⟨r, rfl⟩
  | error stop =>
    cases stop with
    | outOfTokens => exact absurd hr (run_ne_outOfTokens hl)
    | refused expected t =>
      have ht : ts[c.index + (run σ c.rest).taken]? = some t := by
        rw [← List.getElem?_drop, ← hc.rest]
        exact run_refused hr
      exact .inr ⟨_, rfl, rfl, ht⟩

theorem read_program {p : Program} (hp : (c.read source State.program).result = .ok p) :
    (c.read source State.program).cursor.index = endIndex ts := by
  obtain ⟨he, hl⟩ := hc.endIndex_rest h
  have hi := hc.index_le
  have hrun : (run State.program c.rest).result = .ok p := by
    rw [Cursor.read_result] at hp
    split at hp <;> cases hp
    assumption
  show c.index + (run State.program c.rest).taken = endIndex ts
  rw [run_program_taken hl hrun]
  omega

end

end Cursor.Within

theorem Parser.Call.perform_safe (call : Call) (hc : c.Within ts) (h : endIndex ts < ts.length) :
    (call.perform source c).Safe ts c := by
  cases call with
  | peek => exact hc.peek_safe h
  | next => exact hc.next_safe h
  | atPunct mark => exact hc.atPunct_safe h mark
  | expect kind value expected => exact hc.expect_safe h kind value expected
  | expectPunct mark => exact hc.expect_safe h _ _ _
  | expectNumber context => exact hc.expectNumber_safe h context
  | refuse expected => exact hc.refuse_safe h expected
  | _ => exact hc.read_safe h _

-- ---------------------------------------------------------------------------
-- Progress
-- ---------------------------------------------------------------------------

theorem Cursor.read_advances {g : Goal} {σ : State g} {r : g.Result}
    (h : ∀ t, (σ.step t).advances) (hr : (c.read source σ).result = .ok r) :
    c.index < (c.read source σ).cursor.index := by
  have hrun : (run σ c.rest).result = .ok r := by
    rw [read_result] at hr
    split at hr <;> cases hr
    assumption
  exact Nat.lt_add_of_pos_right (run_taken_pos h hrun)

/-- A part of the grammar that is read takes a token. -/
theorem Parser.Call.perform_advances {call : Call} (hp : call.isPart = true)
    {a : call.Answer} (ha : (call.perform source c).result = .ok a) :
    c.index < (call.perform source c).cursor.index := by
  cases call with
  | statement => exact Cursor.read_advances (State.begin_advances _) ha
  | construct k => exact Cursor.read_advances (fun t => State.advances_ite rfl rfl) ha
  | simple => exact Cursor.read_advances (fun t => State.advances_ite rfl rfl) ha
  | block =>
    exact Cursor.read_advances
      (fun t => State.advances_ite rfl (State.advances_ite rfl (State.begin_advances _ t))) ha
  | bracedBlock => exact Cursor.read_advances (fun t => State.advances_ite rfl rfl) ha
  | condition => exact Cursor.read_advances (fun t => State.advances_ite rfl rfl) ha
  | _ => cases hp

-- ---------------------------------------------------------------------------
-- What stands behind the end
-- ---------------------------------------------------------------------------

/-- Two cursors at one place, with the same tokens up to the end of the source. -/
structure Cursor.AlikeToEnd (c c' : Cursor) : Prop where
  index : c.index = c'.index
  rest : Lia.AlikeToEnd c.rest c'.rest

namespace Cursor.AlikeToEnd

variable (h : c.AlikeToEnd c')
include h

theorem exists_token : ∃ t rest rest' n, c = ⟨t :: rest, n⟩ ∧ c' = ⟨t :: rest', n⟩ := by
  obtain ⟨rest, n⟩ := c
  obtain ⟨rest', n'⟩ := c'
  obtain ⟨hi, hr⟩ := h
  obtain rfl : n = n' := hi
  cases hr with
  | here => exact ⟨_, _, _, _, rfl, rfl⟩
  | later => exact ⟨_, _, _, _, rfl, rfl⟩

theorem next_shown : c.next.shown = c'.next.shown := by
  obtain ⟨t, rest, rest', n, rfl, rfl⟩ := h.exists_token
  rw [next_cons, next_cons]
  cases t.isEof <;> rfl

theorem expect_shown (kind : TokenKind) (value : Value) (expected : String) :
    (c.expect source kind value expected).shown = (c'.expect source kind value expected).shown := by
  have hn := h.next_shown
  obtain ⟨t, rest, rest', n, rfl, rfl⟩ := h.exists_token
  rw [expect_cons, expect_cons]
  split
  · exact hn
  · rfl

theorem expectNumber_shown (context : String) :
    (c.expectNumber source context).shown = (c'.expectNumber source context).shown := by
  have hn := h.next_shown
  obtain ⟨t, rest, rest', n, rfl, rfl⟩ := h.exists_token
  rw [expectNumber_cons, expectNumber_cons]
  split
  · rw [Reading.shown_map, hn]
    rfl
  · rfl

theorem read_shown {g : Goal} (σ : State g) :
    (c.read source σ).shown = (c'.read source σ).shown := by
  have hr := run_congr (σ := σ) h.rest
  have hresult : (c.read source σ).result = (c'.read source σ).result := by
    rw [read_result, read_result, hr, h.index]
  have hindex : (c.read source σ).cursor.index = (c'.read source σ).cursor.index := by
    show c.index + (run σ c.rest).taken = c'.index + (run σ c'.rest).taken
    rw [hr, h.index]
  have hnotes : (c.read source σ).notes = (c'.read source σ).notes := congrArg Outcome.notes hr
  rw [Reading.shown, Reading.shown, hresult, hindex, hnotes]

end Cursor.AlikeToEnd

theorem Parser.Call.perform_shown (call : Call) (h : c.AlikeToEnd c') :
    (call.perform source c).shown = (call.perform source c').shown := by
  cases call with
  | peek | atPunct | refuse =>
    obtain ⟨t, rest, rest', n, rfl, rfl⟩ := h.exists_token
    rfl
  | next => exact h.next_shown
  | expect kind value expected => exact h.expect_shown kind value expected
  | expectPunct mark => exact h.expect_shown _ _ _
  | expectNumber context => exact h.expectNumber_shown context
  | _ => exact h.read_shown _

-- ---------------------------------------------------------------------------
-- All calls
-- ---------------------------------------------------------------------------

/-- A call that began inside the tokens and was safe. What is read has a token at least, and
a program is read up to the end. -/
structure Parser.Performed.Safe (p : Performed) (ts : List Token) : Prop where
  before : p.before.Within ts
  reading : p.reading.Safe ts p.before
  advances : p.call.isPart = true → (∃ a, p.reading.result = .ok a) →
    p.before.index < p.reading.cursor.index
  program : p.call = .program → (∃ a, p.reading.result = .ok a) → p.reading.cursor.index = endIndex ts

theorem performAll_safe_from (hc : c.Within ts) (h : endIndex ts < ts.length) (calls : List Call) :
    List.Forall₂ (fun call p => p.call = call ∧ p.Safe ts) calls (performAll source c calls) := by
  induction calls generalizing c with
  | nil => exact .nil
  | cons call calls ih =>
    have hs : (call.perform source c).Safe ts c := call.perform_safe hc h
    refine .cons ⟨rfl, hc, hs, fun hp ⟨a, ha⟩ => call.perform_advances hp ha, ?_⟩ (ih hs.within)
    rintro rfl ⟨a, ha⟩
    exact hc.read_program h ha

theorem performAll_shown (hc : c.Within ts) (hc' : c'.Within us) (hi : c.index = c'.index)
    (ha : AlikeToEnd ts us) (h : endIndex ts < ts.length) (calls : List Call) :
    (performAll source c calls).map Performed.shown =
      (performAll source c' calls).map Performed.shown := by
  induction calls generalizing c c' with
  | nil => rfl
  | cons call calls ih =>
    have halike : c.AlikeToEnd c' := by
      refine ⟨hi, ?_⟩
      rw [hc.rest, hc'.rest, ← hi]
      exact ha.drop hc.index_le
    have hs : (call.perform source c).Safe ts c := call.perform_safe hc h
    have hs' : (call.perform source c').Safe us c' := call.perform_safe hc' ha.endIndex_lt
    have hshown : (call.perform source c).shown = (call.perform source c').shown :=
      call.perform_shown halike
    have hnext := ih hs.within hs'.within (congrArg Prod.fst hshown)
    simp only [performAll, List.map_cons, hnext, Performed.shown, hshown]

/-- Every one of the calls ends, with an answer or with an error about the token where the
cursor is then; the cursor never goes back nor past the first end of the source, it goes on
wherever a part of the grammar is read, and nothing behind that end has any effect. -/
theorem performAll_safe (h : ∃ t ∈ ts, t.isEof = true) (source : Option String)
    (calls : List Call) :
    List.Forall₂ (fun call p => p.call = call ∧ p.Safe ts) calls
        (performAll source (.ofTokens ts) calls) ∧
      ∀ us : List Token, us.take (endIndex ts + 1) = ts.take (endIndex ts + 1) →
        (performAll source (.ofTokens us) calls).map Performed.shown =
          (performAll source (.ofTokens ts) calls).map Performed.shown := by
  have hlt : endIndex ts < ts.length := List.findIdx_lt_length_of_exists h
  refine ⟨performAll_safe_from .start hlt calls, fun us hus => ?_⟩
  have hstart (ts : List Token) : (Cursor.ofTokens ts).Within ts := .start
  exact (performAll_shown (hstart ts) (hstart us) rfl (.of_take hlt hus) hlt calls).symm

/-- `if (`, and a call behind the end of the source. -/
def brokenOffTokens : List Token :=
  [.of .ident "if" none, .of .punct "(" none, .eof 4, .of .ident "say" none, .of .punct ";" none]

/-- The parser is called for again at the end of the source, behind errors. -/
def brokenOffCalls : List Call := [.construct .branch, .simple, .next, .program, .atPunct ";"]

theorem brokenOff_safe :
    (∃ t ∈ brokenOffTokens, t.isEof = true) ∧
      (performAll none (.ofTokens brokenOffTokens) brokenOffCalls).map
        (fun p => p.reading.cursor.index) = [2, 2, 2, 2, 2] ∧
      List.Forall₂ (fun call p => p.call = call ∧ p.Safe brokenOffTokens) brokenOffCalls
        (performAll none (.ofTokens brokenOffTokens) brokenOffCalls) ∧
      ∀ us : List Token,
        us.take (endIndex brokenOffTokens + 1) = brokenOffTokens.take (endIndex brokenOffTokens + 1) →
        (performAll none (.ofTokens us) brokenOffCalls).map Performed.shown =
          (performAll none (.ofTokens brokenOffTokens) brokenOffCalls).map Performed.shown := by
  have h : ∃ t ∈ brokenOffTokens, t.isEof = true := ⟨.eof 4, by simp [brokenOffTokens], rfl⟩
  exact ⟨h, rfl, performAll_safe h none brokenOffCalls⟩

end Lia
