import Lia.Proofs.Grammar.Append
import Lia.Proofs.Parser.FirstError

/-!
# Programs that are cut off

Statements come off the front of a list one by one, whatever stands behind them
(`Statements.of_append`), so the tokens of a program fall into those of its statements in
one way (`Split.unique`). Main statement: a program that is cut off is refused at its end,
unless the end stands behind a statement or before the `else` of one (`parse_cut`).
-/

namespace Lia

open Lia.Parser

namespace Grammar

/-- The tokens of a list of statements, one by one. -/
inductive Split : List (List Token) → List Stmt → Prop
  | nil : Split [] []
  | cons (h : Statement ts s) (hs : Split parts ss)
      (hn : s.isOpen → ∀ t ∈ parts.flatten.head?, t.isWord "else" = false) :
      Split (ts :: parts) (s :: ss)

/-- An `if` that has an `else`, and what it is without it. -/
inductive ElseCut : List Token → Stmt → List Token → Stmt → Prop
  | mk (hw : w.isWord "if") (hc : Condition cs c) (hb : Block ts body) (he : e.isWord "else")
      (ha : Block us alternate) :
      ElseCut (w :: cs ++ ts ++ e :: us) (.branch (.text c) body (some alternate))
        (w :: cs ++ ts) (.branch (.text c) body none)

/-- What is left of a list of statements where it ends behind one of them, or behind the
consequent of one that has an alternate. -/
inductive Cut (parts : List (List Token)) (ss : List Stmt) : List Token → List Stmt → Prop
  | behind (n : Nat) : Cut parts ss (parts.take n).flatten (ss.take n)
  | beforeElse (ht : parts[n]? = some ts) (hs : ss[n]? = some s) (h : ElseCut ts s us s') :
      Cut parts ss ((parts.take n).flatten ++ us) (ss.take n ++ [s'])

variable {ts us : List Token} {ss ss' : List Stmt} {s s' : Stmt} {t e : Token}

-- ---------------------------------------------------------------------------
-- Statements in front
-- ---------------------------------------------------------------------------

theorem Statements.isEof (h : Statements ts ss) : ∀ t ∈ ts, t.isEof = false := by
  intro t ht
  rw [Bool.eq_false_iff]
  exact fun he => outcome_ne_outOfTokens ht he h.outcome_eq_outOfTokens

theorem Statements.of_outcome (h : outcome State.program (ts ++ [e]) = .ok ⟨ss⟩)
    (hts : ∀ t ∈ ts, t.isEof = false) : Statements ts ss := by
  obtain ⟨us, e', rest, heq, he, hs⟩ := Read.program.outcome_ok h
  cases rest with
  | nil =>
    obtain ⟨rfl, -⟩ := List.append_inj' heq rfl
    exact hs
  | cons u rest =>
    -- The end that was met would stand among the tokens.
    rw [← List.dropLast_append_getLast (List.cons_ne_nil u rest), ← List.cons_append,
      ← List.append_assoc] at heq
    obtain ⟨rfl, -⟩ := List.append_inj' heq rfl
    rw [hts e' (by simp)] at he
    cases he

/-- The statements before make no difference to what is read behind them. -/
theorem outcome_behind (ht : t ∈ us) (he : t.isEof = true)
    (h : outcome ⟨.statement, ss, []⟩ us = .ok ⟨ss'⟩) :
    ∃ behind, outcome State.program us = .ok ⟨behind⟩ ∧ ss' = ss ++ behind := by
  cases ho : outcome State.program us with
  | ok p =>
    obtain ⟨vs, e, rest, rfl, he, hs⟩ := Read.program.outcome_ok ho
    have hw : e.isWord "else" = false := Token.isWord_of_kind (by simp [Token.isEof_iff.1 he])
    rw [List.nil_append] at hs
    rw [hs.outcome_eq rfl (by simpa using hw), outcome_end rfl rfl he] at h
    cases h
    exact ⟨p.body, rfl, rfl⟩
  | error stop =>
    cases stop with
    | outOfTokens => exact absurd ho (outcome_ne_outOfTokens ht he)
    | refused expected u =>
      have hr := (refuses_of_run ho).1
      have hr : Refuses ⟨.statement, ss, []⟩ us _ expected :=
        hr.congr rfl Read.program (List.forall₂_same.2 fun t _ => .refl t)
      obtain ⟨u, -, -, hr⟩ := hr.run_eq
      rw [outcome, hr] at h
      cases h

/-- A statement in front of others is the first of all. -/
theorem Statements.of_append (h : Statement ts s)
    (hn : s.isOpen → ∀ t ∈ us.head?, t.isWord "else" = false) (hs : Statements (ts ++ us) ss) :
    ∃ ss', ss = s :: ss' ∧ Statements us ss' := by
  have he : (Token.eof 0).isEof = true := rfl
  have ho : outcome State.program (ts ++ (us ++ [Token.eof 0])) = .ok ⟨ss⟩ := by
    rw [← List.append_assoc, ← List.append_nil (_ ++ _)]
    exact (Program.mk hs he).outcome_eq
  rw [h.outcome_eq rfl] at ho
  · obtain ⟨behind, hb, rfl⟩ := outcome_behind (t := Token.eof 0) (by simp) he ho
    exact ⟨behind, rfl, .of_outcome hb fun t ht => hs.isEof t (List.mem_append_right _ ht)⟩
  · intro hopen t ht
    cases us with
    | nil =>
      obtain rfl : Token.eof 0 = t := by simpa using ht
      rfl
    | cons u us => exact hn hopen t ht

/-- No statement goes on behind another one, but for an `else`. -/
theorem Statement.eq_of_append (h : Statement ts s)
    (hn : s.isOpen → ∀ t ∈ us.head?, t.isWord "else" = false) (h' : Statement (ts ++ us) s') :
    us = [] ∧ s' = s := by
  obtain ⟨ss, heq, hs⟩ := Statements.of_append h hn h'.statements
  obtain ⟨rfl, rfl⟩ := List.cons.inj heq
  cases us with
  | nil => exact ⟨rfl, rfl⟩
  | cons u us =>
    generalize hus : u :: us = vs at hs
    cases hs
    cases hus

/-- Two lists of tokens that are one begin with one statement. -/
theorem Statement.cancel {as bs : List Token} (h : Statement ts s)
    (hn : s.isOpen → ∀ t ∈ as.head?, t.isWord "else" = false) (h' : Statement us s')
    (hn' : s'.isOpen → ∀ t ∈ bs.head?, t.isWord "else" = false) (heq : ts ++ as = us ++ bs) :
    ts = us ∧ s = s' ∧ as = bs := by
  obtain ⟨vs, rfl, rfl⟩ | ⟨vs, rfl, rfl⟩ := List.append_eq_append_iff.1 heq
  · obtain ⟨rfl, rfl⟩ :=
      h.eq_of_append (fun ho t ht => hn ho t (List.mem_head?_append_of_mem_head? ht)) h'
    simp
  · obtain ⟨rfl, rfl⟩ :=
      h'.eq_of_append (fun ho t ht => hn' ho t (List.mem_head?_append_of_mem_head? ht)) h
    simp

-- ---------------------------------------------------------------------------
-- An `else` cut off
-- ---------------------------------------------------------------------------

/-- The words of a condition end at the first closing parenthesis. -/
theorem takeWhile_words (hts : ∀ t ∈ ts, t.isPunct ")" = false ∧ t.isEof = false)
    (he : e.isPunct ")" = true) : (ts ++ e :: us).takeWhile (fun t => !t.isPunct ")") = ts := by
  rw [List.takeWhile_append_of_pos fun t ht => by simp [hts t ht],
    List.takeWhile_cons_of_neg (by simp [he]), List.append_nil]

theorem Condition.cancel {as bs : List Token} (h : Condition ts c) (h' : Condition us c')
    (heq : ts ++ as = us ++ bs) : ts = us ∧ c = c' ∧ as = bs := by
  obtain @⟨ws, l, r, hl, hws, hr⟩ := h
  obtain @⟨ws', l', r', hl', hws', hr'⟩ := h'
  simp only [List.cons_append, List.append_assoc, List.nil_append, List.cons.injEq] at heq
  obtain ⟨rfl, heq⟩ := heq
  have hwords : ws = ws' := by
    rw [← takeWhile_words hws hr, heq, takeWhile_words hws' hr']
  subst hwords
  obtain ⟨rfl, rfl⟩ := List.cons.inj (List.append_cancel_left heq)
  exact ⟨rfl, rfl, rfl⟩

/-- A block ends at its own brace. -/
theorem Block.cancel {as bs : List Token} (h : Block ts ss) (h' : Block us ss')
    (heq : ts ++ as = us ++ bs) : ts = us ∧ ss = ss' ∧ as = bs := by
  have hs : Statement (Token.word "loop" :: ts) (.forever ss) := .forever rfl h
  have hs' : Statement (Token.word "loop" :: us) (.forever ss') := .forever rfl h'
  obtain ⟨hts, hss, has⟩ := hs.cancel (by simp [Stmt.isOpen]) hs' (by simp [Stmt.isOpen])
    (congrArg (List.cons _) heq)
  exact ⟨List.cons_injective hts, Stmt.forever.inj hss, has⟩

/-- What begins with `if` is one. -/
theorem Statement.of_if (h : Statement (t :: ts) s) (ht : t.isWord "if" = true) :
    ∃ cs c bs body, Condition cs c ∧ Block bs body ∧
      ((ts = cs ++ bs ∧ s = .branch (.text c) body none) ∨
        ∃ e us alternate, ts = cs ++ (bs ++ e :: us) ∧ e.isWord "else" = true ∧
          Block us alternate ∧ s = .branch (.text c) body (some alternate)) := by
  generalize hus : t :: ts = us at h
  have hother {w : String} {t' : Token} {vs : List Token} (hw : t'.isWord w = true) (hne : w ≠ "if")
      (hvs : t :: ts = t' :: vs) : False := by
    obtain ⟨rfl, -⟩ := List.cons.inj hvs
    rw [Token.isWord_of_ne hw hne] at ht
    cases ht
  cases h with
  | branch hw hc hb =>
    obtain ⟨rfl, rfl⟩ := List.cons.inj hus
    exact ⟨_, _, _, _, hc, hb, .inl ⟨rfl, rfl⟩⟩
  | branchElse hw hc hb he ha =>
    obtain ⟨rfl, rfl⟩ := List.cons.inj hus
    exact ⟨_, _, _, _, hc, hb, .inr ⟨_, _, _, List.append_assoc .., he, ha, rfl⟩⟩
  | empty he =>
    obtain ⟨rfl, -⟩ := List.cons.inj hus
    rw [Token.isWord_of_isPunct he] at ht
    cases ht
  | event h he =>
    cases h with
    | start ho | click ho | key ho | backdrop ho => exact (hother ho (by decide) hus).elim
  | repeatTimes hw | forever hw | awaitUntil hw => exact (hother hw (by decide) hus).elim
  | call hn hk =>
    obtain ⟨rfl, -⟩ := List.cons.inj hus
    rw [hk "if" (by decide)] at ht
    cases ht

/-- An `if` that goes on with an `else` has it. -/
theorem Statement.elseCut (h : Statement ts s) (ho : s.isOpen = true) (he : e.isWord "else" = true)
    (h' : Statement (ts ++ e :: us) s') : ElseCut (ts ++ e :: us) s' ts s := by
  cases h with
  | @branch cs c bs body w hw hc hb =>
    have hif : Statement (w :: (cs ++ (bs ++ e :: us))) s' := by simpa using h'
    obtain ⟨cs', c', bs', body', hc', hb', hrest⟩ := hif.of_if hw
    obtain ⟨heq, rfl⟩ | ⟨e', us', alternate, heq, he', ha, rfl⟩ := hrest
    · obtain ⟨rfl, rfl, heq⟩ := hc.cancel hc' heq
      obtain ⟨-, -, heq⟩ := hb.cancel hb' (heq.trans (List.append_nil bs').symm)
      cases heq
    · obtain ⟨rfl, rfl, heq⟩ := hc.cancel hc' heq
      obtain ⟨rfl, rfl, heq⟩ := hb.cancel hb' heq
      obtain ⟨rfl, rfl⟩ := List.cons.inj heq
      exact .mk hw hc hb he ha
  | _ => cases ho

/-- Where a statement ends early, nothing is left of it, or it is an `if` without its `else`. -/
theorem Statement.cut (h : Statement (ts ++ us) s) (hus : us ≠ []) (hs : Statements ts ss) :
    (ts = [] ∧ ss = []) ∨ ∃ s', ss = [s'] ∧ ElseCut (ts ++ us) s ts s' := by
  cases hs with
  | nil => exact .inl ⟨rfl, rfl⟩
  | @cons vs s' ws ss h' hs hn =>
    right
    rw [List.append_assoc] at h
    by_cases hhead : s'.isOpen = true ∧ ∃ t ∈ (ws ++ us).head?, t.isWord "else" = true
    · obtain ⟨ho, e, he, hword⟩ := hhead
      cases ws with
      | nil =>
        obtain rfl := hs.eq_nil rfl
        obtain ⟨us, rfl⟩ := List.head?_eq_some_iff.1 he
        rw [List.append_nil]
        exact ⟨s', rfl, h'.elseCut ho hword h⟩
      | cons w ws =>
        rw [hn ho e he] at hword
        cases hword
    · have hnil := (h'.eq_of_append (fun ho t ht => ?_) h).1
      · exact absurd (List.append_eq_nil_iff.1 hnil).2 hus
      · rw [Bool.eq_false_iff]
        exact fun he => hhead ⟨ho, t, ht, he⟩

-- ---------------------------------------------------------------------------
-- Lists cut off
-- ---------------------------------------------------------------------------

theorem Statements.exists_split (h : Statements ts ss) :
    ∃ parts, Split parts ss ∧ parts.flatten = ts := by
  induction ss generalizing ts with
  | nil =>
    cases h
    exact ⟨[], .nil, rfl⟩
  | cons s ss ih =>
    cases h with
    | cons h hs hn =>
      obtain ⟨parts, hp, rfl⟩ := ih hs
      exact ⟨_ :: parts, .cons h hp hn, rfl⟩

theorem Split.statements (h : Split parts ss) : Statements parts.flatten ss := by
  induction h with
  | nil => exact .nil
  | cons h _ hn ih => exact .cons h ih hn

/-- The tokens fall into those of statements in one way. -/
theorem Split.unique {parts' : List (List Token)} (h : Split parts ss) (h' : Split parts' ss')
    (heq : parts'.flatten = parts.flatten) : parts' = parts ∧ ss' = ss := by
  induction h generalizing parts' ss' with
  | nil =>
    cases h' with
    | nil => exact ⟨rfl, rfl⟩
    | cons h' => exact absurd (List.append_eq_nil_iff.1 heq).1 h'.ne_nil
  | cons h hs hn ih =>
    cases h' with
    | nil => exact absurd (List.append_eq_nil_iff.1 heq.symm).1 h.ne_nil
    | cons h' hs' hn' =>
      obtain ⟨rfl, rfl, heq⟩ := h'.cancel hn' h hn heq
      obtain ⟨rfl, rfl⟩ := ih hs' heq
      exact ⟨rfl, rfl⟩

theorem Split.take (h : Split parts ss) (n : Nat) : Split (parts.take n) (ss.take n) := by
  induction h generalizing n with
  | nil => simpa using Split.nil
  | @cons ts s parts ss h hs hn ih =>
    cases n with
    | zero => exact .nil
    | succ n =>
      refine .cons h (ih n) fun ho t ht => hn ho t ?_
      rw [← List.take_append_drop n parts, List.flatten_append]
      exact List.mem_head?_append_of_mem_head? ht

theorem ElseCut.statement (h : ElseCut ts s us s') : Statement us s' := by
  obtain ⟨hw, hc, hb, -, -⟩ := h
  exact .branch hw hc hb

theorem ElseCut.joins (h : ElseCut ts s us s') (ss : List Stmt) : Joins ss us := by
  obtain ⟨hw, -, -, -, -⟩ := h
  exact fun _ _ _ => ⟨_, rfl, Token.isWord_of_ne hw (by decide)⟩

theorem Cut.statements (hp : Split parts ss) (h : Cut parts ss ts ss') : Statements ts ss' := by
  cases h with
  | behind n => exact (hp.take n).statements
  | beforeElse _ _ h => exact .snoc h.statement (hp.take _).statements (h.joins _)

theorem Cut.cons (h : Cut parts ss us ss') (ts : List Token) (s : Stmt) :
    Cut (ts :: parts) (s :: ss) (ts ++ us) (s :: ss') := by
  cases h with
  | behind n => exact .behind (n + 1)
  | @beforeElse n ts' s' us s'' ht hs h =>
    have hc : Cut (ts :: parts) (s :: ss) _ _ := .beforeElse (n := n + 1) ht hs h
    simpa using hc

/-- What stands at the beginning of the statements, and is statements itself, is some of
them, but for an `else` that is left out. -/
theorem Split.cut {rest : List Token} (hp : Split parts ss) (hs : Statements us ss')
    (heq : us ++ rest = parts.flatten) : Cut parts ss us ss' := by
  induction hp generalizing us ss' with
  | nil =>
    obtain rfl := (List.append_eq_nil_iff.1 heq).1
    obtain rfl := hs.eq_nil rfl
    exact .behind 0
  | @cons ts s parts ss h hp hn ih =>
    have hwhole {vs : List Token} (hs : Statements (ts ++ vs) ss') (heq : vs ++ rest = parts.flatten) :
        Cut (ts :: parts) (s :: ss) (ts ++ vs) ss' := by
      obtain ⟨ss', rfl, hvs⟩ := Statements.of_append h
        (fun ho t ht => hn ho t (heq ▸ List.mem_head?_append_of_mem_head? ht)) hs
      exact (ih hvs heq).cons ts s
    obtain ⟨vs, rfl, hrest⟩ | ⟨vs, rfl, hrest⟩ := List.append_eq_append_iff.1 heq
    · by_cases hvs : vs = []
      · subst hvs
        simpa using @hwhole [] (by simpa using hs) hrest
      · obtain ⟨rfl, rfl⟩ | ⟨s', rfl, hcut⟩ := h.cut hvs hs
        · exact .behind 0
        · exact .beforeElse (n := 0) rfl rfl hcut
    · exact hwhole hs hrest.symm

end Grammar

-- ---------------------------------------------------------------------------
-- Main statement
-- ---------------------------------------------------------------------------

theorem Tokenized.take_concat {ts : List Token} {e : Token} {k : Nat} (h : Tokenized ts)
    (hk : k < ts.length) (he : e.isEof = true) : Tokenized (ts.take k ++ [e]) := by
  induction h generalizing k with
  | eof =>
    obtain rfl : k = 0 := by simpa using hk
    exact .eof he
  | cons ht _ ih =>
    cases k with
    | zero => exact .eof he
    | succ k => exact .cons ht (ih (by simpa using hk))

/-- What is refused behind a beginning of a program is the token there. -/
theorem parse_refuses_end {ts : List Token} {p : Program} {e : Token} {k : Nat} {err : ParseError}
    {source origin : Option String} (hp : (parse ts source).result = .ok p) (hk : k < ts.length)
    (h : (parse (ts.take k ++ [e]) origin).result = .error (.unexpected err)) :
    err.token = e ∧ err.index = k := by
  obtain ⟨-, htoken, hsame, -⟩ := parse_refuses_first h
  have hlength : (ts.take k).length = k := by rw [List.length_take, Nat.min_eq_left hk.le]
  have hle : err.index ≤ k := by
    have hlt := (List.getElem?_eq_some_iff.1 htoken).1
    rw [List.length_append, hlength] at hlt
    exact Nat.le_of_lt_succ hlt
  obtain rfl | hlt := Nat.eq_or_lt_of_le hle
  · rw [List.getElem?_append_right hlength.le, hlength, Nat.sub_self] at htoken
    exact ⟨(Option.some.inj htoken).symm, rfl⟩
  · -- The whole program would be refused there as well.
    have hbegin : (ts.take k ++ [e]).take (err.index + 1) = ts.take (err.index + 1) := by
      rw [List.take_append_of_le_length (by omega), List.take_take, Nat.min_eq_left hlt]
    obtain ⟨err', herr, -, -⟩ :=
      hsame ts source (hbegin ▸ List.forall₂_same.2 fun t _ => .refl t)
    rw [hp] at herr
    cases herr

/-- A program that is cut off is refused at its end, or the end stands behind one of its
statements, or before the `else` of one. -/
theorem parse_cut {source : String} {ts : List Token} {p : Program}
    (htokens : tokenize source = .ok ts) (hparse : parseSource source = .ok p) :
    ∃ parts, Grammar.Split parts p.body ∧
      ts = parts.flatten ++ [Token.eof source.length] ∧
      (∀ parts' ss, Grammar.Split parts' ss → parts'.flatten = parts.flatten →
        parts' = parts ∧ ss = p.body) ∧
      ∀ k < ts.length, ∀ e, e.isEof = true → ∀ origin,
        ((∃ q, (parse (ts.take k ++ [e]) origin).result = .ok q) ∨
          ∃ err, (parse (ts.take k ++ [e]) origin).result = .error (.unexpected err) ∧
            err.token = e ∧ err.index = k) ∧
        ∀ q, (parse (ts.take k ++ [e]) origin).result = .ok q ↔
          Grammar.Cut parts p.body (ts.take k) q.body := by
  obtain ⟨us, htokens', hp⟩ := parseSource_ok_iff.1 hparse
  obtain rfl : ts = us := Except.ok.inj (htokens.symm.trans htokens')
  have ht := tokenize_tokenized htokens
  obtain ⟨us, rfl, -⟩ := tokenize_spelt htokens
  obtain ⟨parts, hsplit, rfl⟩ := hp.statements.exists_split
  refine ⟨parts, hsplit, rfl, fun _ _ => hsplit.unique, fun k hk e he origin => ⟨?_, ?_⟩⟩
  · by_cases hok : ∃ q, (parse ((parts.flatten ++ [Token.eof source.length]).take k ++ [e])
      origin).result = .ok q
    · exact .inl hok
    · right
      obtain ⟨err, herr⟩ := parse_unexpected (ht.take_concat hk he) origin fun q hq =>
        hok ⟨q, (parse_ok_iff (ht.take_concat hk he) origin q).2 hq⟩
      exact ⟨err, herr, parse_refuses_end ((parse_ok_iff ht none p).2 hp) hk herr⟩
  · rintro ⟨body⟩
    rw [parse_ok_iff (ht.take_concat hk he)]
    constructor
    · intro hq
      have hle : k ≤ parts.flatten.length := by
        rw [List.length_append] at hk
        exact Nat.le_of_lt_succ hk
      rw [List.take_append_of_le_length hle] at hq ⊢
      exact hsplit.cut hq.statements (List.take_append_drop k _)
    · exact fun hc => .mk (hc.statements hsplit) he

/-- An `if` with both of its blocks. -/
def forkSource : String := "if(x)\x7b\x7delse\x7b\x7d"

def forkTokens : List Token :=
  let punct (s : String) (pos : Nat) : Token := ⟨.punct, .text s, some pos, s⟩
  let word (s : String) (pos : Nat) : Token := ⟨.ident, .text s, some pos, s⟩
  [word "if" 0, punct "(" 2, word "x" 3, punct ")" 4, punct "\x7b" 5, punct "\x7d" 6, word "else" 7,
    punct "\x7b" 11, punct "\x7d" 12, .eof 13]

/-- Before the `else` the `if` is left, and behind the `else` nothing is. -/
theorem fork_cut : tokenize forkSource = .ok forkTokens ∧
    parseSource forkSource = .ok ⟨[.branch (.text "x") [] (some [])]⟩ ∧
    ∃ parts, Grammar.Split parts [.branch (.text "x") [] (some [])] ∧
      Grammar.Cut parts [.branch (.text "x") [] (some [])] (forkTokens.take 6)
        [.branch (.text "x") [] none] ∧
      ∃ err, (parse (forkTokens.take 7 ++ [Token.eof 11])).result = .error (.unexpected err) ∧
        err.token = Token.eof 11 ∧ err.index = 7 := by
  have hend : scan 13 [] = .ok [.eof 13] := by rw [scan]
  have halternate : scan 11 "\x7b\x7d".toList = .ok _ := scan_munch rfl rfl (scan_munch rfl rfl hend)
  have helse : scan 7 "else\x7b\x7d".toList = .ok _ := scan_munch rfl rfl halternate
  have hbody : scan 4 ")\x7b\x7delse\x7b\x7d".toList = .ok _ :=
    scan_munch rfl rfl (scan_munch rfl rfl (scan_munch rfl rfl helse))
  have hcondition : scan 2 "(x)\x7b\x7delse\x7b\x7d".toList = .ok _ :=
    scan_munch rfl rfl (scan_munch rfl rfl hbody)
  have htokens : tokenize forkSource = .ok forkTokens :=
    scan_munch (s := forkSource.toList) (m := ⟨.ident, _, _⟩) rfl rfl hcondition
  have hprogram : Grammar.Program forkTokens ⟨[.branch (.text "x") [] (some [])]⟩ :=
    (parse_ok_iff (tokenize_tokenized htokens) none _).1 (by rfl)
  have hparse : parseSource forkSource = .ok ⟨[.branch (.text "x") [] (some [])]⟩ :=
    parseSource_ok_iff.2 ⟨_, htokens, hprogram⟩
  obtain ⟨parts, hsplit, -, -, hcut⟩ := parse_cut htokens hparse
  refine ⟨htokens, hparse, parts, hsplit, ?_, ?_⟩
  · exact ((hcut 6 (by decide) (.eof 7) rfl none).2 ⟨[.branch (.text "x") [] none]⟩).1 rfl
  · obtain ⟨q, hq⟩ | herr := (hcut 7 (by decide) (.eof 11) rfl none).1
    · cases hq
    · exact herr

end Lia
