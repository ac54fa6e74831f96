import Lia.Proofs.Parser.Step

/-!
# What has been read follows the grammar

`Read ts σ`: the tokens taken so far are those of the statements that the state holds,
and of the part of a construct that its phase stands for. A step keeps this
(`Read.step`), so what a run gives is a program of the grammar (`Read.outcome_ok`).
-/

namespace Lia.Grammar

open Lia.Parser

-- ---------------------------------------------------------------------------
-- Parts of constructs
-- ---------------------------------------------------------------------------

/-- What stands before the brace that opens a list. -/
inductive Head : List Token → Opener → Prop
  | repeatTimes (hw : w.isWord "repeat") (hl : l.isPunct "(") (hn : n.kind = .number)
      (hr : r.isPunct ")") : Head [w, l, n, r] (.repeatTimes n.value)
  | forever (hw : w.isWord "loop") : Head [w] .forever
  | consequent (hw : w.isWord "if") (hc : Condition cs c) : Head (w :: cs) (.consequent c)
  | alternate (hw : w.isWord "if") (hc : Condition cs c) (hb : Block ts body)
      (he : e.isWord "else") : Head (w :: cs ++ ts ++ [e]) (.alternate c body)

/-- What stands before a condition. -/
inductive Use : List Token → ConditionUse → Prop
  | branch (hw : w.isWord "if") : Use [w] .branch
  | awaitUntil (hw : w.isWord "await") (hu : u.isWord "until") : Use [w, u] .awaitUntil

/-- A call before its argument list. -/
inductive Words : List Token → CallHead → Prop
  | mk (hn : n.isIdent) (hk : ∀ w ∈ constructWords, n.isWord w = false)
      (hw : ∀ t ∈ ws, IsBareWord t) : Words (n :: ws) ⟨n.value, ws.map Token.value⟩

/-- A call behind its argument list. -/
inductive Called : List Token → CallHead → Prop
  | mk (h : Words ts c) (ha : ArgumentList us vs) : Called (ts ++ us) ⟨c.name, c.args ++ vs⟩

/-- The tokens of the construct at hand, as far as its phase. -/
inductive Part : List Token → Phase → Prop
  | eventKind (ho : o.isWord "on") : Part [o] .eventKind
  | eventOpen (a : Argued) (ho : o.isWord "on") (hk : k.isWord a.word) : Part [o, k] (.eventOpen a)
  | eventName (a : Argued) (ho : o.isWord "on") (hk : k.isWord a.word) (hl : l.isPunct "(") :
      Part [o, k, l] (.eventName a)
  | eventClose (a : Argued) (ho : o.isWord "on") (hk : k.isWord a.word) (hl : l.isPunct "(")
      (hn : IsName n) : Part [o, k, l, n] (.eventClose (a.trigger n.value))
  | eventEnd (h : Event ts trigger) : Part ts (.eventEnd trigger)
  | repeatOpen (hw : w.isWord "repeat") : Part [w] .repeatOpen
  | repeatCount (hw : w.isWord "repeat") (hl : l.isPunct "(") : Part [w, l] .repeatCount
  | repeatClose (hw : w.isWord "repeat") (hl : l.isPunct "(") (hn : n.kind = .number) :
      Part [w, l, n] (.repeatClose n.value)
  | brace (h : Head ts opener) : Part ts (.brace (some opener))
  | untilWord (hw : w.isWord "await") : Part [w] .untilWord
  | conditionOpen (h : Use ts use) : Part ts (.conditionOpen use)
  | condition (h : Use ts use) (hl : l.isPunct "(")
      (hus : ∀ t ∈ us, t.isPunct ")" = false ∧ t.isEof = false) :
      Part (ts ++ l :: us) (.condition use (us.map Token.text))
  | afterConsequent (hw : w.isWord "if") (hc : Condition cs c) (hb : Block ts body) :
      Part (w :: cs ++ ts) (.afterConsequent c body)
  | awaitEnd (h : Use ts .awaitUntil) (hc : Condition cs c) : Part (ts ++ cs) (.awaitEnd c)
  | callWords (h : Words ts c) : Part ts (.callWords c)
  | callArgs (h : Words ts c) (hl : l.isPunct "(") (ha : Arguments us vs) :
      Part (ts ++ l :: us) (.callArgs ⟨c.name, c.args ++ vs⟩)
  | callComma (h : Words ts c) (hl : l.isPunct "(") (ha : Arguments us vs) (ht : IsAtom t) :
      Part (ts ++ l :: us ++ [t]) (.callComma ⟨c.name, c.args ++ vs ++ [t.value]⟩)
  | callFor (h : Called ts c) : Part ts (.callFor c)
  | forOpen (h : Called ts c) (hf : f.isWord "for") : Part (ts ++ [f]) (.forOpen c)
  | forCount (h : Called ts c) (hf : f.isWord "for") (hl : l.isPunct "(") :
      Part (ts ++ [f, l]) (.forCount c)
  | forClose (h : Called ts c) (hf : f.isWord "for") (hl : l.isPunct "(")
      (hn : n.kind = .number) : Part (ts ++ [f, l, n]) (.forClose c n.value)
  | callEnd (h : Called ts c) (hd : Duration ds d) : Part (ts ++ ds) (.callEnd c d)

-- ---------------------------------------------------------------------------
-- Lists around lists
-- ---------------------------------------------------------------------------

/-- The token behind the statements is no `else` that their last one would have taken. -/
def Joins (ss : List Stmt) (ts : List Token) : Prop :=
  ∀ s ∈ ss.getLast?, s.isOpen = true → ∃ t ∈ ts.head?, t.isWord "else" = false

/-- The tokens of the lists around, each as far as the brace that opens the next. -/
inductive Around : List Token → List (Opener × List Stmt) → Prop
  | nil : Around [] []
  | cons (ha : Around ts outer) (hs : Statements us before) (hh : Head vs opener)
      (hj : Joins before vs) (hb : b.isPunct "\x7b") :
      Around (ts ++ (us ++ (vs ++ [b]))) ((opener, before) :: outer)

/-- The tokens taken on the way to a state. -/
inductive Read : List Token → State .program → Prop
  | due (ha : Around ts outer) (hs : Statements us body)
      (ho : ∀ s ∈ body.getLast?, s.isOpen = false) : Read (ts ++ us) ⟨.statement, body, outer⟩
  | within (ha : Around ts outer) (hs : Statements us body) (hj : Joins body vs)
      (hp : Part vs phase) : Read (ts ++ (us ++ vs)) ⟨phase, body, outer⟩

-- ---------------------------------------------------------------------------
-- Growing lists
-- ---------------------------------------------------------------------------

theorem Arguments.snoc (h : Arguments ts vs) (ht : IsAtom t) :
    Arguments (ts ++ [t]) (vs ++ [t.value]) := by
  induction h with
  | nil => exact .atom ht .nil
  | atom ha _ ih => exact .atom ha ih
  | comma ha hc _ ih => exact .comma ha hc ih

theorem Arguments.snoc_comma (h : Arguments ts vs) (ht : IsAtom t) (hc : c.isPunct "," = true) :
    Arguments (ts ++ [t, c]) (vs ++ [t.value]) := by
  induction h with
  | nil => exact .comma ht hc .nil
  | atom ha _ ih => exact .atom ha ih
  | comma ha hc _ ih => exact .comma ha hc ih

theorem Words.snoc (h : Words ts c) (ht : IsBareWord t) : Words (ts ++ [t]) (c.add t.value) := by
  obtain @⟨ws, n, hn, hk, hw⟩ := h
  have hws : ∀ u ∈ ws ++ [t], IsBareWord u := by
    intro u hu
    rcases List.mem_append.1 hu with hu | hu
    · exact hw u hu
    · exact List.mem_singleton.1 hu ▸ ht
  have h := Words.mk hn hk hws
  rwa [List.map_append] at h

theorem Words.called (h : Words ts c) : Called ts c := by
  have h := Called.mk h .absent
  rwa [List.append_nil, List.append_nil] at h

theorem Joins.append (h : Joins ss ts) (us : List Token) : Joins ss (ts ++ us) := by
  intro s hs ho
  obtain ⟨t, ht, he⟩ := h s hs ho
  refine ⟨t, ?_, he⟩
  rw [Option.mem_def] at ht ⊢
  rw [List.head?_append, ht, Option.some_or]

theorem Statement.ne_nil (h : Statement ts s) : ts ≠ [] := by
  cases h <;> simp

theorem Statements.eq_nil (h : Statements ts ss) (hts : ts = []) : ss = [] := by
  cases h with
  | nil => rfl
  | cons h _ _ => exact absurd (List.append_eq_nil_iff.1 hts).1 h.ne_nil

theorem Statements.append {ts us : List Token} {ss ss' : List Stmt} (hus : Statements us ss') :
    Statements ts ss →
      (∀ s ∈ ss.getLast?, s.isOpen = true → ∀ t ∈ us.head?, t.isWord "else" = false) →
      Statements (ts ++ us) (ss ++ ss')
  | .nil, _ => hus
  | @Statements.cons _ s vs ss h hss hn, hj => by
    have htail : ∀ s' ∈ ss.getLast?, s'.isOpen = true → ∀ t ∈ us.head?, t.isWord "else" = false :=
      fun s' hs' => hj s' (by
        rw [Option.mem_def] at hs' ⊢
        rw [List.getLast?_cons, hs', Option.getD_some])
    rw [List.append_assoc, List.cons_append]
    refine .cons h (Statements.append hus hss htail) fun ho t ht => ?_
    cases vs with
    | nil =>
      -- Every statement has a token, so `s` is the last one.
      obtain rfl := hss.eq_nil rfl
      exact hj s (by simp) ho t ht
    | cons v vs => exact hn ho t (by simpa using ht)

theorem Statement.statements (h : Statement ts s) : Statements ts [s] := by
  have hs : Statements (ts ++ []) [s] := .cons h .nil (by simp)
  rwa [List.append_nil] at hs

theorem Statements.snoc {ts us : List Token} {ss : List Stmt} {s : Stmt} (hs : Statement us s)
    (hts : Statements ts ss) (hj : Joins ss us) : Statements (ts ++ us) (ss ++ [s]) := by
  refine Statements.append hs.statements hts fun s' hs' ho t ht => ?_
  obtain ⟨u, hu, he⟩ := hj s' hs' ho
  obtain rfl : u = t := Option.some.inj (hu.symm.trans ht)
  exact he

-- ---------------------------------------------------------------------------
-- One token more
-- ---------------------------------------------------------------------------

variable {σ σ' : State .program} {ts us ws : List Token} {t : Token}

/-- With these tokens the construct at hand goes on, or it ends as a statement. -/
inductive Grows (σ : State .program) (ts : List Token) : State .program → Prop
  | inside (hp : Part ts phase) : Grows σ ts (σ.goto phase)
  | ends (hs : Statement ts s) (ho : s.isOpen = false) : Grows σ ts (σ.push s)

theorem mark_eq_next (h : State.mark t s taken = .next σ' note) :
    t.isPunct s = true ∧ taken = .next σ' note := by
  unfold State.mark at h
  split at h
  next hp => exact ⟨hp, h⟩
  next => cases h

theorem grows_keyword {k : Keyword} (ht : t.isWord k.word = true) :
    Grows σ [t] (σ.goto (State.afterKeyword k)) := by
  cases k with
  | event => exact .inside (.eventKind ht)
  | repeatTimes => exact .inside (.repeatOpen ht)
  | forever => exact .inside (.brace (.forever ht))
  | branch => exact .inside (.conditionOpen (.branch ht))
  | awaitUntil => exact .inside (.untilWord ht)

/-- What begins a statement. -/
theorem grows_begin (h : σ.begin t = .next σ' note) : Grows σ [t] σ' := by
  unfold State.begin at h
  split at h
  next hi =>
    cases hk : Keyword.ofValue? t.value with
    | some k =>
      simp only [hk] at h
      cases h
      exact grows_keyword
        (Token.isWord_iff.2 ⟨Token.isIdent_iff.1 hi, Keyword.ofValue?_eq_some_iff.1 hk⟩)
    | none =>
      simp only [hk] at h
      cases h
      exact .inside (.callWords (.mk hi ((Keyword.ofValue?_eq_none_iff hi).1 hk) (by simp)))
  next =>
    split at h
    next hp =>
      cases h
      exact .ends (.empty hp) rfl
    next => cases h

theorem atEventKind_eq_next (h : σ.atEventKind t = .next σ' note) :
    (t.isWord "start" ∧ σ' = σ.goto (.eventEnd .start)) ∨
      (t.isWord "click" ∧ σ' = σ.goto (.eventEnd .click)) ∨
      ∃ a : Argued, t.isWord a.word ∧ σ' = σ.goto (.eventOpen a) := by
  unfold State.atEventKind at h
  split at h
  next hi hv => cases h; exact .inl ⟨Token.isWord_iff.2 ⟨Token.isIdent_iff.1 hi, hv⟩, rfl⟩
  next hi hv => cases h; exact .inr (.inl ⟨Token.isWord_iff.2 ⟨Token.isIdent_iff.1 hi, hv⟩, rfl⟩)
  next hi hv =>
    cases h
    exact .inr (.inr ⟨.key, Token.isWord_iff.2 ⟨Token.isIdent_iff.1 hi, hv⟩, rfl⟩)
  next hi hv =>
    cases h
    exact .inr (.inr ⟨.backdrop, Token.isWord_iff.2 ⟨Token.isIdent_iff.1 hi, hv⟩, rfl⟩)
  next => cases h

theorem grows_callEnd (h : Called ts c) (hd : Duration ds d)
    (hs : σ.atCallEnd c d t = .next σ' note) : Grows σ (ts ++ ds ++ [t]) σ' := by
  unfold State.atCallEnd at hs
  split at hs
  next he =>
    rw [State.finish_eq] at hs
    cases hs
    obtain ⟨⟨hn, hk, hw⟩, ha⟩ := h
    exact .ends (.call hn hk hw ha hd he) rfl
  next => cases hs

theorem grows_for (h : Called ts c) (hs : σ.atFor c t = .next σ' note) :
    Grows σ (ts ++ [t]) σ' := by
  unfold State.atFor at hs
  split at hs
  next hf => cases hs; exact .inside (.forOpen h hf)
  next =>
    have hg := grows_callEnd h .absent hs
    rwa [List.append_nil] at hg

theorem grows_arg (h : Words ts c) (hl : l.isPunct "(" = true) (ha : Arguments us vs)
    (hs : σ.atArg ⟨c.name, c.args ++ vs⟩ t = .next σ' note) :
    Grows σ (ts ++ l :: us ++ [t]) σ' := by
  unfold State.atArg at hs
  split at hs
  next hr =>
    cases hs
    rw [List.append_assoc]
    exact .inside (.callFor (.mk h (.present hl ha hr)))
  next =>
    split at hs
    next ht =>
      cases hs
      refine .inside (.callComma h hl ha ?_)
      simpa [IsAtom, or_assoc] using ht
    next => cases hs

theorem Grows.of_goto (h : Grows (σ.goto phase) ts σ') : Grows σ ts σ' := by
  cases h with
  | inside hp => exact .inside hp
  | ends hs ho => exact .ends hs ho

/-- What a token may do within a construct: the construct grows, a list is opened, or an
`if` has ended before the token. -/
theorem Part.step (hp : Part ts phase) (h : (σ.goto phase).step t = .next σ' note) :
    Grows σ (ts ++ [t]) σ' ∨
      (∃ opener, Head ts opener ∧ t.isPunct "\x7b" ∧
        σ' = ⟨.statement, [], (opener, σ.body) :: σ.outer⟩) ∨
      ∃ s, Statement ts s ∧ t.isWord "else" = false ∧
        (σ.push s).atStatement t = .next σ' note := by
  cases hp with
  | eventKind ho =>
    left
    obtain ⟨hk, rfl⟩ | ⟨hk, rfl⟩ | ⟨a, hk, rfl⟩ := atEventKind_eq_next h
    · exact .inside (.eventEnd (.start ho hk))
    · exact .inside (.eventEnd (.click ho hk))
    · exact .inside (.eventOpen a ho hk)
  | eventOpen a ho hk =>
    obtain ⟨hl, h⟩ := mark_eq_next h
    cases h
    exact .inl (.inside (.eventName a ho hk hl))
  | eventName a ho hk hl =>
    simp only [State.step, State.goto] at h
    split at h
    next hn =>
      cases h
      exact .inl (.inside (.eventClose a ho hk hl (by simpa [IsName] using hn)))
    next => cases h
  | eventClose a ho hk hl hn =>
    obtain ⟨hr, h⟩ := mark_eq_next h
    cases h
    left
    cases a with
    | key => exact .inside (.eventEnd (.key ho hk hl hn hr))
    | backdrop => exact .inside (.eventEnd (.backdrop ho hk hl hn hr))
  | eventEnd he =>
    obtain ⟨hm, h⟩ := mark_eq_next h
    cases h
    exact .inl (.ends (.event he hm) rfl)
  | repeatOpen hw =>
    obtain ⟨hl, h⟩ := mark_eq_next h
    cases h
    exact .inl (.inside (.repeatCount hw hl))
  | repeatCount hw hl =>
    simp only [State.step, State.goto] at h
    split at h
    next hn => cases h; exact .inl (.inside (.repeatClose hw hl hn))
    next => cases h
  | repeatClose hw hl hn =>
    obtain ⟨hr, h⟩ := mark_eq_next h
    cases h
    exact .inl (.inside (.brace (.repeatTimes hw hl hn hr)))
  | brace hh =>
    obtain ⟨hb, h⟩ := mark_eq_next h
    cases h
    exact .inr (.inl ⟨_, hh, hb, rfl⟩)
  | untilWord hw =>
    simp only [State.step, State.goto] at h
    split at h
    next hu => cases h; exact .inl (.inside (.conditionOpen (.awaitUntil hw hu)))
    next => cases h
  | conditionOpen hu =>
    obtain ⟨hl, h⟩ := mark_eq_next h
    cases h
    exact .inl (.inside (.condition hu hl (by simp)))
  | @condition _ use us l hu hl hus =>
    simp only [State.step, State.goto, State.atCondition] at h
    split at h
    next hr =>
      have hc := Condition.mk hl hus hr
      rw [List.append_assoc]
      cases hu with
      | branch hw => cases h; exact .inl (.inside (.brace (.consequent hw hc)))
      | awaitUntil hw hu => cases h; exact .inl (.inside (.awaitEnd (.awaitUntil hw hu) hc))
    next hr =>
      split at h
      next => cases h
      next he =>
        cases h
        left
        have hus' : ∀ u ∈ us ++ [t], u.isPunct ")" = false ∧ u.isEof = false := by
          intro u hu
          rcases List.mem_append.1 hu with hu | hu
          · exact hus u hu
          · obtain rfl := List.mem_singleton.1 hu
            exact ⟨Bool.eq_false_iff.2 hr, Bool.eq_false_iff.2 he⟩
        have hp := Part.condition hu hl hus'
        rw [List.map_append, List.map_singleton] at hp
        rw [List.append_assoc, List.cons_append]
        exact .inside hp
  | @afterConsequent _ _ c _ body hw hc hb =>
    simp only [State.step, State.goto, State.atElse] at h
    split at h
    next he => cases h; exact .inl (.inside (.brace (.alternate hw hc hb he)))
    next he => exact .inr (.inr ⟨_, .branch hw hc hb, Bool.eq_false_iff.2 he, h⟩)
  | awaitEnd hu hc =>
    obtain ⟨he, h⟩ := mark_eq_next h
    cases h
    cases hu with
    | awaitUntil hw hu => exact .inl (.ends (.awaitUntil hw hu hc he) rfl)
  | callWords hw =>
    left
    simp only [State.step, State.goto] at h
    split at h
    next hi =>
      cases h
      exact .inside (.callWords (hw.snoc (by simpa [IsBareWord] using hi)))
    next =>
      split at h
      next hl =>
        cases h
        have hp := Part.callArgs hw hl .nil
        rw [List.append_nil] at hp
        exact .inside hp
      next =>
        exact (grows_for hw.called h).of_goto
  | callArgs hw hl ha => exact .inl (grows_arg hw hl ha h).of_goto
  | callComma hw hl ha ht =>
    left
    simp only [State.step, State.goto] at h
    split at h
    next hc =>
      cases h
      have hp := Part.callArgs hw hl (ha.snoc_comma ht hc)
      simpa [State.goto] using Grows.inside (σ := σ) hp
    next =>
      have hg := grows_arg hw hl (ha.snoc ht) (by simpa using h)
      simpa using hg.of_goto
  | callFor hc => exact .inl (grows_for hc h).of_goto
  | forOpen hc hf =>
    obtain ⟨hl, h⟩ := mark_eq_next h
    cases h
    rw [List.append_assoc]
    exact .inl (.inside (.forCount hc hf hl))
  | forCount hc hf hl =>
    simp only [State.step, State.goto] at h
    split at h
    next hn =>
      cases h
      rw [List.append_assoc]
      exact .inl (.inside (.forClose hc hf hl hn))
    next => cases h
  | forClose hc hf hl hn =>
    obtain ⟨hr, h⟩ := mark_eq_next h
    cases h
    rw [List.append_assoc]
    exact .inl (.inside (.callEnd hc (.present hf hl hn hr)))
  | callEnd hc hd => exact .inl (grows_callEnd hc hd h).of_goto

-- ---------------------------------------------------------------------------
-- What a step keeps
-- ---------------------------------------------------------------------------

theorem Read.grows (ha : Around ts σ.outer) (hs : Statements us σ.body) (hj : Joins σ.body ws)
    (hg : Grows σ ws σ') : Read (ts ++ (us ++ ws)) σ' := by
  cases hg with
  | inside hp => exact .within ha hs hj hp
  | ends h ho => exact .due ha (hs.snoc h hj) (by simpa [State.push] using ho)

/-- A list between braces ends its construct, but for an `if`, where an `else` may follow. -/
theorem Head.closed {inner : List Stmt} (hh : Head ts opener) (hb : Block us inner) :
    Grows σ (ts ++ us) (σ.closed inner opener) := by
  cases hh with
  | repeatTimes hw hl hn hr => exact .ends (.repeatTimes hw hl hn hr hb) rfl
  | forever hw => exact .ends (.forever hw hb) rfl
  | consequent hw hc => exact .inside (.afterConsequent hw hc hb)
  | alternate hw hc hts he =>
    rw [List.append_assoc, List.singleton_append]
    exact .ends (.branchElse hw hc hts he hb) rfl

theorem Joins.singleton_iff {ss : List Stmt} :
    Joins ss [t] ↔ ∀ s ∈ ss.getLast?, s.isOpen = true → t.isWord "else" = false := by
  simp [Joins]

theorem Read.begin (ha : Around ts σ.outer) (hs : Statements us σ.body) (hj : Joins σ.body [t])
    (h : σ.begin t = .next σ' note) : Read (ts ++ us ++ [t]) σ' := by
  rw [List.append_assoc]
  exact .grows ha hs hj (grows_begin h)

/-- Where a statement is due, one begins or the brace of the list around it closes. -/
theorem Read.atStatement (ha : Around ts σ.outer) (hs : Statements us σ.body)
    (hj : Joins σ.body [t]) (h : σ.atStatement t = .next σ' note) :
    Read (ts ++ us ++ [t]) σ' := by
  obtain ⟨phase, body, outer⟩ := σ
  cases ha with
  | nil =>
    simp only [State.atStatement] at h
    split at h
    next => cases h
    next => exact .begin .nil hs hj h
  | cons ha hs₀ hh hj₀ hb =>
    simp only [State.atStatement, State.beginOr, State.close_eq] at h
    split at h
    next hr =>
      cases h
      have hg := Read.grows (σ := ⟨.statement, _, _⟩) ha hs₀ (hj₀.append _)
        (hh.closed (.mk hb hs hr))
      simpa using hg
    next =>
      split at h
      next => cases h
      next => exact .begin (.cons ha hs₀ hh hj₀ hb) hs hj h

theorem Read.step (hr : Read ts σ) (h : σ.step t = .next σ' note) : Read (ts ++ [t]) σ' := by
  cases hr with
  | due ha hs ho =>
    rw [State.step_statement rfl] at h
    refine .atStatement ha hs (Joins.singleton_iff.2 fun s hm hopen => ?_) h
    rw [ho s hm] at hopen
    cases hopen
  | @within ts outer us body vs phase ha hs hj hp =>
    obtain hg | ⟨opener, hh, hb, rfl⟩ | ⟨s, hst, he, h⟩ := hp.step (σ := ⟨phase, body, outer⟩) h
    · rw [List.append_assoc, List.append_assoc]
      exact .grows ha hs (hj.append _) hg
    · have hd := Read.due (.cons ha hs hh hj hb) .nil (by simp)
      simpa using hd
    · exact .atStatement (σ := State.push ⟨phase, body, outer⟩ s) ha (hs.snoc hst hj)
        (Joins.singleton_iff.2 fun _ _ _ => he) h

-- ---------------------------------------------------------------------------
-- Runs
-- ---------------------------------------------------------------------------

theorem Read.program : Read [] State.program := .due .nil .nil (by simp)

theorem Read.complete (hr : Read ts σ) (hc : σ.complete? = some ss) : Statements ts ss := by
  cases hr with
  | due ha hs =>
    cases ha with
    | nil => cases hc; exact hs
    | cons => cases hc
  | within ha hs hj hp =>
    cases ha with
    | nil =>
      cases hp with
      | afterConsequent hw hcond hb =>
        cases hc
        rw [List.nil_append]
        exact hs.snoc (.branch hw hcond hb) hj
      | _ => cases hc
    | cons => cases hc

/-- A run that gives a program has stopped before an end of source. -/
theorem Read.outcome_ok {p : Lia.Program} (hr : Read ts σ) (h : outcome σ us = .ok p) :
    ∃ vs e rest, us = vs ++ e :: rest ∧ e.isEof = true ∧ Statements (ts ++ vs) p.body := by
  induction us generalizing ts σ with
  | nil => cases h
  | cons t us ih =>
    cases ht : t.isEof with
    | true =>
      obtain ⟨ss, note, hc, hs⟩ | ⟨expected, note, -, hs⟩ := σ.step_eof ht
      · simp only [outcome, run, hs] at h
        cases h
        exact ⟨[], t, us, rfl, ht, by simpa using hr.complete hc⟩
      · simp only [outcome, run, hs] at h
        cases h
    | false =>
      cases hs : σ.step t with
      | next σ' note =>
        obtain ⟨vs, e, rest, rfl, he, hvs⟩ := ih (hr.step hs) (by simpa [outcome, run, hs] using h)
        exact ⟨t :: vs, e, rest, rfl, he, by simpa using hvs⟩
      | refuse expected note =>
        simp only [outcome, run, hs] at h
        cases h
      | _ =>
        have hg := State.step_goesOn (σ := σ) ht
        rw [hs] at hg
        cases hg

/-- What is read as a program begins with one. -/
theorem Program.of_outcome {p : Lia.Program} (h : outcome State.program ts = .ok p) :
    ∃ us rest, ts = us ++ rest ∧ Program us p := by
  obtain ⟨vs, e, rest, rfl, he, hs⟩ := Read.program.outcome_ok h
  exact ⟨vs ++ [e], rest, by simp, .mk hs he⟩

end Lia.Grammar
