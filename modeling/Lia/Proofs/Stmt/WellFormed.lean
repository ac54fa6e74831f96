import Lia.Proofs.Lowering.Scripts
import Lia.Proofs.Number.Reread
import Lia.Proofs.Stmt.Print

/-!
# Parsed programs are well formed

A program that was read from a source has only events of a known kind, names that are names,
numbers without a sign and conditions that are spelled as their own tokens. Main statement:
this holds at every depth, and neither lowering nor printing can fail on such a program
(`parseSource_wellFormed`).
-/

namespace Lia

open Lowering

-- ---------------------------------------------------------------------------
-- Well-formed programs
-- ---------------------------------------------------------------------------

/-- The text has tokens again, none of which ends a condition, and is their spellings. -/
def IsConditionText (c : String) : Prop :=
  ∃ ts, tokenize c = .ok (ts ++ [Token.eof c.length]) ∧
    (∀ t ∈ ts, t.isPunct ")" = false ∧ t.isEof = false) ∧ " ".intercalate (ts.map Token.text) = c

inductive Value.WellFormedArg : Value → Prop
  | text (h : IsWritableText s) : WellFormedArg (.text s)
  | number (h : n.Unsigned) : WellFormedArg (.number n)

inductive Value.WellFormedDuration : Value → Prop
  | null : WellFormedDuration .null
  | number (h : n.Unsigned) : WellFormedDuration (.number n)

mutual
inductive Stmt.WellFormed : Stmt → Prop
  | event (h : t.Writable) : Stmt.WellFormed (.event t)
  | repeatTimes (hn : n.Unsigned) (hb : Stmt.AllWellFormed body) :
      Stmt.WellFormed (.repeatTimes (.number n) body)
  | forever (hb : Stmt.AllWellFormed body) : Stmt.WellFormed (.forever body)
  | branch (hc : IsConditionText c) (hb : Stmt.AllWellFormed body) :
      Stmt.WellFormed (.branch (.text c) body none)
  | branchElse (hc : IsConditionText c) (hb : Stmt.AllWellFormed body)
      (ha : Stmt.AllWellFormed alternate) : Stmt.WellFormed (.branch (.text c) body (some alternate))
  | awaitUntil (hc : IsConditionText c) : Stmt.WellFormed (.awaitUntil (.text c))
  | call (hn : isIdentText name.toList) (hk : name ∉ Grammar.constructWords)
      (ha : ∀ a ∈ args, a.WellFormedArg) (hd : d.WellFormedDuration) :
      Stmt.WellFormed (.call (.text name) args d)
  | empty : Stmt.WellFormed .empty
inductive Stmt.AllWellFormed : List Stmt → Prop
  | nil : Stmt.AllWellFormed []
  | cons (hs : s.WellFormed) (hss : Stmt.AllWellFormed ss)
      (he : s.isOpen → ∀ args d, Stmt.call (.text "else") args d ∉ ss.head?) :
      Stmt.AllWellFormed (s :: ss)
end

def Program.WellFormed (p : Program) : Prop := Stmt.AllWellFormed p.body

-- ---------------------------------------------------------------------------
-- Values of tokens
-- ---------------------------------------------------------------------------

/-- Tokens as they stand in a source. -/
def Sourced (ts : List Token) : Prop := ∀ t ∈ ts, t.unplaced.Spelt

@[simp] theorem sourced_cons : Sourced (t :: ts) ↔ t.unplaced.Spelt ∧ Sourced ts :=
  List.forall_mem_cons

@[simp] theorem sourced_append : Sourced (ts ++ us) ↔ Sourced ts ∧ Sourced us :=
  List.forall_mem_append

namespace Token.Spelt

variable {t : Token}

theorem ident (h : t.unplaced.Spelt) (hk : t.kind = .ident) :
    ∃ w, t.value = .text w ∧ isIdentText w.toList = true := by
  have hs : t.kind.spells t.text.toList = true := h.spells
  have hv : lexemeValue t.kind t.text.toList = .ok t.value := h.value
  rw [hk] at hs hv
  have hvalue : Value.text (String.ofList t.text.toList) = t.value := Except.ok.inj hv
  rw [String.ofList_toList] at hvalue
  exact ⟨t.text, hvalue.symm, hs⟩

theorem name (h : t.unplaced.Spelt) (hn : Grammar.IsName t) :
    ∃ s, t.value = .text s ∧ IsWritableText s := by
  obtain hk | hk := hn
  · obtain ⟨w, hv, hw⟩ := h.ident hk
    exact ⟨w, hv, .inr hw⟩
  · have hs : t.kind.spells t.text.toList = true := h.spells
    have hv : lexemeValue t.kind t.text.toList = .ok t.value := h.value
    rw [hk] at hs hv
    obtain ⟨inner, hinner, hquote⟩ := isStringText_cases hs
    rw [hinner, lexemeValue_string] at hv
    refine ⟨String.ofList inner, (Except.ok.inj hv).symm, .inl ?_⟩
    rw [String.toList_ofList]
    exact fun hc => hquote _ hc rfl

theorem number (h : t.unplaced.Spelt) (hk : t.kind = .number) :
    ∃ n, t.value = .number n ∧ n.Unsigned := by
  have hv : lexemeValue t.kind t.text.toList = .ok t.value := h.value
  rw [hk] at hv
  obtain ⟨n, hn, hvalue⟩ := lexemeValue_number hv
  exact ⟨n, hvalue, .of_numberValue hn⟩

theorem atom (h : t.unplaced.Spelt) (ha : Grammar.IsAtom t) : t.value.WellFormedArg := by
  obtain hk | hk | hk := ha
  · obtain ⟨n, hv, hn⟩ := h.number hk
    exact hv ▸ .number hn
  · obtain ⟨s, hv, hs⟩ := h.name (.inr hk)
    exact hv ▸ .text hs
  · obtain ⟨s, hv, hs⟩ := h.name (.inl hk)
    exact hv ▸ .text hs

end Token.Spelt

-- ---------------------------------------------------------------------------
-- Parts of statements
-- ---------------------------------------------------------------------------

namespace Grammar

theorem Event.writable (h : Event ts t) (hts : Sourced ts) : t.Writable := by
  cases h with
  | start => exact .start
  | click => exact .click
  | @key n _ _ _ _ _ _ _ hn =>
    obtain ⟨s, hv, hs⟩ := (hts n (by simp)).name hn
    exact hv ▸ .key hs
  | @backdrop n _ _ _ _ _ _ _ hn =>
    obtain ⟨s, hv, hs⟩ := (hts n (by simp)).name hn
    exact hv ▸ .backdrop hs

theorem Condition.isConditionText (h : Condition cs c) (hcs : Sourced cs) : IsConditionText c := by
  obtain @⟨ts, l, r, -, hin, -⟩ := h
  simp only [sourced_append, sourced_cons] at hcs
  have hts : ∀ t ∈ ts.map Token.unplaced, t.Spelt := by simpa [Sourced] using hcs.1.2
  have hs := Spelled.words hts (s := []) nofun .nil
  have htext : (ts.map Token.unplaced).map Token.text = ts.map Token.text := by
    simp [Token.unplaced]
  rw [List.append_nil, List.append_nil, htext] at hs
  -- The tokens of the text are these again, only in other places.
  obtain ⟨us, hus, hmap⟩ := hs.tokenize
  obtain ⟨vs, rfl, -⟩ := tokenize_spelt hus
  rw [List.map_append] at hmap
  have hmap : vs.map Token.unplaced = ts.map Token.unplaced := (List.append_inj' hmap rfl).1
  refine ⟨vs, hus, fun t ht => ?_, ?_⟩
  · obtain ⟨u, hu, hut⟩ := List.mem_map.1 (hmap ▸ List.mem_map_of_mem (f := Token.unplaced) ht)
    have hp : t.unplaced.isPunct ")" = false ∧ t.unplaced.isEof = false := hut ▸ hin u hu
    exact hp
  · rw [← htext, ← hmap, List.map_map]
    rfl

theorem Arguments.wellFormed (h : Arguments ts vs) (hts : Sourced ts) :
    ∀ v ∈ vs, v.WellFormedArg := by
  induction h with
  | nil => nofun
  | atom ha _ ih =>
    obtain ⟨ht, hts⟩ := sourced_cons.1 hts
    exact List.forall_mem_cons.2 ⟨ht.atom ha, ih hts⟩
  | comma ha _ _ ih =>
    simp only [sourced_cons] at hts
    obtain ⟨ht, -, hts⟩ := hts
    exact List.forall_mem_cons.2 ⟨ht.atom ha, ih hts⟩

theorem ArgumentList.wellFormed (h : ArgumentList ts vs) (hts : Sourced ts) :
    ∀ v ∈ vs, v.WellFormedArg := by
  cases h with
  | absent => nofun
  | present _ h _ =>
    simp only [sourced_append, sourced_cons] at hts
    exact h.wellFormed hts.1.2

theorem Duration.wellFormed (h : Duration ts d) (hts : Sourced ts) : d.WellFormedDuration := by
  cases h with
  | absent => exact .null
  | @present f l n r _ _ hn =>
    obtain ⟨m, hv, hm⟩ := (hts n (by simp)).number hn
    exact hv ▸ .number hm

theorem Statement.head_of_call (h : Statement ts (.call (.text name) args d)) :
    ∃ t ∈ ts.head?, t.isWord name = true := by
  generalize hs : Stmt.call (.text name) args d = s at h
  cases h with
  | @call _ _ _ _ _ n _ hn =>
    obtain ⟨hname, -, -⟩ := Stmt.call.inj hs
    exact ⟨n, by simp, Token.isWord_iff.2 ⟨Token.isIdent_iff.1 hn, hname.symm⟩⟩
  | _ => cases hs

theorem Statements.head_ne_else (h : Statements ts ss)
    (hts : ∀ t ∈ ts.head?, t.isWord "else" = false) (args : List Value) (d : Value) :
    Stmt.call (.text "else") args d ∉ ss.head? := by
  intro hs
  cases h with
  | nil => cases hs
  | cons h =>
    obtain rfl := Option.some.inj hs
    obtain ⟨t, ht, he⟩ := h.head_of_call
    have hword := hts t (by rw [List.head?_append, Option.mem_def.1 ht]; rfl)
    rw [he] at hword
    cases hword

theorem call_wellFormed {n : Token} {ws : List Token} (hn : n.isIdent)
    (hk : ∀ w ∈ constructWords, n.isWord w = false) (hw : ∀ t ∈ ws, IsBareWord t)
    (ha : ArgumentList as vs) (hd : Duration ds d) (hs : n.unplaced.Spelt) (hws : Sourced ws)
    (has : Sourced as) (hds : Sourced ds) :
    (Stmt.call n.value (ws.map Token.value ++ vs) d).WellFormed := by
  obtain ⟨name, hv, hname⟩ := hs.ident (Token.isIdent_iff.1 hn)
  rw [hv]
  refine .call hname (fun hmem => ?_) (List.forall_mem_append.2 ⟨?_, ha.wellFormed has⟩)
    (hd.wellFormed hds)
  · have hword := hk name hmem
    rw [Token.isWord_iff.2 ⟨Token.isIdent_iff.1 hn, hv⟩] at hword
    cases hword
  · intro v hmem
    obtain ⟨t, ht, rfl⟩ := List.mem_map.1 hmem
    exact (hws t ht).atom (.inr (.inr (Token.isIdent_iff.1 (hw t ht).1)))

mutual
theorem Statement.wellFormed : Statement ts s → Sourced ts → s.WellFormed
  | .empty _, _ => .empty
  | .event h _, hts => .event (h.writable (sourced_append.1 hts).1)
  | .repeatTimes (n := n) _ _ hn _ hb, hts => by
    simp only [sourced_cons] at hts
    obtain ⟨-, -, hnum, -, hts⟩ := hts
    obtain ⟨m, hv, hm⟩ := hnum.number hn
    rw [hv]
    exact .repeatTimes hm (hb.wellFormed hts)
  | .forever _ hb, hts => .forever (hb.wellFormed (sourced_cons.1 hts).2)
  | .branch _ hc hb, hts => by
    simp only [sourced_append, sourced_cons] at hts
    obtain ⟨⟨-, hcs⟩, hts⟩ := hts
    exact .branch (hc.isConditionText hcs) (hb.wellFormed hts)
  | .branchElse _ hc hb _ ha, hts => by
    simp only [sourced_append, sourced_cons] at hts
    obtain ⟨⟨⟨-, hcs⟩, hts⟩, -, hus⟩ := hts
    exact .branchElse (hc.isConditionText hcs) (hb.wellFormed hts) (ha.wellFormed hus)
  | .awaitUntil _ _ hc _, hts => by
    simp only [sourced_append, sourced_cons] at hts
    obtain ⟨⟨-, -, hcs⟩, -⟩ := hts
    exact .awaitUntil (hc.isConditionText hcs)
  | .call hn hk hw ha hd _, hts => by
    simp only [sourced_append, sourced_cons] at hts
    obtain ⟨⟨⟨⟨hs, hws⟩, has⟩, hds⟩, -⟩ := hts
    exact call_wellFormed hn hk hw ha hd hs hws has hds
theorem Statements.wellFormed : Statements ts ss → Sourced ts → Stmt.AllWellFormed ss
  | .nil, _ => .nil
  | .cons h hs hn, hts =>
    .cons (h.wellFormed (sourced_append.1 hts).1) (hs.wellFormed (sourced_append.1 hts).2)
      fun ho => hs.head_ne_else (hn ho)
theorem Block.wellFormed : Block ts ss → Sourced ts → Stmt.AllWellFormed ss
  | .mk _ h _, hts => by
    simp only [sourced_append, sourced_cons] at hts
    exact h.wellFormed hts.1.2
end

end Grammar

-- ---------------------------------------------------------------------------
-- What comes behind the parser
-- ---------------------------------------------------------------------------

theorem Value.WellFormedArg.isHashable {v : Value} (h : v.WellFormedArg) : v.isHashable = true := by
  cases h <;> rfl

mutual
theorem Stmt.WellFormed.supported {s : Stmt} : s.WellFormed → s.supported = true
  | .event h => by cases h <;> rfl
  | .call _ _ ha _ => callKey_isHashable rfl fun a hm => (ha a hm).isHashable
  | .repeatTimes _ hb | .forever hb | .branch _ hb | .branchElse _ hb _ => hb.supported
  | .awaitUntil _ | .empty => rfl
theorem Stmt.AllWellFormed.supported : Stmt.AllWellFormed ss → Stmt.supportedAll ss = true
  | .nil => rfl
  | .cons hs hss _ => by rw [Stmt.supportedAll, hs.supported, hss.supported]; rfl
end

theorem Listing.error_append {a b : Listing} (ha : a.error = none) : (a ++ b).error = b.error := by
  obtain ⟨lines, error⟩ := a
  obtain rfl : error = none := ha
  rfl

section
variable (indent : String)

theorem error_printBlock (depth : Int) (header : String) {body : Listing} (hb : body.error = none) :
    (printBlock indent depth header body).error = none := by
  rw [printBlock, Listing.error_append ((Listing.error_append rfl).trans hb)]
  rfl

mutual
theorem Stmt.WellFormed.error_print (depth : Int) {s : Stmt} :
    s.WellFormed → (s.print indent depth).error = none
  | .event _ | .awaitUntil _ | .call .. | .empty => rfl
  | .repeatTimes _ hb | .forever hb | .branch _ hb =>
    error_printBlock indent depth _ (hb.error_printAll (depth + 1))
  | .branchElse _ hb ha => by
    rw [Stmt.print, Listing.error_append ((Listing.error_append rfl).trans
      (hb.error_printAll (depth + 1)))]
    exact error_printBlock indent depth _ (ha.error_printAll (depth + 1))
theorem Stmt.AllWellFormed.error_printAll (depth : Int) :
    Stmt.AllWellFormed ss → (Stmt.printAll indent depth ss).error = none
  | .nil => rfl
  | .cons hs hss _ => by
    rw [Stmt.printAll, Listing.error_append (hs.error_print depth)]
    exact hss.error_printAll depth
end

end

-- ---------------------------------------------------------------------------
-- Parsed programs
-- ---------------------------------------------------------------------------

theorem Program.WellFormed.of_parseSource {source : String} {p : Program}
    (h : parseSource source = .ok p) : p.WellFormed := by
  obtain ⟨ts, hts, hp⟩ := parseSource_ok_iff.1 h
  obtain @⟨us, body, e, hbody, -⟩ := hp
  obtain ⟨vs, hvs, hspelt⟩ := tokenize_spelt hts
  obtain rfl := (List.append_inj' hvs rfl).1
  exact hbody.wellFormed hspelt

theorem Program.WellFormed.compile_ok {p : Program} (h : p.WellFormed) {grid : Grid}
    (hg : grid.maxColumns ≠ 0) (stageName : String) (ids : IdSource) :
    (compile p grid stageName ids).result = .ok () := by
  have hp : Stmt.supportedAll p.body = true := Stmt.AllWellFormed.supported h
  exact (compile_result_ok_iff p grid stageName ids).2 (lowerScripts_error hg hp p.body 0 0 hp)

theorem Program.WellFormed.format_ok {p : Program} (h : p.WellFormed) (indent : String) :
    ∃ text, p.format indent = .ok text := by
  have he := Stmt.AllWellFormed.error_printAll indent 0 h
  rw [Program.format, Listing.text, he]
  exact ⟨_, rfl⟩

/-- What the parser gives is well formed, and what comes behind it cannot fail. -/
theorem parseSource_wellFormed {source : String} {p : Program} (h : parseSource source = .ok p) :
    p.WellFormed ∧
      (∀ (grid : Grid) (stageName : String) (ids : IdSource), grid.maxColumns ≠ 0 →
        (compile p grid stageName ids).result = .ok ()) ∧
      ∀ indent, ∃ text, p.format indent = .ok text :=
  have hp := Program.WellFormed.of_parseSource h
  ⟨hp, fun _ stageName ids hg => hp.compile_ok hg stageName ids, hp.format_ok⟩

def pauseSource : String := "await until (x>=1);"

def pauseTokens : List Token :=
  let punct (s : String) (pos : Nat) : Token := ⟨.punct, s, some pos, s⟩
  let word (s : String) (pos : Nat) : Token := ⟨.ident, s, some pos, s⟩
  [word "await" 0, word "until" 6, punct "(" 12, word "x" 13, punct ">=" 14,
    ⟨.number, 1, some 16, "1"⟩, punct ")" 17, punct ";" 18, .eof 19]

def pause : Program := ⟨[.awaitUntil (.text "x >= 1")]⟩

theorem pause_wellFormed : parseSource pauseSource = .ok pause ∧ pause.WellFormed ∧
    (compile pause {} "Stage" (.ofList [])).result = .ok () ∧ ∃ text, pause.format = .ok text := by
  have hend : scan 19 [] = .ok [.eof 19] := by rw [scan]
  have hclose : scan 16 "1);".toList = .ok _ :=
    scan_munch rfl rfl (scan_munch rfl rfl (scan_munch rfl rfl hend))
  have hopen : scan 12 "(x>=1);".toList = .ok _ :=
    scan_munch rfl rfl (scan_munch rfl rfl (scan_munch rfl rfl hclose))
  have huntil : scan 6 "until (x>=1);".toList = .ok _ :=
    scan_munch rfl rfl ((scan_space rfl 11).trans hopen)
  have htokens : tokenize pauseSource = .ok pauseTokens :=
    scan_munch (s := pauseSource.toList) (m := ⟨.ident, _, _⟩) rfl rfl
      ((scan_space rfl 5).trans huntil)
  have hprogram := (parse_ok_iff (tokenize_tokenized htokens) none pause).1 rfl
  have hparse : parseSource pauseSource = .ok pause := parseSource_ok_iff.2 ⟨_, htokens, hprogram⟩
  obtain ⟨hp, hcompile, hformat⟩ := parseSource_wellFormed hparse
  exact ⟨hparse, hp, hcompile {} "Stage" (.ofList []) (by decide), hformat defaultIndent⟩

end Lia
