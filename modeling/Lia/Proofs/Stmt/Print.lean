import Lia.Proofs.Grammar.Parse
import Lia.Proofs.Number.Plain
import Lia.Proofs.Parser.Layout
import Lia.Proofs.Token.Spelled
import Lia.Stmt.Print

/-!
# Printed programs read back

A writable program is one whose parts have a spelling. It is printed, and its text is
parsed as the program itself (`Program.parseSource_format`). Line by line the printed
text spells tokens (`Listing.Spells`), and the grammar makes the program of them.
-/

namespace Lia

-- ---------------------------------------------------------------------------
-- Writable programs
-- ---------------------------------------------------------------------------

/-- A text that is printed in quotes, or is a bare name with quotes in it. -/
def IsWritableText (s : String) : Prop := '"' ∉ s.toList ∨ isIdentText s.toList = true

inductive Trigger.Writable : Trigger → Prop
  | start : Writable .start
  | click : Writable .click
  | key (h : IsWritableText s) : Writable (.key (.text s))
  | backdrop (h : IsWritableText s) : Writable (.backdrop (.text s))

/-- An argument of a call. -/
inductive Value.WritableArg : Value → Prop
  | text (h : IsWritableText s) : WritableArg (.text s)
  | number (h : n.Writable) : WritableArg (.number n)

/-- The duration of a call. -/
inductive Value.WritableDuration : Value → Prop
  | null : WritableDuration .null
  | number (h : n.Writable) : WritableDuration (.number n)

/-- A spelling of any class but the mark that ends the condition; an integer is short
enough to be read. -/
structure IsConditionWord (w : String) : Prop where
  spells : ∃ k : TokenKind, k.spells w.toList = true
  ne_close : w ≠ ")"
  integer : w.toList.all Char.isDigit = true → w.length ≤ maxIntegerDigits

inductive Value.WritableCondition : Value → Prop
  | mk (h : ∀ w ∈ ws, IsConditionWord w) : WritableCondition (.text (" ".intercalate ws))

mutual
inductive Stmt.Writable : Stmt → Prop
  | event (h : t.Writable) : Stmt.Writable (.event t)
  | repeatTimes (hn : n.Writable) (hb : Stmt.AllWritable body) :
      Stmt.Writable (.repeatTimes (.number n) body)
  | forever (hb : Stmt.AllWritable body) : Stmt.Writable (.forever body)
  | branch (hc : c.WritableCondition) (hb : Stmt.AllWritable body) :
      Stmt.Writable (.branch c body none)
  | branchElse (hc : c.WritableCondition) (hb : Stmt.AllWritable body)
      (ha : Stmt.AllWritable alternate) : Stmt.Writable (.branch c body (some alternate))
  | awaitUntil (hc : c.WritableCondition) : Stmt.Writable (.awaitUntil c)
  | call (hn : isIdentText name.toList) (hk : name ∉ Grammar.constructWords)
      (ha : ∀ a ∈ args, a.WritableArg) (hd : d.WritableDuration) :
      Stmt.Writable (.call (.text name) args d)
  | empty : Stmt.Writable .empty
/-- A call of the name `else` would be read as the alternate of an `if` before it. -/
inductive Stmt.AllWritable : List Stmt → Prop
  | nil : Stmt.AllWritable []
  | cons (hs : s.Writable) (hss : Stmt.AllWritable ss)
      (he : s.isOpen → ∀ args d, Stmt.call (.text "else") args d ∉ ss.head?) :
      Stmt.AllWritable (s :: ss)
end

def Program.Writable (p : Program) : Prop := Stmt.AllWritable p.body

-- ---------------------------------------------------------------------------
-- Tokens of values
-- ---------------------------------------------------------------------------

/-- The class of a printed value. -/
def Value.tokenKind : Value → TokenKind
  | .text s => if '"' ∈ s.toList then .ident else .string
  | .number _ => .number
  | _ => .eof

/-- The token that a printed value reads as. -/
def Value.token (v : Value) : Token := ⟨v.tokenKind, v, none, v.spelling⟩

@[simp] theorem Value.token_value (v : Value) : v.token.value = v := rfl
@[simp] theorem Value.token_text (v : Value) : v.token.text = v.spelling := rfl

theorem isName_text (s : String) : Grammar.IsName (Value.text s).token := by
  by_cases hq : '"' ∈ s.toList
  · exact .inl (if_pos hq)
  · exact .inr (if_neg hq)

theorem IsWritableText.spelt (h : IsWritableText s) : (Value.text s).token.Spelt := by
  by_cases hq : '"' ∈ s.toList
  · have hi : isIdentText s.toList = true := h.resolve_left (not_not_intro hq)
    have ht : (Value.text s).token = Token.word s := by
      simp [Value.token, Value.tokenKind, Value.spelling, Token.word, hq]
    rw [ht]
    exact Token.spelt_word hi
  · have ht : (Value.text s).token = ⟨.string, .text s, none, "\"" ++ s ++ "\""⟩ := by
      simp [Value.token, Value.tokenKind, Value.spelling, hq]
    have hall : ∀ c ∈ s.toList, c ≠ '"' := by
      rintro c hc rfl
      exact hq hc
    rw [ht]
    refine ⟨?_, ?_, rfl⟩
    · simpa [TokenKind.spells, isStringText] using hall
    · simp [lexemeValue]

theorem Number.Writable.spelt {n : Number} (h : n.Writable) : (Value.number n).token.Spelt := by
  refine ⟨Number.isNumberText_plain h, ?_, rfl⟩
  show (numberValue n.plain.toList).map Value.number = .ok (.number n)
  rw [Number.numberValue_plain h]
  rfl

theorem Value.WritableArg.spelt {v : Value} (h : v.WritableArg) : v.token.Spelt := by
  cases h with
  | text h => exact h.spelt
  | number h => exact h.spelt

theorem Value.WritableArg.isAtom {v : Value} (h : v.WritableArg) : Grammar.IsAtom v.token := by
  cases h with
  | @text s => exact .inr (isName_text s).symm
  | number => exact .inl rfl

theorem IsConditionWord.exists_token {w : String} (h : IsConditionWord w) :
    ∃ t : Token, t.text = w ∧ t.Spelt ∧ t.isPunct ")" = false ∧ t.isEof = false := by
  obtain ⟨k, hk⟩ := h.spells
  have hv : ∃ v, lexemeValue k w.toList = .ok v ∧ (k = .punct → v = .text w) := by
    cases k with
    | number =>
      obtain ⟨n, hn⟩ := exists_numberValue fun ht => Nat.not_lt.2 (h.integer ht.1) ht.2
      refine ⟨.number n, ?_, fun hk => by cases hk⟩
      rw [lexemeValue, hn]
      rfl
    | punct => exact ⟨_, rfl, fun _ => by rw [String.ofList_toList]⟩
    | _ => exact ⟨_, rfl, fun hk => by cases hk⟩
  obtain ⟨v, hv, hp⟩ := hv
  refine ⟨⟨k, v, none, w⟩, rfl, ⟨hk, hv, rfl⟩, ?_, ?_⟩
  · rw [Bool.eq_false_iff, ne_eq, Token.isPunct_iff]
    rintro ⟨hkind, hvalue⟩
    have hw : Value.text w = .text ")" := (hp hkind).symm.trans hvalue
    exact h.ne_close (Value.text.inj hw)
  · refine Token.isEof_of_kind ?_
    rintro rfl
    cases hk

-- ---------------------------------------------------------------------------
-- Lines
-- ---------------------------------------------------------------------------

/-- The line, with a newline behind it, spells the tokens. -/
def SpellsLine (line : String) (ts : List Token) : Prop :=
  ∀ us s, Spelled us s → Spelled (ts ++ us) (line.toList ++ '\n' :: s)

/-- Nothing stopped the listing, and its lines spell the tokens. -/
structure Listing.Spells (l : Listing) (ts : List Token) : Prop where
  error : l.error = none
  spelled : ∀ us s, Spelled us s →
    Spelled (ts ++ us) (l.lines.flatMap (fun line => line.toList ++ ['\n']) ++ s)

theorem toList_lines {lines : List String} (h : lines ≠ []) :
    ("\n".intercalate lines ++ "\n").toList = lines.flatMap (fun line => line.toList ++ ['\n']) := by
  induction lines with
  | nil => exact absurd rfl h
  | cons line lines ih =>
    cases lines with
    | nil => simp
    | cons next lines => simpa using ih (by simp)

namespace Listing.Spells

theorem nil : Listing.Spells ⟨[], none⟩ [] := ⟨rfl, fun _ _ h => h⟩

theorem append {a b : Listing} (ha : a.Spells ts) (hb : b.Spells us) : (a ++ b).Spells (ts ++ us) := by
  obtain ⟨la, ea⟩ := a
  obtain ⟨rfl, ha⟩ := ha
  refine ⟨hb.error, fun vs s h => ?_⟩
  have h := ha _ _ (hb.spelled _ _ h)
  show Spelled _ ((la ++ b.lines).flatMap (fun line => line.toList ++ ['\n']) ++ s)
  rwa [List.flatMap_append, List.append_assoc, List.append_assoc]

/-- The text ends each line in a newline, and is one if there is no line. -/
theorem text {l : Listing} (h : l.Spells ts) : ∃ text, l.text = .ok text ∧ Spelled ts text.toList := by
  obtain ⟨lines, error⟩ := l
  obtain ⟨rfl, h⟩ := h
  refine ⟨_, rfl, ?_⟩
  cases lines with
  | nil => simpa using h [] _ (.space (c := '\n') rfl .nil)
  | cons line lines =>
    rw [toList_lines (by simp)]
    simpa using h [] [] .nil

end Listing.Spells

section
variable {indent : String} (hi : ∀ c ∈ indent.toList, isSpace c = true)
include hi

theorem spells_indentLine (depth : Int) {line : String} (h : SpellsLine line ts) :
    (Listing.one (indentLine indent depth line)).Spells ts := by
  refine ⟨rfl, fun us s hs => ?_⟩
  have hj : ∀ c ∈ (String.join (List.replicate depth.toNat indent)).toList, isSpace c = true := by
    rw [String.toList_join]
    intro c hc
    obtain ⟨x, hx, hc⟩ := List.mem_flatMap.1 hc
    rw [List.eq_of_mem_replicate hx] at hc
    exact hi c hc
  simpa [Listing.one, indentLine] using Spelled.gap hj (h us s hs)

theorem spells_printBlock (depth : Int) {header : String} {body : Listing} (hs : List Token)
    (hh : SpellsLine (header ++ " \x7b") (hs ++ [.mark '\x7b'])) (hb : body.Spells ts) :
    (printBlock indent depth header body).Spells (hs ++ (.mark '\x7b' :: ts ++ [.mark '\x7d'])) := by
  have hc : SpellsLine "\x7d" [.mark '\x7d'] := fun us s h => .mark rfl (.space rfl h)
  have h := ((spells_indentLine hi depth hh).append hb).append (spells_indentLine hi depth hc)
  simpa [printBlock] using h

end

-- ---------------------------------------------------------------------------
-- Parts of statements
-- ---------------------------------------------------------------------------

open Spelled

theorem spells_simpleEvent {kind : String} (hk : isIdentText kind.toList = true) :
    SpellsLine ("on " ++ kind ++ ";") [.word "on", .word kind, .mark ';'] := by
  intro us s h
  have h : Spelled _ ("on".toList ++ ' ' :: (kind.toList ++ ';' :: '\n' :: s)) :=
    word rfl (broken_cons rfl) (.space rfl
      (word hk (broken_cons rfl) (mark rfl (.space rfl h))))
  simpa using h

theorem spells_arguedEvent {kind : String} {n : Token} (hk : isIdentText kind.toList = true)
    (hn : n.Spelt) :
    SpellsLine ("on " ++ kind ++ "(" ++ n.text ++ ");")
      [.word "on", .word kind, .mark '(', n, .mark ')', .mark ';'] := by
  intro us s h
  have h : Spelled _ ("on".toList ++ ' ' :: (kind.toList ++ '(' ::
      (n.text.toList ++ ')' :: ';' :: '\n' :: s))) :=
    word rfl (broken_cons rfl) (.space rfl (word hk (broken_cons rfl) (mark rfl
      (token hn (broken_cons rfl) (mark rfl (mark rfl (.space rfl h)))))))
  simpa using h

theorem Trigger.Writable.spells {t : Trigger} (h : t.Writable) :
    ∃ ts, Grammar.Event ts t ∧ SpellsLine t.spelling (ts ++ [.mark ';']) := by
  cases h with
  | start =>
    have h : SpellsLine ("on " ++ "start" ++ ";") _ := spells_simpleEvent rfl
    exact ⟨[.word "on", .word "start"], .start rfl rfl, by simpa [SpellsLine, spelling] using h⟩
  | click =>
    have h : SpellsLine ("on " ++ "click" ++ ";") _ := spells_simpleEvent rfl
    exact ⟨[.word "on", .word "click"], .click rfl rfl, by simpa [SpellsLine, spelling] using h⟩
  | @key name h =>
    have h : SpellsLine ("on " ++ "key" ++ "(" ++ (Value.text name).token.text ++ ");") _ :=
      spells_arguedEvent rfl h.spelt
    exact ⟨[.word "on", .word "key", .mark '(', (Value.text name).token, .mark ')'],
      .key rfl rfl rfl (isName_text name) rfl, by simpa [SpellsLine, spelling, Value.token] using h⟩
  | @backdrop name h =>
    have h : SpellsLine ("on " ++ "backdrop" ++ "(" ++ (Value.text name).token.text ++ ");") _ :=
      spells_arguedEvent rfl h.spelt
    exact ⟨[.word "on", .word "backdrop", .mark '(', (Value.text name).token, .mark ')'],
      .backdrop rfl rfl rfl (isName_text name) rfl,
      by simpa [SpellsLine, spelling, Value.token] using h⟩

theorem exists_tokens {ws : List String} (h : ∀ w ∈ ws, IsConditionWord w) :
    ∃ ts : List Token, ts.map Token.text = ws ∧ (∀ t ∈ ts, t.Spelt) ∧
      ∀ t ∈ ts, t.isPunct ")" = false ∧ t.isEof = false := by
  induction ws with
  | nil => exact ⟨[], rfl, nofun, nofun⟩
  | cons w ws ih =>
    obtain ⟨t, rfl, ht, hp⟩ := (h w (by simp)).exists_token
    obtain ⟨ts, rfl, hts, hps⟩ := ih fun w hw => h w (.tail _ hw)
    exact ⟨t :: ts, rfl, List.forall_mem_cons.2 ⟨ht, hts⟩, List.forall_mem_cons.2 ⟨hp, hps⟩⟩

theorem Value.WritableCondition.spells {c : Value} (h : c.WritableCondition) :
    ∃ ts text, c = .text text ∧ Grammar.Condition ts text ∧
      ∀ us s, Spelled us s → Spelled (ts ++ us) ('(' :: (c.display.toList ++ ')' :: s)) := by
  obtain ⟨hws⟩ := h
  obtain ⟨ts, rfl, hts, hps⟩ := exists_tokens hws
  refine ⟨_, _, rfl, .mk (l := .mark '(') (r := .mark ')') rfl hps rfl, fun us s h => ?_⟩
  have h := words hts (broken_cons rfl) (mark (c := ')') rfl h)
  simpa [Value.display] using mark (c := '(') rfl h

theorem arguments_tokens {args : List Value} (h : ∀ a ∈ args, a.WritableArg) :
    Grammar.Arguments ([Token.mark ','].intercalate ((args.map Value.token).map ([·]))) args := by
  induction args with
  | nil => exact .nil
  | cons a args ih =>
    have ih := ih fun a ha => h a (.tail _ ha)
    have ha := (h a (by simp)).isAtom
    cases args with
    | nil => exact .atom ha .nil
    | cons b args => simpa using Grammar.Arguments.comma (c := .mark ',') ha rfl ih

/-- The text spells the tokens behind whatever stands before it. -/
def SpellsTail (text : String) (ts : List Token) : Prop :=
  ∀ us s, Broken s → Spelled us s →
    Broken (text.toList ++ s) ∧ Spelled (ts ++ us) (text.toList ++ s)

theorem spellsTail_empty : SpellsTail "" [] := fun _ _ hs h => ⟨hs, h⟩

theorem spells_arguments {args : List Value} (h : ∀ a ∈ args, a.WritableArg) :
    ∃ ts, Grammar.ArgumentList ts args ∧ SpellsTail (if args.isEmpty then "" else
      "(" ++ ", ".intercalate (args.map Value.spelling) ++ ")") ts := by
  by_cases he : args = []
  · subst he
    exact ⟨[], .absent, spellsTail_empty⟩
  · have hspelt : ∀ t ∈ args.map Value.token, t.Spelt := by
      simpa using fun a ha => (h a ha).spelt
    refine ⟨_, .present (l := .mark '(') (r := .mark ')') rfl (arguments_tokens h) rfl, ?_⟩
    intro us s hs hus
    have hsep us s (h : Spelled us s) : Spelled (.mark ',' :: us) (", ".toList ++ s) :=
      mark (c := ',') rfl (.space rfl h)
    have hus := separated ", " [.mark ','] hsep (fun s => broken_cons rfl) hspelt (broken_cons rfl)
      (mark (c := ')') rfl hus)
    have hus := mark (c := '(') rfl hus
    simpa [he, Function.comp_def] using And.intro (broken_cons (c := '(') rfl) hus

theorem Value.WritableDuration.spells {d : Value} (h : d.WritableDuration) :
    ∃ ts, Grammar.Duration ts d ∧
      SpellsTail (if d.isNull then "" else " for(" ++ d.spelling ++ ")") ts := by
  cases h with
  | null => exact ⟨[], .absent, spellsTail_empty⟩
  | @number n h =>
    refine ⟨_, .present (f := .word "for") (l := .mark '(') (n := (Value.number n).token)
      (r := .mark ')') rfl rfl rfl rfl, ?_⟩
    intro us s hs hus
    have hus := Spelled.token h.spelt (broken_cons rfl) (mark (c := ')') rfl hus)
    have hus := word (w := "for") rfl (broken_cons rfl) (mark (c := '(') rfl hus)
    simpa [Value.isNull] using And.intro (broken_cons (c := ' ') rfl) (hus.space (c := ' ') rfl)

theorem spells_awaitUntil {c : Value} (hc : c.WritableCondition) :
    ∃ ts, Grammar.Statement ts (.awaitUntil c) ∧
      SpellsLine ("await until (" ++ c.display ++ ");") ts := by
  obtain ⟨cs, text, rfl, hcond, hcs⟩ := hc.spells
  refine ⟨_, .awaitUntil (w := .word "await") (u := .word "until") (e := .mark ';') rfl rfl hcond rfl,
    ?_⟩
  intro us s h
  have h := hcs _ _ (mark (c := ';') rfl (.space (c := '\n') rfl h))
  have h := word (w := "until") rfl (broken_cons rfl) (h.space (c := ' ') rfl)
  have h := word (w := "await") rfl (broken_cons rfl) (h.space (c := ' ') rfl)
  simpa using h

theorem spells_call {name : String} {args : List Value} {d : Value}
    (hn : isIdentText name.toList = true) (hk : name ∉ Grammar.constructWords)
    (ha : ∀ a ∈ args, a.WritableArg) (hd : d.WritableDuration) :
    ∃ ts, Grammar.Statement ts (.call (.text name) args d) ∧
      SpellsLine (callSpelling name args d) ts := by
  obtain ⟨as, hargs, has⟩ := spells_arguments ha
  obtain ⟨ds, hdur, hds⟩ := hd.spells
  have hwords : ∀ w ∈ Grammar.constructWords, (Token.word name).isWord w = false := by
    intro w hw
    rw [Bool.eq_false_iff, ne_eq, Token.isWord_iff]
    rintro ⟨-, h⟩
    exact hk (Value.text.inj h ▸ hw)
  have hcall : Grammar.Statement (.word name :: [] ++ as ++ ds ++ [.mark ';'])
      (.call (.text name) ([].map Token.value ++ args) d) :=
    .call rfl hwords nofun hargs hdur rfl
  refine ⟨_, hcall, ?_⟩
  intro us s h
  have hend : Spelled (.mark ';' :: us) (';' :: '\n' :: s) := mark rfl (.space rfl h)
  obtain ⟨hb, h⟩ := hds _ _ (broken_cons rfl) hend
  obtain ⟨hb, h⟩ := has _ _ hb h
  have h := word hn hb h
  simpa [callSpelling] using h

-- ---------------------------------------------------------------------------
-- Statements
-- ---------------------------------------------------------------------------

/-- Only a call begins with the word `else`. -/
theorem Grammar.Statement.of_else {t : Token} (h : Grammar.Statement ts s) (ht : t ∈ ts.head?)
    (he : t.isWord "else" = true) : ∃ args d, s = .call (.text "else") args d := by
  have hother {w : String} {t' : Token} (hw : t'.isWord w = true) (hne : w ≠ "else")
      (ht : some t' = some t) : False := by
    cases ht
    rw [Token.isWord_of_ne hw hne] at he
    cases he
  cases h with
  | empty hp =>
    cases ht
    rw [Token.isWord_of_isPunct hp] at he
    cases he
  | event h _ =>
    cases h with
    | start ho | click ho | key ho | backdrop ho => exact (hother ho (by decide) ht).elim
  | repeatTimes hw | forever hw | branch hw | branchElse hw | awaitUntil hw =>
    exact (hother hw (by decide) ht).elim
  | call =>
    cases ht
    exact ⟨_, _, by rw [(Token.isWord_iff.1 he).2]⟩

theorem Grammar.Statements.not_else (h : Grammar.Statements ts ss)
    (hc : ∀ args d, Stmt.call (.text "else") args d ∉ ss.head?) :
    ∀ t ∈ ts.head?, t.isWord "else" = false := by
  intro t ht
  cases h with
  | nil => cases ht
  | @cons ts s us ss h =>
    rw [Bool.eq_false_iff]
    intro he
    have ht : t ∈ ts.head? := by
      cases ts with
      | nil => exact absurd rfl h.ne_nil
      | cons => exact ht
    obtain ⟨args, d, rfl⟩ := h.of_else ht he
    exact hc args d rfl

theorem Grammar.Statements.block (h : Grammar.Statements ts ss) :
    Grammar.Block (.mark '\x7b' :: ts ++ [.mark '\x7d']) ss :=
  .mk rfl h rfl

theorem spells_open (us : List Token) (s : List Char) (h : Spelled us s) :
    Spelled (.mark '\x7b' :: us) (' ' :: '\x7b' :: '\n' :: s) :=
  .space rfl (mark rfl (.space rfl h))

theorem spells_if {c : Value} (hc : ∀ us s, Spelled us s →
    Spelled (ts ++ us) ('(' :: (c.display.toList ++ ')' :: s))) :
    SpellsLine ("if (" ++ c.display ++ ")" ++ " \x7b") (.word "if" :: ts ++ [.mark '\x7b']) := by
  intro us s h
  have h := (hc _ _ (spells_open us s h)).space (c := ' ') rfl
  simpa using word (w := "if") rfl (broken_cons rfl) h

section
variable {indent : String} (hi : ∀ c ∈ indent.toList, isSpace c = true) (depth : Int)
variable {body : List Stmt} (hb : Grammar.Statements ts body)
  (hl : (Stmt.printAll indent (depth + 1) body).Spells ts)
include hi hb hl

theorem spells_repeatTimes {n : Number} (hn : n.Writable) :
    ∃ us, Grammar.Statement us (.repeatTimes (.number n) body) ∧
      ((Stmt.repeatTimes (.number n) body).print indent depth).Spells us := by
  refine ⟨_, .repeatTimes (w := .word "repeat") (l := .mark '(') (n := (Value.number n).token)
    (r := .mark ')') rfl rfl rfl rfl hb.block, ?_⟩
  refine spells_printBlock hi depth [_, _, _, _] ?_ hl
  intro us s h
  have h := mark (c := ')') rfl (spells_open us s h)
  have h := Spelled.token hn.spelt (broken_cons rfl) h
  have h := word (w := "repeat") rfl (broken_cons rfl) (mark (c := '(') rfl h)
  simpa using h

theorem spells_forever : ∃ us, Grammar.Statement us (.forever body) ∧
    ((Stmt.forever body).print indent depth).Spells us := by
  refine ⟨_, .forever (w := .word "loop") rfl hb.block, ?_⟩
  refine spells_printBlock hi depth [_] ?_ hl
  intro us s h
  have h := word (w := "loop") rfl (broken_cons rfl) (spells_open us s h)
  simpa using h

theorem spells_branch {c : Value} (hc : c.WritableCondition) :
    ∃ us, Grammar.Statement us (.branch c body none) ∧
      ((Stmt.branch c body none).print indent depth).Spells us := by
  obtain ⟨cs, text, rfl, hcond, hcs⟩ := hc.spells
  refine ⟨_, .branch (w := .word "if") rfl hcond hb.block, ?_⟩
  exact spells_printBlock hi depth (_ :: cs) (spells_if hcs) hl

theorem spells_branchElse {c : Value} {alternate : List Stmt} (hc : c.WritableCondition)
    (ha : Grammar.Statements vs alternate)
    (hal : (Stmt.printAll indent (depth + 1) alternate).Spells vs) :
    ∃ us, Grammar.Statement us (.branch c body (some alternate)) ∧
      ((Stmt.branch c body (some alternate)).print indent depth).Spells us := by
  obtain ⟨cs, text, rfl, hcond, hcs⟩ := hc.spells
  refine ⟨_, .branchElse (w := .word "if") (e := .word "else") rfl hcond hb.block rfl ha.block, ?_⟩
  have helse : SpellsLine ("\x7d else" ++ " \x7b")
      ([.mark '\x7d', .word "else"] ++ [.mark '\x7b']) := by
    intro us s h
    have h := word (w := "else") rfl (broken_cons rfl) (spells_open us s h)
    simpa using mark (c := '\x7d') rfl (h.space (c := ' ') rfl)
  have hheader : "if (" ++ text ++ ") \x7b" = "if (" ++ text ++ ")" ++ " \x7b" :=
    String.toList_inj.1 (by simp)
  have hif : SpellsLine ("if (" ++ text ++ ") \x7b") _ := hheader ▸ spells_if hcs
  have hif := spells_indentLine hi depth hif
  have h := (hif.append hl).append (spells_printBlock hi depth _ helse hal)
  simpa [Stmt.print, Value.display] using h

end

mutual
theorem Stmt.Writable.spells {s : Stmt} (h : s.Writable) {indent : String}
    (hi : ∀ c ∈ indent.toList, isSpace c = true) (depth : Int) :
    ∃ ts, Grammar.Statement ts s ∧ (s.print indent depth).Spells ts := by
  cases h with
  | event h =>
    obtain ⟨ts, hts, hl⟩ := h.spells
    exact ⟨_, .event (e := .mark ';') hts rfl, spells_indentLine hi depth hl⟩
  | repeatTimes hn hb =>
    obtain ⟨ts, hts, hl⟩ := hb.spells hi (depth + 1)
    exact spells_repeatTimes hi depth hts hl hn
  | forever hb =>
    obtain ⟨ts, hts, hl⟩ := hb.spells hi (depth + 1)
    exact spells_forever hi depth hts hl
  | branch hc hb =>
    obtain ⟨ts, hts, hl⟩ := hb.spells hi (depth + 1)
    exact spells_branch hi depth hts hl hc
  | branchElse hc hb ha =>
    obtain ⟨ts, hts, hl⟩ := hb.spells hi (depth + 1)
    obtain ⟨us, hus, hal⟩ := ha.spells hi (depth + 1)
    exact spells_branchElse hi depth hts hl hc hus hal
  | awaitUntil hc =>
    obtain ⟨ts, hts, hl⟩ := spells_awaitUntil hc
    exact ⟨ts, hts, spells_indentLine hi depth hl⟩
  | call hn hk ha hd =>
    obtain ⟨ts, hts, hl⟩ := spells_call hn hk ha hd
    exact ⟨ts, hts, spells_indentLine hi depth hl⟩
  | empty =>
    refine ⟨_, .empty (e := .mark ';') rfl, spells_indentLine hi depth fun us s h => ?_⟩
    exact mark (c := ';') rfl (.space rfl h)
theorem Stmt.AllWritable.spells {ss : List Stmt} (h : Stmt.AllWritable ss) {indent : String}
    (hi : ∀ c ∈ indent.toList, isSpace c = true) (depth : Int) :
    ∃ ts, Grammar.Statements ts ss ∧ (Stmt.printAll indent depth ss).Spells ts := by
  cases h with
  | nil => exact ⟨[], .nil, .nil⟩
  | cons hs hss he =>
    obtain ⟨ts, hts, hl⟩ := hs.spells hi depth
    obtain ⟨us, hus, hls⟩ := hss.spells hi depth
    exact ⟨_, .cons hts hus fun ho => hus.not_else (he ho), hl.append hls⟩
end

-- ---------------------------------------------------------------------------
-- Whole programs
-- ---------------------------------------------------------------------------

open Lia.Parser

/-- Where the tokens stand makes no difference to the program. -/
theorem outcome_unplaced (σ : State .program) (ts : List Token) (p : Program) :
    outcome σ (ts.map Token.unplaced) = .ok p ↔ outcome σ ts = .ok p := by
  unfold outcome
  rw [run_unplaced]
  exact mapError_eq_ok_iff

/-- A text that spells the tokens of statements is parsed as these statements. -/
theorem parseSource_of_spelled {text : String} {ts : List Token} {body : List Stmt}
    (hs : Spelled ts text.toList) (h : Grammar.Statements ts body) :
    parseSource text = .ok ⟨body⟩ := by
  obtain ⟨us, htokens, hus⟩ := hs.tokenize
  refine parseSource_ok_iff.2 ⟨us, htokens, ?_⟩
  have hp : Grammar.Program (us.map Token.unplaced) ⟨body⟩ := hus ▸ .mk h rfl
  have ht := tokenize_tokenized htokens
  rw [← outcome_ok_iff ht, ← outcome_unplaced, outcome_ok_iff ht.unplaced]
  exact hp

theorem Program.parseSource_format {p : Program} (h : p.Writable) {indent : String}
    (hi : ∀ c ∈ indent.toList, isSpace c = true) :
    ∃ text, p.format indent = .ok text ∧ parseSource text = .ok p := by
  obtain ⟨ts, hts, hl⟩ := Stmt.AllWritable.spells h hi 0
  obtain ⟨text, htext, hspelled⟩ := hl.text
  exact ⟨text, htext, parseSource_of_spelled hspelled hts⟩

/-- A key event, an argument with quotes, a brace in a string, and all kinds of blocks. -/
def greeting : Program where
  body := [
    .event (.key (.text "space bar")),
    .repeatTimes 3 [
      .branch (.text "x >= ( 1") [.call (.text "say") [.text "Hi \x7d\n", .text "it\"s", 2] 1]
        (some [.empty])],
    .forever [.awaitUntil (.text ""), .call (.text "hide") [] .null]]

theorem greeting_format : greeting.Writable ∧ (∀ c ∈ "\t ".toList, isSpace c = true) ∧
    ∃ text, greeting.format "\t " = .ok text ∧ parseSource text = .ok greeting := by
  have hn {n : Nat} (h : n < 10) : Number.Writable (.int n) :=
    .int (Nat.lt_of_lt_of_le h (Nat.le_pow (by decide)))
  have hwords : ∀ w ∈ ["x", ">=", "(", "1"], IsConditionWord w := by
    simp only [List.forall_mem_cons]
    refine ⟨⟨⟨.ident, rfl⟩, ?_, ?_⟩, ⟨⟨.punct, rfl⟩, ?_, ?_⟩, ⟨⟨.punct, rfl⟩, ?_, ?_⟩,
      ⟨⟨.number, rfl⟩, ?_, ?_⟩, nofun⟩ <;> decide
  have hcond : Value.WritableCondition (.text "x >= ( 1") := .mk hwords
  have hargs : ∀ a ∈ ([.text "Hi \x7d\n", .text "it\"s", 2] : List Value), a.WritableArg := by
    simp only [List.forall_mem_cons]
    exact ⟨.text (.inl (by decide)), .text (.inr rfl), .number (hn (by decide)), nofun⟩
  have hcall : Stmt.Writable (.call (.text "say") [.text "Hi \x7d\n", .text "it\"s", 2] 1) :=
    .call rfl (by decide) hargs (.number (hn (by decide)))
  have hnone : ∀ w ∈ ([] : List String), IsConditionWord w := nofun
  have hempty : Value.WritableCondition (.text "") := .mk hnone
  have h : greeting.Writable := by
    refine .cons (.event (.key (.inl (by decide)))) ?_ nofun
    refine .cons (.repeatTimes (hn (by decide)) (.cons (.branchElse hcond ?_ ?_) .nil nofun)) ?_ nofun
    · exact .cons hcall .nil nofun
    · exact .cons .empty .nil nofun
    refine .cons (.forever (.cons (.awaitUntil hempty) (.cons ?_ .nil nofun) nofun)) .nil nofun
    exact .call rfl (by decide) nofun .null
  have hi : ∀ c ∈ "\t ".toList, isSpace c = true := List.all_eq_true.1 rfl
  exact ⟨h, hi, Program.parseSource_format h hi⟩

end Lia
