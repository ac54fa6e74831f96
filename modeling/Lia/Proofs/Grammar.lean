import Lia.Parser

/-!
# The grammar

Which lists of tokens are programs, and of which tree. `Grammar.Program` and the
relations below it name the tokens of each construct; they do not say how to read
them. `Statement`, `Statements` and `Block` depend on one another.
-/

namespace Lia

/-- An `if` that an `else` could continue. -/
def Stmt.isOpen : Stmt → Bool
  | .branch _ _ none => true
  | _ => false

namespace Grammar

/-- The words that begin a construct of their own, and no call. -/
def constructWords : List String := ["on", "repeat", "loop", "if", "await"]

/-- A single argument of a call. -/
def IsAtom (t : Token) : Prop := t.kind = .number ∨ t.kind = .string ∨ t.kind = .ident

/-- The name of a key or of a backdrop. -/
def IsName (t : Token) : Prop := t.kind = .ident ∨ t.kind = .string

/-- A bare word of a call, before its argument list. -/
def IsBareWord (t : Token) : Prop := t.isIdent = true ∧ t.isWord "for" = false

-- ---------------------------------------------------------------------------
-- Parts of statements
-- ---------------------------------------------------------------------------

/-- An event without the mark that ends it. -/
inductive Event : List Token → Trigger → Prop
  | start (ho : o.isWord "on") (hk : k.isWord "start") : Event [o, k] .start
  | click (ho : o.isWord "on") (hk : k.isWord "click") : Event [o, k] .click
  | key (ho : o.isWord "on") (hk : k.isWord "key") (hl : l.isPunct "(") (hn : IsName n)
      (hr : r.isPunct ")") : Event [o, k, l, n, r] (.key n.value)
  | backdrop (ho : o.isWord "on") (hk : k.isWord "backdrop") (hl : l.isPunct "(") (hn : IsName n)
      (hr : r.isPunct ")") : Event [o, k, l, n, r] (.backdrop n.value)

/-- Anything but a closing parenthesis, in parentheses. Its value is the spellings. -/
inductive Condition : List Token → String → Prop
  | mk (hl : l.isPunct "(") (hts : ∀ t ∈ ts, t.isPunct ")" = false ∧ t.isEof = false)
      (hr : r.isPunct ")") : Condition (l :: ts ++ [r]) (" ".intercalate (ts.map Token.text))

/-- Atoms, each with a comma behind it or without. -/
inductive Arguments : List Token → List Value → Prop
  | nil : Arguments [] []
  | atom (ha : IsAtom t) (h : Arguments ts vs) : Arguments (t :: ts) (t.value :: vs)
  | comma (ha : IsAtom t) (hc : c.isPunct ",") (h : Arguments ts vs) :
      Arguments (t :: c :: ts) (t.value :: vs)

/-- Arguments in parentheses, or nothing. -/
inductive ArgumentList : List Token → List Value → Prop
  | absent : ArgumentList [] []
  | present (hl : l.isPunct "(") (h : Arguments ts vs) (hr : r.isPunct ")") :
      ArgumentList (l :: ts ++ [r]) vs

/-- A number behind a final `for`, or nothing. -/
inductive Duration : List Token → Value → Prop
  | absent : Duration [] .null
  | present (hf : f.isWord "for") (hl : l.isPunct "(") (hn : n.kind = .number)
      (hr : r.isPunct ")") : Duration [f, l, n, r] n.value

-- ---------------------------------------------------------------------------
-- Statements
-- ---------------------------------------------------------------------------

mutual
inductive Statement : List Token → Stmt → Prop
  | empty (he : e.isPunct ";") : Statement [e] .empty
  | event (h : Event ts trigger) (he : e.isPunct ";") : Statement (ts ++ [e]) (.event trigger)
  | repeatTimes (hw : w.isWord "repeat") (hl : l.isPunct "(") (hn : n.kind = .number)
      (hr : r.isPunct ")") (hb : Block ts body) :
      Statement (w :: l :: n :: r :: ts) (.repeatTimes n.value body)
  | forever (hw : w.isWord "loop") (hb : Block ts body) : Statement (w :: ts) (.forever body)
  | branch (hw : w.isWord "if") (hc : Condition cs c) (hb : Block ts body) :
      Statement (w :: cs ++ ts) (.branch (.text c) body none)
  | branchElse (hw : w.isWord "if") (hc : Condition cs c) (hb : Block ts body)
      (he : e.isWord "else") (ha : Block us alternate) :
      Statement (w :: cs ++ ts ++ e :: us) (.branch (.text c) body (some alternate))
  | awaitUntil (hw : w.isWord "await") (hu : u.isWord "until") (hc : Condition cs c)
      (he : e.isPunct ";") : Statement (w :: u :: cs ++ [e]) (.awaitUntil (.text c))
  | call (hn : n.isIdent) (hk : ∀ w ∈ constructWords, n.isWord w = false)
      (hw : ∀ t ∈ ws, IsBareWord t) (ha : ArgumentList as vs) (hd : Duration ds d)
      (he : e.isPunct ";") :
      Statement (n :: ws ++ as ++ ds ++ [e]) (.call n.value (ws.map Token.value ++ vs) d)
/-- An `else` never stands behind an `if` that has none: it would be its own. -/
inductive Statements : List Token → List Stmt → Prop
  | nil : Statements [] []
  | cons (h : Statement ts s) (hs : Statements us ss)
      (hn : s.isOpen → ∀ t ∈ us.head?, t.isWord "else" = false) :
      Statements (ts ++ us) (s :: ss)
inductive Block : List Token → List Stmt → Prop
  | mk (hl : l.isPunct "\x7b") (h : Statements ts ss) (hr : r.isPunct "\x7d") :
      Block (l :: ts ++ [r]) ss
end

/-- Statements up to the end of the source. -/
inductive Program : List Token → Lia.Program → Prop
  | mk (h : Statements ts body) (he : e.isEof) : Program (ts ++ [e]) ⟨body⟩

end Grammar

end Lia
