import Lia.Stmt
import Lia.Token
import Lia.Note

/-!
# Reading statements one token at a time

A state of the reader is what has been read and is not finished: the construct at
hand, the statements before it in the same list, and the lists around that one.
`State.step` looks at one token and takes it, stops before it, or refuses it, so
what is refused depends on the tokens up to that one only.
-/

namespace Lia.Parser

/-- What is to be read. -/
inductive Goal
  | program
  | statement
  /-- A list of statements up to its closing brace. -/
  | block
  | condition
  deriving DecidableEq

abbrev Goal.Result : Goal → Type
  | .program => Program
  | .statement => Stmt
  | .block => List Stmt
  | .condition => String

/-- The constructs that begin with a word of their own. -/
inductive Keyword
  | event
  | repeatTimes
  | forever
  | branch
  | awaitUntil
  deriving DecidableEq

namespace Keyword

def word : Keyword → String
  | .event => "on"
  | .repeatTimes => "repeat"
  | .forever => "loop"
  | .branch => "if"
  | .awaitUntil => "await"

/-- The keyword a statement begins with. A list or a record is none: it cannot be looked up
as a name, and no token of a source is one. -/
def ofValue? : Value → Option Keyword
  | .text "on" => some .event
  | .text "repeat" => some .repeatTimes
  | .text "loop" => some .forever
  | .text "if" => some .branch
  | .text "await" => some .awaitUntil
  | _ => none

end Keyword

inductive Argued
  | key
  | backdrop
  deriving DecidableEq

namespace Argued

def word : Argued → String
  | .key => "key"
  | .backdrop => "backdrop"

def what : Argued → String
  | .key => "key name"
  | .backdrop => "backdrop name"

def trigger (name : Value) : Argued → Trigger
  | .key => .key name
  | .backdrop => .backdrop name

end Argued

/-- What the braces around a list of statements belong to. -/
inductive Opener
  | repeatTimes (count : Value)
  | forever
  | consequent (condition : String)
  | alternate (condition : String) (consequent : List Stmt)

inductive ConditionUse
  | branch
  | awaitUntil

/-- A call as far as its arguments have been read. -/
structure CallHead where
  name : Value
  args : List Value

def CallHead.add (c : CallHead) (arg : Value) : CallHead := { c with args := c.args ++ [arg] }

/-- Where in a construct the next token stands. -/
inductive Phase
  /-- A statement or the end of the list. -/
  | statement
  | keyword (k : Keyword)
  | eventKind
  | eventOpen (a : Argued)
  | eventName (a : Argued)
  | eventClose (t : Trigger)
  | eventEnd (t : Trigger)
  | repeatOpen
  | repeatCount
  | repeatClose (count : Value)
  /-- The brace that opens a list; none if the list itself is the goal. -/
  | brace (opener : Option Opener)
  | conditionOpen (use : ConditionUse)
  | condition (use : ConditionUse) (words : List String)
  /-- An `if` that ends here unless an `else` follows. -/
  | afterConsequent (condition : String) (consequent : List Stmt)
  | untilWord
  | awaitEnd (condition : String)
  | callName
  /-- Bare words before the argument list. -/
  | callWords (c : CallHead)
  | callArgs (c : CallHead)
  /-- Behind an argument, where one comma may stand. -/
  | callComma (c : CallHead)
  | callFor (c : CallHead)
  | forOpen (c : CallHead)
  | forCount (c : CallHead)
  | forClose (c : CallHead) (duration : Value)
  | callEnd (c : CallHead) (duration : Value)

structure State (g : Goal) where
  phase : Phase
  /-- The statements before the construct at hand, in its list. -/
  body : List Stmt
  /-- The lists around, innermost first: what opened the list inside, and the
  statements before that. -/
  outer : List (Opener × List Stmt)

/-- What a state makes of a token. -/
inductive Step (g : Goal)
  /-- The token is taken and the reading goes on. -/
  | next (s : State g) (note : Option Note := none)
  /-- The token is taken and the goal is reached. -/
  | done (r : g.Result)
  /-- The goal was reached before the token. -/
  | before (r : g.Result) (note : Option Note := none)
  /-- The token cannot stand here; something else was expected. -/
  | refuse (expected : String) (note : Option Note := none)

namespace State

variable {g : Goal}

-- ---------------------------------------------------------------------------
-- Where a reading begins
-- ---------------------------------------------------------------------------

def start (g : Goal) (phase : Phase) : State g := ⟨phase, [], []⟩

def program : State .program := start _ .statement

def statement : State .statement := start _ .statement

def keyword (k : Keyword) : State .statement := start _ (.keyword k)

/-- A call whose name may be any token. -/
def call : State .statement := start _ .callName

/-- Statements up to and including a closing brace. -/
def block : State .block := start _ .statement

def bracedBlock : State .block := start _ (.brace none)

def condition : State .condition := start _ (.conditionOpen .branch)

-- ---------------------------------------------------------------------------
-- The end of a statement
-- ---------------------------------------------------------------------------

def goto (σ : State g) (phase : Phase) : State g := { σ with phase }

def push (σ : State g) (s : Stmt) : State g := { σ with phase := .statement, body := σ.body ++ [s] }

/-- The single statement that was wanted, if that is the goal. -/
def asGoal? : (g : Goal) → State g → Stmt → Option g.Result
  | .statement, ⟨_, _, []⟩, s => some s
  | _, _, _ => none

/-- The token just taken ends a statement. -/
def finish (σ : State g) (s : Stmt) : Step g :=
  match σ.asGoal? g s with
  | some r => .done r
  | none => .next (σ.push s)

/-- A closing brace behind the statements of an inner list. The state is the one
before the list was opened. -/
def close (σ : State g) (opener : Opener) (inner : List Stmt) : Step g :=
  match opener with
  | .repeatTimes count => σ.finish (.repeatTimes count inner)
  | .forever => σ.finish (.forever inner)
  | .consequent c => .next (σ.goto (.afterConsequent c inner))
  | .alternate c consequent => σ.finish (.branch (.text c) consequent (some inner))

-- ---------------------------------------------------------------------------
-- One token
-- ---------------------------------------------------------------------------

def afterKeyword : Keyword → Phase
  | .event => .eventKind
  | .repeatTimes => .repeatOpen
  | .forever => .brace (some .forever)
  | .branch => .conditionOpen .branch
  | .awaitUntil => .untilWord

/-- A note on a call whose name is no verb of the language. A list or a record is no verb
either; as in `Keyword.ofValue?`, no source has one for a name. -/
def verbNote? (name : Value) : Option Note :=
  match name with
  | .text s => if s ∈ knownVerbs then none else some (.unknownVerb name)
  | _ => some (.unknownVerb name)

def mark (t : Token) (s : String) (taken : Step g) : Step g :=
  if t.isPunct s then taken else .refuse (Text.quoted s)

def begin (σ : State g) (t : Token) : Step g :=
  if t.isIdent then
    match Keyword.ofValue? t.value with
    | some k => .next (σ.goto (afterKeyword k))
    | none => .next (σ.goto (.callWords ⟨t.value, []⟩)) (verbNote? t.value)
  else if t.isPunct ";" then σ.finish .empty
  else .refuse "statement"

/-- A statement is due, or the closing brace of the list. -/
def beginOr (σ : State g) (t : Token) (closed : Step g) : Step g :=
  if t.isPunct "\x7d" then closed
  else if t.isEof then .refuse "'\x7d' (unclosed block)"
  else σ.begin t

/-- A statement is due, or the end of the list, whatever ends it. -/
def atStatement (σ : State g) (t : Token) : Step g :=
  match σ.outer with
  | (opener, before) :: outer =>
    σ.beginOr t (close ⟨.statement, before, outer⟩ opener σ.body)
  | [] =>
    match g with
    | .program =>
      if t.isEof then .before ⟨σ.body⟩ (some (.parsed σ.body.length)) else σ.begin t
    | .block => σ.beginOr t (.done σ.body)
    | _ => σ.begin t

def atEventKind (σ : State g) (t : Token) : Step g :=
  match t.isIdent, t.value with
  | true, .text "start" => .next (σ.goto (.eventEnd .start))
  | true, .text "click" => .next (σ.goto (.eventEnd .click))
  | true, .text "key" => .next (σ.goto (.eventOpen .key))
  | true, .text "backdrop" => .next (σ.goto (.eventOpen .backdrop))
  | _, _ => .refuse "event kind (start, key, click or backdrop)"

def endCondition (σ : State g) (use : ConditionUse) (text : String) : Step g :=
  match g with
  | .condition => .done text
  | _ =>
    match use with
    | .branch => .next (σ.goto (.brace (some (.consequent text))))
    | .awaitUntil => .next (σ.goto (.awaitEnd text))

/-- A word of a condition is due, or its end. -/
def atCondition (σ : State g) (use : ConditionUse) (words : List String) (t : Token) : Step g :=
  if t.isPunct ")" then σ.endCondition use (" ".intercalate words)
  else if t.isEof then .refuse "')' to close condition"
  else .next (σ.goto (.condition use (words ++ [t.text])))

/-- An `else` is due, or whatever follows the statement that ends without it. -/
def atElse (σ : State g) (condition : String) (consequent : List Stmt) (t : Token) : Step g :=
  if t.isWord "else" then .next (σ.goto (.brace (some (.alternate condition consequent))))
  else
    let s := Stmt.branch (.text condition) consequent none
    match σ.asGoal? g s with
    | some r => .before r
    | none => (σ.push s).atStatement t

def atCallEnd (σ : State g) (c : CallHead) (duration : Value) (t : Token) : Step g :=
  if t.isPunct ";" then σ.finish (.call c.name c.args duration)
  else .refuse ("';' after statement " ++ c.name.display)

/-- The duration of a call is due, or its end. -/
def atFor (σ : State g) (c : CallHead) (t : Token) : Step g :=
  if t.isWord "for" then .next (σ.goto (.forOpen c)) else σ.atCallEnd c .null t

/-- An argument is due, or the end of the arguments. -/
def atArg (σ : State g) (c : CallHead) (t : Token) : Step g :=
  if t.isPunct ")" then .next (σ.goto (.callFor c))
  else if t.kind = .number || t.kind = .string || t.kind = .ident then
    .next (σ.goto (.callComma (c.add t.value)))
  else .refuse ("argument to " ++ c.name.display)

def step (σ : State g) (t : Token) : Step g :=
  match σ.phase with
  | .statement => σ.atStatement t
  | .keyword k =>
    if t.isWord k.word then .next (σ.goto (afterKeyword k)) else .refuse (Text.quoted k.word)
  | .eventKind => σ.atEventKind t
  | .eventOpen a => mark t "(" (.next (σ.goto (.eventName a)))
  | .eventName a =>
    if t.kind = .ident || t.kind = .string then .next (σ.goto (.eventClose (a.trigger t.value)))
    else .refuse a.what
  | .eventClose trigger => mark t ")" (.next (σ.goto (.eventEnd trigger)))
  | .eventEnd trigger => mark t ";" (σ.finish (.event trigger))
  | .repeatOpen => mark t "(" (.next (σ.goto .repeatCount))
  | .repeatCount =>
    if t.kind = .number then .next (σ.goto (.repeatClose t.value))
    else .refuse "number in repeat"
  | .repeatClose count => mark t ")" (.next (σ.goto (.brace (some (.repeatTimes count)))))
  | .brace (some opener) => mark t "\x7b" (.next ⟨.statement, [], (opener, σ.body) :: σ.outer⟩)
  | .brace none => mark t "\x7b" (.next (σ.goto .statement))
  | .conditionOpen use => mark t "(" (.next (σ.goto (.condition use [])))
  | .condition use words => σ.atCondition use words t
  | .afterConsequent condition consequent => σ.atElse condition consequent t
  | .untilWord =>
    if t.isWord "until" then .next (σ.goto (.conditionOpen .awaitUntil))
    else .refuse "'until' (unknown await form)"
  | .awaitEnd condition => mark t ";" (σ.finish (.awaitUntil (.text condition)))
  | .callName =>
    let c : CallHead := ⟨t.value, []⟩
    if t.isEof then .refuse ("';' after statement " ++ c.name.display) (verbNote? t.value)
    else .next (σ.goto (.callWords c)) (verbNote? t.value)
  | .callWords c =>
    if t.isIdent && !t.isWord "for" then .next (σ.goto (.callWords (c.add t.value)))
    else if t.isPunct "(" then .next (σ.goto (.callArgs c))
    else σ.atFor c t
  | .callArgs c => σ.atArg c t
  | .callComma c => if t.isPunct "," then .next (σ.goto (.callArgs c)) else σ.atArg c t
  | .callFor c => σ.atFor c t
  | .forOpen c => mark t "(" (.next (σ.goto (.forCount c)))
  | .forCount c =>
    if t.kind = .number then .next (σ.goto (.forClose c t.value)) else .refuse "number in for"
  | .forClose c duration => mark t ")" (.next (σ.goto (.callEnd c duration)))
  | .callEnd c duration => σ.atCallEnd c duration t

end State

end Lia.Parser
