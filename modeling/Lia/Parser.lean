import Lia.Parser.State
import Lia.Token.Scan
import Lia.Text.Lines

/-!
# The parser

`Cursor.read` runs the reader from a cursor until a goal is reached or a token is
refused; either way the cursor ends where the reading stopped, on the refused
token if there is one. `parse` and `parseSource` read whole programs.
-/

namespace Lia

open Lia.Parser

-- ---------------------------------------------------------------------------
-- Errors
-- ---------------------------------------------------------------------------

/-- A token that cannot stand where it stands. -/
structure ParseError where
  expected : String
  token : Token
  index : Nat
  /-- Line and column, if the source and the position of the token are known. -/
  location : Option (Nat × Nat)

def ParseError.message (e : ParseError) : String :=
  let place := match e.location with
    | some (line, column) => s!"line {line}, column {column}"
    | none => s!"token {e.index}"
  place ++ ": expected " ++ e.expected ++ ", got " ++ e.token.describe

inductive ParseFailure
  | unexpected (e : ParseError)
  /-- A token was due behind the last one. No list that ends in an end of source
  gets there. -/
  | outOfTokens

-- ---------------------------------------------------------------------------
-- Running the reader
-- ---------------------------------------------------------------------------

namespace Parser

/-- Why a run stopped short of its goal. -/
inductive Stop
  | refused (expected : String) (token : Token)
  | outOfTokens

structure Outcome (g : Goal) where
  taken : Nat
  notes : List Note
  result : Except Stop g.Result

/-- Takes tokens until the goal is reached or one is refused. -/
def run {g : Goal} (σ : State g) : List Token → Outcome g
  | [] => ⟨0, [], .error .outOfTokens⟩
  | t :: ts =>
    match σ.step t with
    | .next σ note =>
      let o := run σ ts
      ⟨o.taken + 1, note.toList ++ o.notes, o.result⟩
    | .done r => ⟨1, [], .ok r⟩
    | .before r note => ⟨0, note.toList, .ok r⟩
    | .refuse expected note => ⟨0, note.toList, .error (.refused expected t)⟩

end Parser

-- ---------------------------------------------------------------------------
-- Cursors
-- ---------------------------------------------------------------------------

/-- A place in a list of tokens. -/
structure Cursor where
  /-- The tokens from the cursor on. -/
  rest : List Token
  /-- The tokens before it. -/
  index : Nat

/-- What an action at a cursor gives, and where it leaves the cursor. -/
structure Reading (α : Type) where
  cursor : Cursor
  notes : List Note
  result : Except ParseFailure α

def locate (source : Option String) (t : Token) : Option (Nat × Nat) := do
  let source ← source
  let pos ← t.pos
  return (Text.lineAt source pos, Text.columnAt source pos)

namespace Cursor

def ofTokens (tokens : List Token) : Cursor := ⟨tokens, 0⟩

def advance (c : Cursor) (n : Nat) : Cursor := ⟨c.rest.drop n, c.index + n⟩

private def fail (c : Cursor) (source : Option String) (expected : String) (t : Token) :
    ParseFailure :=
  .unexpected ⟨expected, t, c.index, locate source t⟩

/-- Reads a goal. The source serves to locate an error. -/
def read {g : Goal} (c : Cursor) (source : Option String) (σ : State g) : Reading g.Result :=
  let o := run σ c.rest
  let stop := c.advance o.taken
  ⟨stop, o.notes, match o.result with
    | .ok r => .ok r
    | .error (.refused expected t) => .error (stop.fail source expected t)
    | .error .outOfTokens => .error .outOfTokens⟩

theorem read_result {g : Goal} (c : Cursor) (source : Option String) (σ : State g) :
    (c.read source σ).result = match (run σ c.rest).result with
      | .ok r => .ok r
      | .error (.refused expected t) =>
        .error (.unexpected ⟨expected, t, c.index + (run σ c.rest).taken, locate source t⟩)
      | .error .outOfTokens => .error .outOfTokens := rfl

-- ---------------------------------------------------------------------------
-- Single tokens
-- ---------------------------------------------------------------------------

private def stay (c : Cursor) (f : Token → Except ParseFailure α) : Reading α :=
  match c.rest with
  | [] => ⟨c, [], .error .outOfTokens⟩
  | t :: _ => ⟨c, [], f t⟩

def peek (c : Cursor) : Reading Token := c.stay .ok

/-- Takes a token. The end of the source is never passed. -/
def next (c : Cursor) : Reading Token :=
  match c.rest with
  | [] => ⟨c, [], .error .outOfTokens⟩
  | t :: _ => ⟨if t.isEof then c else c.advance 1, [], .ok t⟩

def atPunct (c : Cursor) (s : String) : Reading Bool := c.stay fun t => .ok (t.isPunct s)

def refuse (c : Cursor) (source : Option String) (expected : String) : Reading α :=
  c.stay fun t => .error (c.fail source expected t)

private def nextIf (c : Cursor) (source : Option String) (accepts : Token → Bool)
    (expected : String) : Reading Token :=
  match c.rest with
  | [] => ⟨c, [], .error .outOfTokens⟩
  | t :: _ => if accepts t then c.next else c.refuse source expected

/-- Takes a token of a kind, and of a value if one is given. Without a text of its
own the error names the value, or else the kind. -/
def expect (c : Cursor) (source : Option String) (kind : TokenKind) (value : Value := .null)
    (expected : String := "") : Reading Token :=
  let accepts := fun t : Token => t.kind = kind && (value.isNull || t.value.same value)
  let wanted := if value.isNull then Text.quoted kind.name else value.literal
  c.nextIf source accepts (if expected = "" then wanted else expected)

def expectPunct (c : Cursor) (source : Option String) (s : String) : Reading Token :=
  c.expect source .punct (.text s)

/-- Takes a number and gives its value. -/
def expectNumber (c : Cursor) (source : Option String) (context : String) : Reading Value :=
  let r := c.nextIf source (fun t => t.kind = .number) ("number in " ++ context)
  ⟨r.cursor, r.notes, r.result.map Token.value⟩

end Cursor

-- ---------------------------------------------------------------------------
-- Programs
-- ---------------------------------------------------------------------------

def parse (tokens : List Token) (source : Option String := none) : Reading Program :=
  (Cursor.ofTokens tokens).read source State.program

inductive SourceError
  | lexical (e : LexError)
  | grammatical (e : ParseFailure)

/-- Reads a source text; the notes are those of both stages. -/
def readSource (source : String) : List Note × Except SourceError Program :=
  match tokenize source with
  | .error e => ([], .error (.lexical e))
  | .ok tokens =>
    let r := parse tokens (some source)
    (tokenizedNote source tokens :: r.notes, r.result.mapError .grammatical)

def parseSource (source : String) : Except SourceError Program := (readSource source).2

end Lia
