import Lia.Stmt

/-!
# Programs as source text

`Program.format` prints a program as text that reads back as it. A program in
place of a statement has no spelling, and neither has a call whose name is no text.
Printing stops there; the lines before it have been printed.
-/

namespace Lia

/-- The spelling of a value. Strings cannot hold quotes, so a text with one can only
have been a bare name. -/
def Value.spelling : Value → String
  | .text s => if '"' ∈ s.toList then s else "\"" ++ s ++ "\""
  | .number n => n.plain
  | v => v.display

inductive PrintError
  /-- A program stands in place of a statement. -/
  | nestedProgram
  /-- The name of a call is nothing that a text can be added to. -/
  | unnamedCall (name : Value)

def PrintError.message : PrintError → String
  | .nestedProgram => "Cannot format LIAProgram"
  | .unnamedCall name => "Cannot format a call of " ++ name.literal

-- ---------------------------------------------------------------------------
-- Lines
-- ---------------------------------------------------------------------------

/-- Lines as far as they were printed. -/
structure Listing where
  lines : List String
  error : Option PrintError := none

namespace Listing

def one (line : String) : Listing := ⟨[line], none⟩

/-- What follows an error is not printed. -/
def append (a b : Listing) : Listing :=
  match a.error with
  | none => ⟨a.lines ++ b.lines, b.error⟩
  | some _ => a

instance : Append Listing := ⟨append⟩

def text (l : Listing) : Except PrintError String :=
  match l.error with
  | none => .ok ("\n".intercalate l.lines ++ "\n")
  | some e => .error e

end Listing

/-- A line at a depth of nesting; below zero there is no indent either. -/
def indentLine (indent : String) (depth : Int) (line : String) : String :=
  String.join (List.replicate depth.toNat indent) ++ line

-- ---------------------------------------------------------------------------
-- Statements
-- ---------------------------------------------------------------------------

def Trigger.spelling : Trigger → String
  | .start => "on start;"
  | .click => "on click;"
  | .key name => "on key(" ++ name.spelling ++ ");"
  | .backdrop name => "on backdrop(" ++ name.spelling ++ ");"
  | .unknown kind _ => "on " ++ kind.display ++ ";"

/-- All arguments stand in parentheses, which are left out if there is none. -/
def callSpelling (name : String) (args : List Value) (duration : Value) : String :=
  name ++
    (if args.isEmpty then "" else "(" ++ ", ".intercalate (args.map Value.spelling) ++ ")") ++
    (if duration.isNull then "" else " for(" ++ duration.spelling ++ ")") ++ ";"

section
variable (indent : String)

/-- Lines between a header and its closing brace. -/
def printBlock (depth : Int) (header : String) (body : Listing) : Listing :=
  .one (indentLine indent depth (header ++ " \x7b")) ++ body ++ .one (indentLine indent depth "\x7d")

mutual
def Stmt.print (depth : Int) : Stmt → Listing
  | .event t => .one (indentLine indent depth t.spelling)
  | .repeatTimes count body =>
    printBlock indent depth ("repeat(" ++ count.spelling ++ ")") (Stmt.printAll (depth + 1) body)
  | .forever body => printBlock indent depth "loop" (Stmt.printAll (depth + 1) body)
  | .branch condition consequent none =>
    printBlock indent depth ("if (" ++ condition.display ++ ")")
      (Stmt.printAll (depth + 1) consequent)
  | .branch condition consequent (some alternate) =>
    .one (indentLine indent depth ("if (" ++ condition.display ++ ") \x7b")) ++
      Stmt.printAll (depth + 1) consequent ++
      printBlock indent depth "\x7d else" (Stmt.printAll (depth + 1) alternate)
  | .awaitUntil condition =>
    .one (indentLine indent depth ("await until (" ++ condition.display ++ ");"))
  | .call (.text name) args duration =>
    .one (indentLine indent depth (callSpelling name args duration))
  | .call name _ _ => ⟨[], some (.unnamedCall name)⟩
  | .empty => .one (indentLine indent depth ";")
  | .program _ => ⟨[], some .nestedProgram⟩
termination_by structural s => s
def Stmt.printAll (depth : Int) : List Stmt → Listing
  | [] => ⟨[], none⟩
  | s :: ss => s.print depth ++ Stmt.printAll depth ss
termination_by structural ss => ss
end

end

def defaultIndent : String := "  "

/-- Every line ends in a newline; an empty program is one empty line. -/
def Program.format (p : Program) (indent : String := defaultIndent) : Except PrintError String :=
  (Stmt.printAll indent 0 p.body).text

end Lia
