import Lia.Value

/-!
# Notes

What the stages have to say about a program without refusing it. A note names
what was found; its channel and message are the text of a verbose run.
-/

namespace Lia

inductive Note
  | tokenized (characters tokens : Nat)
  | unknownVerb (name : Value)
  | parsed (statements : Nat)
  | keySkipped (key : Value)
  | alternateSkipped (condition : Value)
  | unhandledCall (name : Value)
  | unknownDirection (direction : Value)
  | compiled (blocks scripts : Nat)

namespace Note

def channel : Note → String
  | .tokenized .. => "liac.lexer"
  | .unknownVerb .. | .parsed .. => "liac.parser"
  | _ => "liac.compiler"

def message : Note → String
  | .tokenized characters tokens =>
    s!"tokenized {characters} characters into {tokens} tokens"
  | .unknownVerb name => "\"" ++ name.display ++
    "\" is not a known verb, parsing it as a generic call"
  | .parsed statements => s!"parsed {statements} top-level statements"
  | .keySkipped key => "no block for \"on key(" ++ key.display ++ ")\", skipping it"
  | .alternateSkipped condition =>
    "else branch of if (" ++ condition.display ++ ") is not compiled"
  | .unhandledCall name =>
    "unhandled call \"" ++ name.display ++ "\", emitting procedures_call"
  | .unknownDirection direction =>
    "unknown turn direction " ++ direction.literal ++ ", skipping it"
  | .compiled blocks scripts => s!"compiled {blocks} blocks in {scripts} scripts"

/-- The line of a verbose run; a text in it may break it into more lines. -/
def line (n : Note) : String := n.channel ++ ": " ++ n.message

end Note

end Lia
