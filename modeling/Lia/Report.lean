import Lia.Parser
import Lia.Text.Blank

/-!
# Error reports

What the command line prints about a source that is no program: the place and the
message, and the source line below.
-/

namespace Lia

/-- The line of an error with its text, if the place is known. -/
def SourceError.line? (source : String) : SourceError → Option (Nat × String)
  | .lexical (.unexpected offset _) =>
    let line := Text.lineAt source offset
    some (line, Text.lineText source line)
  | .grammatical (.unexpected e) => e.location.map fun l => (l.1, Text.lineText source l.1)
  | _ => none

def SourceError.message : SourceError → String
  | .lexical e => e.message
  | .grammatical (.unexpected e) => e.message
  | .grammatical .outOfTokens => "list index out of range"

def report (fileName source : String) (e : SourceError) : String :=
  let (number, text) := match e.line? source with
    | some (line, text) => (toString line, text)
    | none => ("?", "")
  fileName ++ ":" ++ number ++ ": error: " ++ e.message ++ "\n" ++
    "    " ++ Text.strip text ++ "\n"

end Lia
