import Lia.Stmt

/-!
# Summaries of statements

One line that shows a statement with all its properties, for messages and logs.
-/

namespace Lia

private def construct (name : String) (properties : List (String × String)) : String :=
  "<" ++ name ++ " " ++
    " ".intercalate (properties.map fun p => p.1 ++ "=" ++ p.2) ++ ">"

def Trigger.summary (t : Trigger) : String :=
  construct "LIAEvent" (("kind", t.kind.literal) ::
    match t with
    | .key name => [("key", name.literal)]
    | .backdrop name => [("name", name.literal)]
    | _ => [])

private def bracket (items : List String) : String := "[" ++ ", ".intercalate items ++ "]"

mutual
def Stmt.summary : Stmt → String
  | .event t => t.summary
  | .repeatTimes count body =>
    construct "LIARepeat" [("count", count.literal), ("body", bracket (Stmt.summaries body))]
  | .forever body => construct "LIALoop" [("body", bracket (Stmt.summaries body))]
  | .branch condition consequent none =>
    construct "LIAIf" [("condition", condition.literal), ("consequent", bracket (Stmt.summaries consequent)),
      ("alternate", "None")]
  | .branch condition consequent (some alternate) =>
    construct "LIAIf" [("condition", condition.literal), ("consequent", bracket (Stmt.summaries consequent)),
      ("alternate", bracket (Stmt.summaries alternate))]
  | .awaitUntil condition => construct "LIAAwaitUntil" [("condition", condition.literal)]
  | .call name args duration =>
    construct "LIACall" [("name", name.literal), ("args", bracket (args.map Value.literal)),
      ("forCount", duration.literal)]
  | .empty => construct "LIAEmpty" []
  | .program body => construct "LIAProgram" [("body", bracket (Stmt.summaries body))]
termination_by structural s => s
def Stmt.summaries : List Stmt → List String
  | [] => []
  | s :: ss => s.summary :: Stmt.summaries ss
termination_by structural ss => ss
end

def Program.summary (p : Program) : String := p.toStmt.summary

end Lia
