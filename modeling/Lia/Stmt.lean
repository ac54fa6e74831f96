import Lia.Value

/-!
# Programs

A program is a list of statements. Numbers, names and conditions are plain values:
a record may hold any value in their place. A condition that was read from a
source is the spelling of its tokens, never an expression.
-/

namespace Lia

def isEventKind : Value → Bool
  | .text s => s = "start" || s = "key" || s = "click" || s = "backdrop"
  | _ => false

/-- What starts a script. Only a record has an event of an unknown kind. -/
inductive Trigger
  | start
  | click
  | key (name : Value)
  | backdrop (name : Value)
  | unknown (kind : Value) (isUnknown : isEventKind kind = false)

/-- Words with a meaning of their own at the start of a call. Any other name makes
a call as well. -/
def knownVerbs : List String := [
  "say", "think", "show", "hide", "move", "turn", "costume", "backdrop", "ease",
  "point", "change", "set", "sound", "wait", "clone", "delete", "send"]

inductive Stmt
  | event (trigger : Trigger)
  | repeatTimes (count : Value) (body : List Stmt)
  | forever (body : List Stmt)
  /-- Without an alternate there is no else branch, not an empty one. -/
  | branch (condition : Value) (consequent : List Stmt) (alternate : Option (List Stmt))
  | awaitUntil (condition : Value)
  /-- The duration is what stands in a final `for`, null if there is none. -/
  | call (name : Value) (args : List Value) (duration : Value)
  | empty
  /-- A whole program in place of a statement. Only a record has one. -/
  | program (body : List Stmt)
  deriving Inhabited

structure Program where
  body : List Stmt
  deriving Inhabited

def Program.toStmt (p : Program) : Stmt := .program p.body

namespace Trigger

def kind : Trigger → Value
  | .start => "start"
  | .click => "click"
  | .key _ => "key"
  | .backdrop _ => "backdrop"
  | .unknown kind _ => kind

def same : Trigger → Trigger → Bool
  | .start, .start | .click, .click => true
  | .key a, .key b | .backdrop a, .backdrop b => a.same b
  | .unknown a _, .unknown b _ => a.same b
  | _, _ => false

instance : BEq Trigger := ⟨same⟩

end Trigger

-- ---------------------------------------------------------------------------
-- Equality
-- ---------------------------------------------------------------------------

mutual
/-- Equal but for the kind of numbers. -/
def Stmt.same : Stmt → Stmt → Bool
  | .event a, .event b => a.same b
  | .repeatTimes n as, .repeatTimes m bs => n.same m && Stmt.sameAll as bs
  | .forever as, .forever bs => Stmt.sameAll as bs
  | .branch c as none, .branch d bs none => c.same d && Stmt.sameAll as bs
  | .branch c as (some as'), .branch d bs (some bs') =>
    c.same d && Stmt.sameAll as bs && Stmt.sameAll as' bs'
  | .awaitUntil c, .awaitUntil d => c.same d
  | .call f as t, .call g bs u => f.same g && Value.sameItems as bs && t.same u
  | .empty, .empty => true
  | .program as, .program bs => Stmt.sameAll as bs
  | _, _ => false
termination_by structural s => s
def Stmt.sameAll : List Stmt → List Stmt → Bool
  | [], [] => true
  | a :: as, b :: bs => a.same b && Stmt.sameAll as bs
  | _, _ => false
termination_by structural ss => ss
end

instance : BEq Stmt := ⟨Stmt.same⟩

def Program.same (p q : Program) : Bool := Stmt.sameAll p.body q.body

instance : BEq Program := ⟨Program.same⟩

-- ---------------------------------------------------------------------------
-- Walking the tree
-- ---------------------------------------------------------------------------

namespace Stmt

def typeName : Stmt → String
  | .event .. => "Event"
  | .repeatTimes .. => "Repeat"
  | .forever .. => "LoopStatement"
  | .branch .. => "If"
  | .awaitUntil .. => "AwaitUntil"
  | .call .. => "Call"
  | .empty => "Empty"
  | .program .. => "Program"

/-- The statements inside, a consequent before its alternate. -/
def children : Stmt → List Stmt
  | .repeatTimes _ body | .forever body | .program body => body
  | .branch _ consequent alternate => consequent ++ alternate.getD []
  | _ => []

mutual
/-- Depth and construct of a statement and of those inside it, outer ones first. -/
def outline (depth : Nat) : Stmt → List (Nat × String)
  | .repeatTimes _ body => (depth, "Repeat") :: outlineAll (depth + 1) body
  | .forever body => (depth, "LoopStatement") :: outlineAll (depth + 1) body
  | .branch _ consequent none => (depth, "If") :: outlineAll (depth + 1) consequent
  | .branch _ consequent (some alternate) =>
    (depth, "If") :: outlineAll (depth + 1) consequent ++ outlineAll (depth + 1) alternate
  | .program body => (depth, "Program") :: outlineAll (depth + 1) body
  | s => [(depth, s.typeName)]
termination_by structural s => s
def outlineAll (depth : Nat) : List Stmt → List (Nat × String)
  | [] => []
  | s :: ss => s.outline depth ++ outlineAll depth ss
termination_by structural ss => ss
end

end Stmt

end Lia
