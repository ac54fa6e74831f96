import Lia.Value

/-!
# Blocks

A block of a project: an opcode with inputs and fields, chained to others by
links. The type of ids is a parameter, because a program is lowered to numbered
blocks before they get the ids they keep.
-/

namespace Lia

/-- What fills an input. -/
inductive Content (ι : Type)
  /-- A typed value of its own. -/
  | shadow (type : Nat) (value : Value)
  /-- A C mouth with the first block inside, if there is one. -/
  | mouth (first : Option ι)

structure Input (ι : Type) where
  name : String
  content : Content ι

namespace Input

variable {ι : Type}

def numberType : Nat := 4

def textType : Nat := 10

def number (name : String) (value : Value) : Input ι := ⟨name, .shadow numberType value⟩

def text (name : String) (value : Value) : Input ι := ⟨name, .shadow textType value⟩

/-- Conditions stay text; no reporter block is behind them. -/
def condition (name : String) (value : Value) : Input ι := text name value

def substack (name : String) (first : Option ι) : Input ι := ⟨name, .mouth first⟩

def mouth? (i : Input ι) : Option ι :=
  match i.content with
  | .mouth first => first
  | .shadow .. => none

def summary (i : Input ι) : String := "<Input \"" ++ i.name ++ "\">"

def toValue (i : Input String) : Value :=
  match i.content with
  | .shadow type value => .list [1, .list [.int type, value]]
  | .mouth first => .list [2, (first.map Value.text).getD .null]

end Input

structure Field where
  name : String
  value : Value
  /-- The variable that the field refers to. -/
  variableId : Option String := none

namespace Field

def summary (f : Field) : String := "<Field \"" ++ f.name ++ "\": " ++ f.value.literal ++ ">"

def toValue (f : Field) : Value := .list [f.value, (f.variableId.map Value.text).getD .null]

end Field

structure Block (ι : Type) where
  id : ι
  opcode : Option String := none
  inputs : List (Input ι) := []
  fields : List Field := []
  shadow : Bool := false
  parent : Option ι := none
  next : Option ι := none
  x : Option Int := none
  y : Option Int := none

namespace Block

variable {ι : Type}

def input? (b : Block ι) (name : String) : Option (Input ι) := b.inputs.find? fun i => i.name = name

def field? (b : Block ι) (name : String) : Option Field := b.fields.find? fun f => f.name = name

/-- The blocks that a chain or a C mouth of this block leads to. Its parent is not
among them. -/
def links (b : Block ι) : List ι := b.next.toList ++ b.inputs.filterMap Input.mouth?

def moveTo (b : Block ι) (x y : Int) : Block ι := { b with x := some x, y := some y }

private def optional (s : Option String) : Value := (s.map Value.text).getD .null

/-- The record of a block. Only a block that has a place says where it is. -/
def toValue (b : Block String) (topLevel : Bool) : Value :=
  .record ([
    ("opcode", optional b.opcode),
    ("inputs", .ofFields (b.inputs.map fun i => (i.name, i.toValue))),
    ("fields", .ofFields (b.fields.map fun f => (f.name, f.toValue))),
    ("shadow", .flag b.shadow),
    ("topLevel", .flag topLevel),
    ("parent", optional b.parent),
    ("next", optional b.next)] ++
    match b.x, b.y with
    | some x, some y => [("x", .int x), ("y", .int y)]
    | _, _ => [])

end Block

end Lia
