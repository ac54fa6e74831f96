import Lia.Stmt

/-!
# Programs as records

`Stmt.toRecord` writes a statement as a record, which is what a `.lia` file holds;
`Stmt.ofRecord?` reads one back. Unknown fields are ignored. The first defect is
reported: items from left to right, own fields in the order of the readers below.
-/

namespace Lia

-- ---------------------------------------------------------------------------
-- Writing
-- ---------------------------------------------------------------------------

def Trigger.fields (t : Trigger) : List (String × Value) :=
  ("kind", t.kind) ::
    match t with
    | .key name => [("key", name)]
    | .backdrop name => [("name", name)]
    | _ => []

/-- A record of a construct; the type is its first field. -/
private def node (type : String) (fields : List (String × Value)) : Value :=
  .record (("type", .text type) :: fields)

mutual
def Stmt.toRecord : Stmt → Value
  | .event t => node "Event" t.fields
  | .repeatTimes count body => node "Repeat" [("count", count), ("body", .list (Stmt.toRecords body))]
  | .forever body => node "LoopStatement" [("body", .list (Stmt.toRecords body))]
  | .branch condition consequent none =>
    node "If" [("condition", condition), ("consequent", .list (Stmt.toRecords consequent)),
      ("alternate", .null)]
  | .branch condition consequent (some alternate) =>
    node "If" [("condition", condition), ("consequent", .list (Stmt.toRecords consequent)),
      ("alternate", .list (Stmt.toRecords alternate))]
  | .awaitUntil condition => node "AwaitUntil" [("condition", condition)]
  | .call name args duration =>
    node "Call" (("name", name) :: ("args", .list args) ::
      if duration.isNull then [] else [("for", duration)])
  | .empty => node "Empty" []
  | .program body => node "Program" [("body", .list (Stmt.toRecords body))]
termination_by structural s => s
def Stmt.toRecords : List Stmt → List Value
  | [] => []
  | s :: ss => s.toRecord :: Stmt.toRecords ss
termination_by structural ss => ss
end

def Program.toRecord (p : Program) : Value := p.toStmt.toRecord

-- ---------------------------------------------------------------------------
-- Reading
-- ---------------------------------------------------------------------------

inductive RecordError
  | missing (field : String)
  | unknownType (type : Value)
  /-- The whole record is in order and stands for something else. -/
  | notProgram
  /-- A statement is no record. -/
  | notRecord
  /-- A field that holds statements or arguments is no list. -/
  | notList (field : String)

def RecordError.message : RecordError → String
  | .missing field => Text.quoted field
  | .unknownType type => "Unknown node type \"" ++ type.display ++ "\""
  | .notProgram => "Top-level record is not a Program"
  | .notRecord => "Statement is not a record"
  | .notList field => "Field " ++ Text.quoted field ++ " is not a list"

/-- The event of a kind; an argument that the kind does not have is dropped. -/
def Trigger.ofKind (kind key name : Value) : Trigger :=
  if h : isEventKind kind = false then .unknown kind h
  else if kind.same "key" then .key key
  else if kind.same "backdrop" then .backdrop name
  else if kind.same "click" then .click
  else .start

namespace Record

/-- A field with its value, and what the value gives as a list of statements. -/
structure Field where
  name : String
  value : Value
  statements : Except RecordError (List Stmt)

abbrev Fields := List Field

namespace Fields

def find? (fields : Fields) (name : String) : Option Field :=
  List.find? (fun f => f.name = name) fields

def optional (fields : Fields) (name : String) : Value :=
  ((fields.find? name).map Field.value).getD .null

def required (fields : Fields) (name : String) : Except RecordError Value :=
  match fields.find? name with
  | some f => .ok f.value
  | none => .error (.missing name)

def statements (fields : Fields) (name : String) : Except RecordError (List Stmt) :=
  match fields.find? name with
  | some f => f.statements
  | none => .error (.missing name)

def optionalStatements (fields : Fields) (name : String) :
    Except RecordError (Option (List Stmt)) :=
  match fields.find? name with
  | none => .ok none
  | some f => if f.value.isNull then .ok none else f.statements.map some

/-- A text stands for the list of its characters, and a record for its field names. -/
def values (fields : Fields) (name : String) : Except RecordError (List Value) := do
  match ← fields.required name with
  | .list items => return items
  | .text s => return s.toList.map fun c => .text (String.singleton c)
  | .record fields => return fields.map fun f => .text f.1
  | _ => throw (.notList name)

/-- The statement of a record with these fields. -/
def toStmt (fields : Fields) : Except RecordError Stmt := do
  match fields.optional "type" with
  | .text "Program" => return .program (← fields.statements "body")
  | .text "Event" =>
    let kind ← fields.required "kind"
    return .event (.ofKind kind (fields.optional "key") (fields.optional "name"))
  | .text "Repeat" =>
    let count ← fields.required "count"
    return .repeatTimes count (← fields.statements "body")
  | .text "LoopStatement" => return .forever (← fields.statements "body")
  | .text "If" =>
    let alternate ← fields.optionalStatements "alternate"
    let condition ← fields.required "condition"
    return .branch condition (← fields.statements "consequent") alternate
  | .text "AwaitUntil" => return .awaitUntil (← fields.required "condition")
  | .text "Call" =>
    let name ← fields.required "name"
    let args ← fields.values "args"
    return .call name args (fields.optional "for")
  | .text "Empty" => return .empty
  | type => throw (.unknownType type)

end Fields

/-- What a value that is no list gives as one: nothing if it is empty. A text has
characters in it and a record has names, and those are no records. -/
def noStatements (name : String) (v : Value) : Except RecordError (List Stmt) :=
  match v with
  | .text s => if s = "" then .ok [] else .error .notRecord
  | .record fields => if fields.isEmpty then .ok [] else .error .notRecord
  | _ => .error (.notList name)

end Record

mutual
def Stmt.ofRecord? : Value → Except RecordError Stmt
  | .record fields => (Stmt.ofFields fields).toStmt
  | _ => .error .notRecord
termination_by structural v => v
def Stmt.ofRecords? : List Value → Except RecordError (List Stmt)
  | [] => .ok []
  | v :: vs => do
    let s ← Stmt.ofRecord? v
    let ss ← Stmt.ofRecords? vs
    return s :: ss
termination_by structural vs => vs
def Stmt.ofFields : List (String × Value) → Record.Fields
  | [] => []
  | (name, .list items) :: rest =>
    ⟨name, .list items, Stmt.ofRecords? items⟩ :: Stmt.ofFields rest
  | (name, v) :: rest => ⟨name, v, Record.noStatements name v⟩ :: Stmt.ofFields rest
termination_by structural fields => fields
end

/-- That the whole is a program is checked last. -/
def Program.ofRecord? (v : Value) : Except RecordError Program := do
  match ← Stmt.ofRecord? v with
  | .program body => return ⟨body⟩
  | _ => throw .notProgram

end Lia
