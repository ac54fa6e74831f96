import Lia.Stmt
import Lia.Block
import Lia.Note

/-!
# Statements as numbered blocks

Lowering gives every block the number of its place in the order of creation, and
links blocks by these numbers. A statement becomes a segment: the blocks of its
body, then at most one block of its own. A list of statements becomes a chain of
the own blocks of its statements. What was created before an error stays.
-/

namespace Lia

inductive LoweringError
  /-- A program stands in place of a statement. -/
  | nestedProgram
  | unknownEvent (kind : Value)
  /-- A list or a record stands where a name is looked up. -/
  | unhashable (value : Value)
  /-- A script root has no place on a grid without columns. -/
  | noColumns

def LoweringError.message : LoweringError → String
  | .nestedProgram => "Unhandled statement type LIAProgram"
  | .unknownEvent kind => kind.literal
  | .unhashable (.record _) => "unhashable type: 'dict'"
  | .unhashable _ => "unhashable type: 'list'"
  | .noColumns => "integer modulo by zero"

namespace Lowering

structure Segment where
  inner : List (Block Nat) := []
  /-- Its own block, the last one of the segment. -/
  own : Option (Block Nat) := none
  notes : List Note := []
  error : Option LoweringError := none

structure Chain where
  blocks : List (Block Nat) := []
  /-- The own block of the first statement that has one. -/
  first : Option Nat := none
  last : Option Nat := none
  notes : List Note := []
  error : Option LoweringError := none

namespace Segment

def blocks (s : Segment) : List (Block Nat) := s.inner ++ s.own.toList

def size (s : Segment) : Nat := s.blocks.length

/-- A statement without a body. -/
def single (n : Nat) (opcode : String) (inputs : List (Input Nat)) (fields : List Field := []) :
    Segment :=
  { own := some { id := n, opcode := some opcode, inputs, fields } }

/-- A statement without a block, and why it has none. -/
def skip (note : Note) : Segment := { notes := [note] }

def noted (note : Option Note) (s : Segment) : Segment := { s with notes := note.toList ++ s.notes }

/-- What a value that is in no table comes to, if it can be looked up at all. -/
def unlisted (v : Value) (s : Segment) : Segment :=
  if v.isHashable then s else { error := some (.unhashable v) }

/-- The segment in front of the chain of the statements that follow; after an error
nothing follows. -/
def before (s : Segment) (c : Chain) : Chain :=
  match s.error with
  | some e => { blocks := s.blocks, notes := s.notes, error := some e }
  | none =>
    match s.own with
    | none => { c with blocks := s.inner ++ c.blocks, notes := s.notes ++ c.notes }
    | some b =>
      { blocks := s.inner ++ { b with next := c.first } :: c.blocks
        first := some b.id
        last := c.last.or (some b.id)
        notes := s.notes ++ c.notes
        error := c.error }

end Segment

/-- A container around a chain that begins at a number. The first block inside has
the container as its parent. -/
def Chain.enclose (c : Chain) (n : Nat) (opcode : Option String) (inputs : List (Input Nat)) :
    Segment :=
  match c.error with
  | some e => { inner := c.blocks, notes := c.notes, error := some e }
  | none =>
    let id := n + c.blocks.length
    { inner := c.blocks.map fun b => if some b.id = c.first then { b with parent := some id } else b
      own := some
        { id, opcode, inputs := inputs ++ [Input.substack "SUBSTACK" c.first] }
      notes := c.notes }

-- ---------------------------------------------------------------------------
-- Statements
-- ---------------------------------------------------------------------------

/-- The block that a kind of event starts a script with; there is none for keys. -/
def lowerTrigger (n : Nat) : Trigger → Segment
  | .start => .single n "event_whenflagclicked" []
  | .click => .single n "event_whenthisspriteclicked" []
  | .backdrop name => .single n "event_whenbackdropswitchesto" [] [{ name := "BACKDROP", value := name }]
  | .key name => .skip (.keySkipped name)
  | .unknown kind _ => .unlisted kind { error := some (.unknownEvent kind) }

/-- The opcode of a turn. Both spellings of left are known. -/
def turnOpcode? : Value → Option String
  | .text "right" => some "motion_turnright"
  | .text "left" | .text "lef" => some "motion_turnleft"
  | _ => none

/-- A call by its name. A default stands only for an argument that is missing. -/
def lowerCall (n : Nat) (name : Value) (args : List Value) (duration : Value) : Segment :=
  match name with
  | .text "move" => .single n "motion_movesteps" [.number "STEPS" (args.head?.getD 10)]
  | .text "turn" =>
    let direction := args.head?.getD .null
    match turnOpcode? direction with
    | some opcode => .single n opcode [.number "DEGREES" (args[1]?.getD 15)]
    | none => .unlisted direction (.skip (.unknownDirection direction))
  | .text "say" =>
    let message := .text "MESSAGE" (args.head?.getD "")
    if duration.isNull then .single n "looks_say" [message]
    else .single n "looks_sayforsecs" [message, .number "SECS" duration]
  | .text "wait" => .single n "control_wait" [.number "DURATION" (args.head?.getD 1)]
  | _ => .unlisted name ((Segment.single n "procedures_call" []).noted (some (.unhandledCall name)))

mutual
/-- The segment of a statement, whose first block has the number. Only the
consequent of a branch is lowered. -/
def lowerStmt (n : Nat) : Stmt → Segment
  | .event t => lowerTrigger n t
  | .repeatTimes count body =>
    (lowerAll n body).enclose n (some "control_repeat") [.number "TIMES" count]
  | .forever body => (lowerAll n body).enclose n (some "control_forever") []
  | .branch condition consequent alternate =>
    ((lowerAll n consequent).enclose n (some "control_if")
      [.condition "CONDITION" condition]).noted
      (alternate.map fun _ => .alternateSkipped condition)
  | .awaitUntil condition => .single n "control_wait_until" [.condition "CONDITION" condition]
  | .call name args duration => lowerCall n name args duration
  | .empty => {}
  | .program _ => { error := some .nestedProgram }
termination_by structural s => s
/-- The chain of a list of statements, whose first block has the number. -/
def lowerAll (n : Nat) : List Stmt → Chain
  | [] => {}
  | s :: ss =>
    let segment := lowerStmt n s
    segment.before (lowerAll (n + segment.size) ss)
termination_by structural ss => ss
end

-- ---------------------------------------------------------------------------
-- Scripts
-- ---------------------------------------------------------------------------

/-- Where script roots are placed: in rows of so many columns. -/
structure Grid where
  columnSpacing : Int := 500
  rowSpacing : Int := 1000
  maxColumns : Int := 5

/-- The place of the script root of a number. Quotient and remainder are floored, so
the number of columns may be negative. -/
def Grid.place? (g : Grid) (n : Nat) : Option (Int × Int) :=
  if g.maxColumns = 0 then none
  else some (Int.fmod n g.maxColumns * g.columnSpacing, Int.fdiv n g.maxColumns * g.rowSpacing)

structure Draft where
  /-- The hats of the leading events, and a hat that found no place. -/
  hats : List (Block Nat) := []
  /-- The hat of the main script, and the chain below it. -/
  main : Option (Block Nat × Chain) := none
  roots : List Nat := []
  notes : List Note := []
  error : Option LoweringError := none

namespace Draft

def withHat (hat : Block Nat) (d : Draft) : Draft :=
  { d with hats := hat :: d.hats, roots := hat.id :: d.roots }

def withNotes (notes : List Note) (d : Draft) : Draft := { d with notes := notes ++ d.notes }

/-- A hat on its place, and what follows it. -/
def placing (grid : Grid) (root : Nat) (hat : Block Nat) (following : Block Nat → Draft) : Draft :=
  match grid.place? root with
  | none => { hats := [hat], error := some .noColumns }
  | some (x, y) => following (hat.moveTo x y)

end Draft

/-- Every leading event is a script of its own. The first other statement begins the
main script, which holds the whole program, leading events included. The hats have
numbers from `n` on and the roots from `root` on. -/
def lowerScripts (grid : Grid) (whole : List Stmt) (n root : Nat) : List Stmt → Draft
  | [] => {}
  | .event t :: rest =>
    let segment := lowerTrigger n t
    match segment.error, segment.own with
    | some e, _ => { notes := segment.notes, error := some e }
    | none, none => (lowerScripts grid whole n root rest).withNotes segment.notes
    | none, some hat => .placing grid root hat fun hat =>
      (lowerScripts grid whole (n + 1) (root + 1) rest).withHat hat
  | _ :: _ =>
    .placing grid root { id := n, opcode := some "event_whenflagclicked" } fun hat =>
      let chain := lowerAll (n + 1) whole
      { main := some (hat, chain), roots := [n], notes := chain.notes, error := chain.error }

/-- The scripts of a program, if there are so many script roots already. -/
def lowerProgram (grid : Grid) (roots : Nat) (p : Program) : Draft :=
  lowerScripts grid p.body 0 roots p.body

end Lowering

end Lia
