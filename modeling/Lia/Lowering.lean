import Lia.Lowering.Draft
import Lia.Target

/-!
# Compiling programs

A compilation collects blocks in one target and keeps the ids of the script roots.
Each step lowers statements to numbered blocks, draws as many new ids, and adds
the blocks behind those that are there. Main statement: what is there stays as it
is (`Compilation.add_blocks`).
-/

namespace Lia

open Lowering

-- ---------------------------------------------------------------------------
-- From numbers to ids
-- ---------------------------------------------------------------------------

namespace Lowering

def idOf (ids : List String) (n : Nat) : String := ids[n]?.getD ""

def assignInput (ids : List String) (i : Input Nat) : Input String :=
  ⟨i.name, match i.content with
    | .shadow type value => .shadow type value
    | .mouth first => .mouth (first.map (idOf ids))⟩

/-- A block with ids for numbers. A block whose id is empty gets no parent. -/
def assignBlock (ids : List String) (b : Block Nat) : Block String where
  id := idOf ids b.id
  opcode := b.opcode
  inputs := b.inputs.map (assignInput ids)
  fields := b.fields
  shadow := b.shadow
  parent := if idOf ids b.id = "" then none else b.parent.map (idOf ids)
  next := b.next.map (idOf ids)
  x := b.x
  y := b.y

/-- A main hat leads to its chain once the chain is complete, but not to a block whose
id is empty. -/
def assignHat (ids : List String) (hat : Block Nat) (chain : Chain) : Block String :=
  { assignBlock ids hat with
    next := match chain.error with
      | some _ => none
      | none => (chain.first.map (idOf ids)).filter (· ≠ "") }

namespace Draft

def size (d : Draft) : Nat :=
  d.hats.length + match d.main with
    | some (_, chain) => chain.blocks.length + 1
    | none => 0

def assign (d : Draft) (ids : List String) : List (Block String) :=
  d.hats.map (assignBlock ids) ++
    match d.main with
    | some (hat, chain) => assignHat ids hat chain :: chain.blocks.map (assignBlock ids)
    | none => []

end Draft

end Lowering

-- ---------------------------------------------------------------------------
-- Compilations
-- ---------------------------------------------------------------------------

structure Compilation where
  grid : Grid
  target : Target
  supply : Supply
  roots : List String := []

/-- What a step gives, and the compilation after it. -/
structure Compiled (α : Type) where
  state : Compilation
  notes : List Note
  result : Except LoweringError α

namespace Compilation

def start (grid : Grid) (stageName : String) (source : IdSource) : Compilation :=
  { grid, target := { name := stageName }, supply := { source } }

/-- Draws ids for a number of blocks and adds the blocks made of them. -/
def add (c : Compilation) (n : Nat) (blocks : List String → List (Block String)) :
    List String × Compilation :=
  let (ids, supply) := c.supply.take c.target.ids n
  (ids, { c with supply, target := { c.target with blocks := c.target.blocks ++ blocks ids } })

theorem add_blocks (c : Compilation) (n : Nat) (blocks : List String → List (Block String)) :
    (c.add n blocks).2.target.blocks = c.target.blocks ++ blocks (c.add n blocks).1 := rfl

/-- What a step gives, unless there is an error. -/
def result (error : Option LoweringError) (value : α) : Except LoweringError α :=
  match error with
  | some e => .error e
  | none => .ok value

/-- Adds a segment and gives the id of its own block. -/
private def addSegment (c : Compilation) (s : Segment) : Compiled (Option String) :=
  let (ids, c) := c.add s.size fun ids => s.blocks.map (assignBlock ids)
  ⟨c, s.notes, result s.error (s.own.map fun b => idOf ids b.id)⟩

def statement (c : Compilation) (s : Stmt) : Compiled (Option String) :=
  c.addSegment (lowerStmt 0 s)

/-- Compiles a chain and gives the ids of its first and last block. -/
def statements (c : Compilation) (ss : List Stmt) : Compiled (Option String × Option String) :=
  let chain := lowerAll 0 ss
  let (ids, c) := c.add chain.blocks.length fun ids => chain.blocks.map (assignBlock ids)
  ⟨c, chain.notes, result chain.error (chain.first.map (idOf ids), chain.last.map (idOf ids))⟩

/-- Compiles a container around statements, without other inputs. -/
def container (c : Compilation) (opcode : Option String) (body : List Stmt) : Compiled (Option String) :=
  c.addSegment ((lowerAll 0 body).enclose 0 opcode [])

/-- Makes a block the next script root and gives it a place. -/
def addRoot (c : Compilation) (id : String) : Compiled Unit :=
  match c.grid.place? c.roots.length with
  | none => ⟨c, [], .error .noColumns⟩
  | some (x, y) =>
    ⟨{ c with target := c.target.update id (·.moveTo x y), roots := c.roots ++ [id] }, [], .ok ()⟩

def program (c : Compilation) (p : Program) : Compiled Unit :=
  let d := lowerProgram c.grid c.roots.length p
  let (ids, after) := c.add d.size d.assign
  let state := { after with roots := c.roots ++ d.roots.map (idOf ids) }
  match d.error with
  | some e => ⟨state, d.notes, .error e⟩
  | none => ⟨state, d.notes ++ [.compiled state.target.size state.roots.length], .ok ()⟩

def find (c : Compilation) (opcode : Option String) : List (Block String) :=
  c.target.blocks.filter fun b => b.opcode = opcode

end Compilation

def compile (p : Program) (grid : Grid) (stageName : String) (source : IdSource) : Compiled Unit :=
  (Compilation.start grid stageName source).program p

end Lia
