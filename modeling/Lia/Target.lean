import Lia.Block
import Lia.Ids

/-!
# Targets

A target owns its blocks, in the order in which they were created, and everything
else that a stage or a sprite has. Main statement: a created block gets an id that
no other block has, and the others stay as they are (`Target.create`,
`Target.nodup_create`).
-/

namespace Lia

structure Target where
  name : String := "Stage"
  isStage : Bool := true
  blocks : List (Block String) := []
  vars : Value := .record []
  lists : Value := .record []
  broadcasts : Value := .record []
  comments : Value := .record []
  sounds : Value := .list []
  costumes : List Value := []
  currentCostume : Value := 0
  volume : Value := 100
  layerOrder : Value := 0
  tempo : Value := 60
  videoTransparency : Value := 50
  videoState : Value := "on"
  textToSpeechLanguage : Value := .null

namespace Target

def ids (t : Target) : List String := t.blocks.map Block.id

def size (t : Target) : Nat := t.blocks.length

def get? (t : Target) (id : String) : Option (Block String) := t.blocks.find? fun b => b.id = id

/-- Follows a link, which may lead nowhere. -/
def follow? (t : Target) (link : Option String) : Option (Block String) := link.bind t.get?

/-- An input that is no C mouth refers to no block. -/
inductive LinkError
  | notMouth
  deriving DecidableEq

def LinkError.message : LinkError → String
  | .notMouth => "Input does not reference a block"

/-- The block in a C mouth, none if it is empty or its link leads nowhere. -/
def linkedBlock? (t : Target) (i : Input String) : Except LinkError (Option (Block String)) :=
  match i.content with
  | .mouth first => .ok (t.follow? first)
  | .shadow .. => .error .notMouth

def update (t : Target) (id : String) (f : Block String → Block String) : Target :=
  { t with blocks := t.blocks.map fun b => if b.id = id then f b else b }

/-- Adds a block at the end, under the first id of the supply that is new. -/
def create (t : Target) (s : Supply) (opcode : Option String) : Target × Supply × String :=
  let (id, s) := s.draw t.ids
  ({ t with blocks := t.blocks ++ [{ id, opcode }] }, s, id)

theorem nodup_create (t : Target) (s : Supply) (opcode : Option String) (h : t.ids.Nodup) :
    (t.create s opcode).1.ids.Nodup := by
  have hn := s.draw_not_mem t.ids
  simp only [create, ids, List.map_append, List.map_cons, List.map_nil]
  refine List.nodup_append.2 ⟨h, by simp, ?_⟩
  simp only [List.mem_singleton, forall_eq]
  rintro a ha rfl
  exact hn ha

-- ---------------------------------------------------------------------------
-- Script roots
-- ---------------------------------------------------------------------------

/-- The ids that a chain or a C mouth of some block leads to. -/
def linked (t : Target) : List String := t.blocks.flatMap Block.links

/-- A block starts a script when no chain and no C mouth leads to it. -/
def isTopLevel (t : Target) (id : String) : Bool := !t.linked.contains id

-- ---------------------------------------------------------------------------
-- Records
-- ---------------------------------------------------------------------------

def blockValue (t : Target) (b : Block String) : Value := b.toValue (t.isTopLevel b.id)

def blockFields (t : Target) : List (String × Value) :=
  let linked := t.linked
  t.blocks.map fun b => (b.id, b.toValue (!linked.contains b.id))

/-- The record of the target, with fields of its own for a stage. -/
def toValue (t : Target) : Value :=
  .record ([
    ("name", .text t.name),
    ("isStage", .flag t.isStage),
    ("variables", t.vars),
    ("lists", t.lists),
    ("broadcasts", t.broadcasts),
    ("blocks", .ofFields t.blockFields),
    ("comments", t.comments),
    ("sounds", t.sounds),
    ("costumes", .list t.costumes),
    ("currentCostume", t.currentCostume),
    ("volume", t.volume),
    ("layerOrder", t.layerOrder)] ++
    if t.isStage then [
      ("tempo", t.tempo),
      ("videoTransparency", t.videoTransparency),
      ("videoState", t.videoState),
      ("textToSpeechLanguage", t.textToSpeechLanguage)]
    else [])

end Target

end Lia
