import Lia.Stmt
import Lia.Value

/-!
# Programs as blocks

What a program is to become: `Program.scripts` gives its scripts as nested lists of
nodes, by a table of statements. `Reads` is how such a list is read off the records of
blocks, following `next` and what stands in a `SUBSTACK`; records show one list of
nodes at most (`Reads.unique`).
-/

namespace Lia

/-- A block with what stands in its mouth, without ids. -/
inductive Node
  | plain (opcode : String) (inputs fields : List (String × Value))
  | container (opcode : String) (inputs fields : List (String × Value)) (inside : List Node)

-- ---------------------------------------------------------------------------
-- The table
-- ---------------------------------------------------------------------------

def numeric (v : Value) : Value := .list [1, .list [4, v]]

def textual (v : Value) : Value := .list [1, .list [10, v]]

def Trigger.image? : Trigger → Option Node
  | .start => some (.plain "event_whenflagclicked" [] [])
  | .click => some (.plain "event_whenthisspriteclicked" [] [])
  | .backdrop name =>
    some (.plain "event_whenbackdropswitchesto" [] [("BACKDROP", .list [name, .null])])
  | .key _ | .unknown .. => none

/-- The direction of a turn, by its first argument. -/
def turnImage? : List Value → Option Node
  | .text "right" :: rest =>
    some (.plain "motion_turnright" [("DEGREES", numeric (rest.headD 15))] [])
  | .text "left" :: rest | .text "lef" :: rest =>
    some (.plain "motion_turnleft" [("DEGREES", numeric (rest.headD 15))] [])
  | _ => none

def sayImage (args : List Value) : Value → Node
  | .null => .plain "looks_say" [("MESSAGE", textual (args.headD ""))] []
  | duration =>
    .plain "looks_sayforsecs" [("MESSAGE", textual (args.headD "")), ("SECS", numeric duration)] []

def callImage? (args : List Value) (duration : Value) : Value → Option Node
  | .text "move" => some (.plain "motion_movesteps" [("STEPS", numeric (args.headD 10))] [])
  | .text "turn" => turnImage? args
  | .text "say" => some (sayImage args duration)
  | .text "wait" => some (.plain "control_wait" [("DURATION", numeric (args.headD 1))] [])
  | _ => some (.plain "procedures_call" [] [])

mutual
/-- The node of a statement, if it has one. An alternate has none. -/
def Stmt.image? : Stmt → Option Node
  | .event t => t.image?
  | .repeatTimes count body =>
    some (.container "control_repeat" [("TIMES", numeric count)] [] (Stmt.images body))
  | .forever body => some (.container "control_forever" [] [] (Stmt.images body))
  | .branch condition consequent _ =>
    some (.container "control_if" [("CONDITION", textual condition)] [] (Stmt.images consequent))
  | .awaitUntil condition => some (.plain "control_wait_until" [("CONDITION", textual condition)] [])
  | .call name args duration => callImage? args duration name
  | .empty | .program _ => none
termination_by structural s => s
/-- Statements in order; those without a node are left out. -/
def Stmt.images : List Stmt → List Node
  | [] => []
  | s :: ss => s.image?.toList ++ Stmt.images ss
termination_by structural ss => ss
end

/-- What is looked up of a call in the end: its name, or the direction if it is a turn. -/
def callKey (args : List Value) : Value → Value
  | .text "turn" => args.head?.getD .null
  | name => name

/-- Lists and records can only come in for a name or among the arguments. -/
theorem callKey_isHashable {name : Value} {args : List Value} (hn : name.isHashable = true)
    (ha : ∀ a ∈ args, a.isHashable = true) : (callKey args name).isHashable = true := by
  unfold callKey
  split
  next =>
    cases args with
    | nil => rfl
    | cons d _ => exact ha d List.mem_cons_self
  next => exact hn

mutual
/-- No program stands in place of a statement, every event is of a known kind, and no list or
record stands for the name of a call or the direction of a turn, except in alternates. -/
def Stmt.supported : Stmt → Bool
  | .event (.unknown ..) | .program _ => false
  | .repeatTimes _ body | .forever body | .branch _ body _ => Stmt.supportedAll body
  | .call name args _ => (callKey args name).isHashable
  | .event _ | .awaitUntil _ | .empty => true
termination_by structural s => s
def Stmt.supportedAll : List Stmt → Bool
  | [] => true
  | s :: ss => s.supported && Stmt.supportedAll ss
termination_by structural ss => ss
end

/-- A call by a list. A record has a name of any kind. -/
def listCall : Program := ⟨[.call (.list []) [] .null]⟩

example : Stmt.supportedAll listCall.body = false := rfl

def Stmt.isEvent : Stmt → Bool
  | .event _ => true
  | _ => false

/-- The leading events one by one; the first other statement stands for the whole
program, below a green flag. -/
def scriptsFrom (whole ss : List Stmt) : List (List Node) :=
  ((ss.takeWhile Stmt.isEvent).filterMap Stmt.image?).map (fun hat => [hat]) ++
    if ss.all Stmt.isEvent then [] else [.plain "event_whenflagclicked" [] [] :: Stmt.images whole]

def Program.scripts (p : Program) : List (List Node) := scriptsFrom p.body p.body

/-- `on click; repeat(3) { move; ; turn(left); }` -/
def patrol : Program :=
  ⟨[.event .click, .repeatTimes 3 [.call "move" [] .null, .empty, .call "turn" ["left"] .null]]⟩

example : patrol.scripts = [
    [.plain "event_whenthisspriteclicked" [] []],
    [.plain "event_whenflagclicked" [] [], .plain "event_whenthisspriteclicked" [] [],
      .container "control_repeat" [("TIMES", numeric 3)] [] [
        .plain "motion_movesteps" [("STEPS", numeric 10)] [],
        .plain "motion_turnleft" [("DEGREES", numeric 15)] []]]] := rfl

-- ---------------------------------------------------------------------------
-- Reading records
-- ---------------------------------------------------------------------------

/-- The nodes of a chain that begins at a link, from the records of blocks by id. -/
inductive Reads (records : List (String × Value)) : Value → List Node → Prop
  | nil : Reads records .null []
  | plain {id : String} (hr : records.lookup id = some r)
      (ho : r.get? "opcode" = some (.text opcode))
      (hi : r.get? "inputs" = some (.record inputs)) (hs : inputs.lookup "SUBSTACK" = none)
      (hf : r.get? "fields" = some (.record fields)) (hn : r.get? "next" = some next)
      (h : Reads records next nodes) :
      Reads records (.text id) (.plain opcode inputs fields :: nodes)
  | container {id : String} (hr : records.lookup id = some r)
      (ho : r.get? "opcode" = some (.text opcode))
      (hi : r.get? "inputs" = some (.record (inputs ++ [("SUBSTACK", .list [2, first])])))
      (hf : r.get? "fields" = some (.record fields)) (hm : Reads records first inside)
      (hn : r.get? "next" = some next) (h : Reads records next nodes) :
      Reads records (.text id) (.container opcode inputs fields inside :: nodes)

theorem lookup_substack (inputs : List (String × Value)) (v : Value) :
    (inputs ++ [("SUBSTACK", v)]).lookup "SUBSTACK" ≠ none := by
  simp [List.lookup_append]

theorem Reads.unique {records : List (String × Value)} {first : Value} {ns ms : List Node}
    (hn : Reads records first ns) (hm : Reads records first ms) : ns = ms := by
  induction hn generalizing ms with
  | nil => cases hm; rfl
  | plain hr ho hi hs hf hn _ ih =>
    cases hm with
    | plain hr' ho' hi' _ hf' hn' h' =>
      cases hr.symm.trans hr'
      cases ho.symm.trans ho'
      cases hi.symm.trans hi'
      cases hf.symm.trans hf'
      cases hn.symm.trans hn'
      rw [ih h']
    | container hr' _ hi' =>
      cases hr.symm.trans hr'
      cases hi.symm.trans hi'
      exact absurd hs (lookup_substack _ _)
  | container hr ho hi hf _ hn _ ihm ih =>
    cases hm with
    | plain hr' _ hi' hs' =>
      cases hr.symm.trans hr'
      cases hi.symm.trans hi'
      exact absurd hs' (lookup_substack _ _)
    | container hr' ho' hi' hf' hm' hn' h' =>
      cases hr.symm.trans hr'
      cases ho.symm.trans ho'
      cases hf.symm.trans hf'
      cases hn.symm.trans hn'
      obtain ⟨rfl, hs⟩ := List.append_inj' (Value.record.inj (Option.some.inj (hi.symm.trans hi'))) rfl
      cases hs
      rw [ihm hm', ih h']

end Lia
