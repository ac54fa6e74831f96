import Lia.Proofs.Lowering.Behind
import Lia.Proofs.Lowering.Ids
import Lia.Proofs.Lowering.Prune

/-!
# Building block by block

Lowering gives all blocks of a list at once. Here they are created one at a time, in the one
target that all share, and what was created is changed afterwards: a block is chained to the
next one when that is there, and the first one in a mouth is told its parent when the container
is there. Main statements: this comes to the same compilation, notes and result, also where it
stops half way (`statement_eq_build`, `statements_eq_build`).
-/

namespace Lia

open Lowering

-- ---------------------------------------------------------------------------
-- Building
-- ---------------------------------------------------------------------------

/-- One call after another. After an error nothing follows. -/
def Compiled.andThen (r : Compiled α) (f : Compilation → α → Compiled β) : Compiled β :=
  match r.result with
  | .error e => ⟨r.state, r.notes, .error e⟩
  | .ok a => ⟨(f r.state a).state, r.notes ++ (f r.state a).notes, (f r.state a).result⟩

theorem Compiled.ok_andThen (c : Compilation) (a : α) (f : Compilation → α → Compiled β) :
    (⟨c, [], .ok a⟩ : Compiled α).andThen f = f c a := rfl

namespace Compilation

/-- Changes the blocks of an id. -/
def change (c : Compilation) (id : String) (f : Block String → Block String) : Compilation :=
  { c with target := c.target.update id f }

/-- Creates a block behind the others and fills it in. -/
def create (c : Compilation) (opcode : Option String) (inputs : List (Input String))
    (fields : List Field) : Compilation × String :=
  let (target, supply, id) := c.target.create c.supply opcode
  ({ c with target := target.update id fun b => { b with inputs, fields }, supply }, id)

/-- The block that is given is chained to the next one. -/
def chain (c : Compilation) (last next : Option String) : Compilation :=
  match last, next with
  | some last, some next => c.change last fun b => { b with next := some next }
  | _, _ => c

/-- Creates the block of a statement without a body, if it has one. -/
def buildOwn (c : Compilation) (s : Segment) : Compiled (Option String) :=
  match s.error, s.own with
  | some e, _ => ⟨c, s.notes, .error e⟩
  | none, none => ⟨c, s.notes, .ok none⟩
  | none, some b =>
    let (c, id) := c.create b.opcode (b.inputs.map (assignInput [])) b.fields
    ⟨c, s.notes, .ok (some id)⟩

/-- Tells a block its parent. One whose id is empty is not told. -/
def tell (c : Compilation) (first : Option String) (parent : String) : Compilation :=
  match first with
  | some first => if first = "" then c else c.change first fun b => { b with parent := some parent }
  | none => c

/-- Creates a container around blocks that are there. -/
def buildAround (c : Compilation) (opcode : String) (inputs : List (Input Nat))
    (first : Option String) : Compiled (Option String) :=
  let (c, id) := c.create (some opcode)
    (inputs.map (assignInput []) ++ [.substack "SUBSTACK" first]) []
  ⟨c.tell first id, [], .ok (some id)⟩

mutual
/-- Builds the block of a statement behind those of its body. -/
def build (c : Compilation) : Stmt → Compiled (Option String)
  | .event t => c.buildOwn (lowerTrigger 0 t)
  | .repeatTimes count body => (buildAll c none none body).andThen fun c ends =>
    c.buildAround "control_repeat" [.number "TIMES" count] ends.1
  | .forever body => (buildAll c none none body).andThen fun c ends =>
    c.buildAround "control_forever" [] ends.1
  | .branch condition consequent alternate =>
    let r := (buildAll c none none consequent).andThen fun c ends =>
      c.buildAround "control_if" [.condition "CONDITION" condition] ends.1
    { r with notes := (alternate.map fun _ => Note.alternateSkipped condition).toList ++ r.notes }
  | .awaitUntil condition =>
    c.buildOwn (.single 0 "control_wait_until" [.condition "CONDITION" condition])
  | .call name args duration => c.buildOwn (lowerCall 0 name args duration)
  | .empty => c.buildOwn {}
  | .program _ => c.buildOwn { error := some .nestedProgram }
termination_by structural s => s
/-- Builds a chain behind the last block there is, which is chained to the first one built. -/
def buildAll (c : Compilation) (first last : Option String) :
    List Stmt → Compiled (Option String × Option String)
  | [] => ⟨c, [], .ok (first, last)⟩
  | s :: ss => (build c s).andThen fun c own =>
    match own with
    | none => buildAll c first last ss
    | some id => buildAll (c.chain last (some id)) (first.or (some id)) (some id) ss
termination_by structural ss => ss
end

end Compilation

-- ---------------------------------------------------------------------------
-- Statements without a body
-- ---------------------------------------------------------------------------

namespace Lowering

/-- A segment of at most one block, of which only an opcode, inputs and fields are known. -/
structure Segment.IsOwn (s : Segment) : Prop where
  inner : s.inner = []
  error : s.error = none ∨ s.own = none
  own : ∀ b ∈ s.own, b.known = [] ∧
    b = { id := b.id, opcode := b.opcode, inputs := b.inputs, fields := b.fields }

/-- The same segment, as its first block had another number. -/
def Segment.renumber (n : Nat) (s : Segment) : Segment :=
  { s with own := s.own.map fun b => { b with id := n } }

theorem single_isOwn (n : Nat) (opcode : String) {inputs : List (Input Nat)} (fields : List Field)
    (h : inputs.filterMap Input.mouth? = []) : (Segment.single n opcode inputs fields).IsOwn where
  inner := rfl
  error := .inl rfl
  own := by simpa [Segment.single, Block.known, Block.links] using h

theorem assign_own {b : Block Nat} (h : b.known = [] ∧
      b = { id := b.id, opcode := b.opcode, inputs := b.inputs, fields := b.fields })
    (ids : List String) (n : Nat) : assignBlock ids { b with id := n } =
      { id := idOf ids n, opcode := b.opcode, inputs := b.inputs.map (assignInput []), fields := b.fields } := by
  obtain ⟨hk, hb⟩ := h
  have hm : b.inputs.filterMap Input.mouth? = [] := (List.append_eq_nil_iff.1
    (List.append_eq_nil_iff.1 hk).2).2
  have hi : b.inputs.map (assignInput ids) = b.inputs.map (assignInput []) :=
    map_assignInput_congr (by simp [hm])
  rw [hb]
  simp [assignBlock, hi]

theorem empty_isOwn (notes : List Note) (error : Option LoweringError) :
    ({ notes, error } : Segment).IsOwn where
  inner := rfl
  error := .inr rfl
  own := nofun

theorem lowerTrigger_isOwn (n : Nat) (t : Trigger) : (lowerTrigger n t).IsOwn := by
  cases t with
  | start | click | backdrop => exact single_isOwn n _ _ rfl
  | key => exact empty_isOwn _ _
  | unknown => exact unlisted_of (P := Segment.IsOwn) _ (empty_isOwn _ _) fun _ => empty_isOwn _ _

theorem lowerCall_isOwn (n : Nat) (name : Value) (args : List Value) (duration : Value) :
    (lowerCall n name args duration).IsOwn := by
  unfold lowerCall
  split
  next => exact single_isOwn n _ _ rfl
  next =>
    simp only
    split
    · exact single_isOwn n _ _ rfl
    · exact unlisted_of (P := Segment.IsOwn) _ (empty_isOwn _ _) fun _ => empty_isOwn _ _
  next => simp only; split <;> exact single_isOwn n _ _ rfl
  next => exact single_isOwn n _ _ rfl
  next =>
    have h : (Segment.single n "procedures_call" []).IsOwn := single_isOwn n _ [] rfl
    exact unlisted_of (P := Segment.IsOwn) _ ⟨h.inner, h.error, h.own⟩ fun _ => empty_isOwn _ _

theorem unlisted_renumber (n : Nat) (v : Value) (s : Segment) :
    (Segment.unlisted v s).renumber n = .unlisted v (s.renumber n) := by
  unfold Segment.unlisted
  split <;> rfl

theorem lowerTrigger_renumber (n : Nat) (t : Trigger) :
    (lowerTrigger 0 t).renumber n = lowerTrigger n t := by
  cases t with
  | unknown => exact unlisted_renumber n _ _
  | _ => rfl

theorem lowerCall_renumber (n : Nat) (name : Value) (args : List Value) (duration : Value) :
    (lowerCall 0 name args duration).renumber n = lowerCall n name args duration := by
  unfold lowerCall
  split
  next => rfl
  next =>
    simp only
    split
    · rfl
    · exact unlisted_renumber n _ _
  next => simp only; split <;> rfl
  next => rfl
  next => exact unlisted_renumber n _ _

end Lowering

namespace Compilation

variable (c : Compilation)

theorem create_eq (opcode : Option String) (inputs : List (Input String)) (fields : List Field) :
    c.create opcode inputs fields =
      (c.put [{ id := (c.supply.draw c.target.ids).1, opcode, inputs, fields }]
        (c.supply.draw c.target.ids).2, (c.supply.draw c.target.ids).1) := by
  have hnew := c.supply.draw_not_mem c.target.ids
  have h := Target.update_last c.target (c := { id := (c.supply.draw c.target.ids).1, opcode }) hnew
    fun b => { b with inputs, fields }
  simp only [create, Target.create, put]
  rw [h]

theorem buildOwn_eq {s : Segment} (hs : s.IsOwn) (before : List String) :
    c.buildOwn s = c.segmentBehind before (s.renumber before.length) := by
  obtain ⟨inner, own, notes, error⟩ := s
  obtain rfl : inner = [] := hs.inner
  cases own with
  | none =>
    cases error <;> simp [buildOwn, segmentBehind, Segment.renumber, Segment.blocks, addBehind_nil, result]
  | some b =>
    obtain rfl : error = none := hs.error.resolve_right (Option.some_ne_none b)
    have hb := hs.own b rfl
    simp only [buildOwn, create_eq, segmentBehind, Segment.renumber, Segment.blocks, Option.map_some,
      Option.toList_some, List.nil_append, addBehind_eq, List.length_singleton, List.map_singleton,
      Segment.size, nextIds_one, restIds_one, assign_own hb, idOf_length, result]

-- ---------------------------------------------------------------------------
-- Containers
-- ---------------------------------------------------------------------------

theorem map_change_of_not_mem {bs : List (Block String)} {id : String} (h : id ∉ bs.map Block.id)
    (f : Block String → Block String) : bs.map (fun b => if b.id = id then f b else b) = bs := by
  conv => rhs; rw [← List.map_id bs]
  refine List.map_congr_left fun b hb => if_neg fun he => h ?_
  exact he ▸ List.mem_map_of_mem hb

/-- A change at an id that no block had before is one of the new blocks only. -/
theorem change_put {id : String} (h : id ∉ c.target.ids) (bs : List (Block String))
    (supply : Supply) (f : Block String → Block String) :
    (c.put bs supply).change id f = c.put (bs.map fun b => if b.id = id then f b else b) supply := by
  simp [change, put, Target.update, map_change_of_not_mem h f]

/-- The block of an id is told its parent. -/
def told (first : Option String) (parent : String) (b : Block String) : Block String :=
  if first = some b.id ∧ b.id ≠ "" then { b with parent := some parent } else b

theorem tell_put {first : Option String} (h : ∀ id ∈ first, id ∉ c.target.ids)
    (bs : List (Block String)) (supply : Supply) (parent : String) :
    (c.put bs supply).tell first parent = c.put (bs.map (told first parent)) supply := by
  have same (hb : ∀ b : Block String, told first parent b = b) : bs.map (told first parent) = bs := by
    rw [funext hb, List.map_id']
  cases first with
  | none => rw [same fun b => rfl, tell]
  | some first =>
    by_cases he : first = ""
    · rw [same fun b => if_neg ?_, tell, if_pos he]
      grind
    · rw [tell, if_neg he, change_put c (h first rfl)]
      congr 1
      refine List.map_congr_left fun b _ => ?_
      simp only [told]
      grind

/-- In the blocks of a chain the first one gets the number of its container as parent. -/
theorem assign_hang {bs : List (Block Nat)} {before : List String}
    (hn : Numbered before.length (bs.map Block.id)) (hc : Closed bs) {first : Option Nat}
    (hf : first.toList ⊆ bs.map Block.id) (id : String) :
    let ids := before ++ c.nextIds bs.length
    (bs.map (Tree.hang first ids.length)).map (assignBlock (ids ++ [id])) =
      (bs.map (assignBlock ids)).map (told (first.map (idOf ids)) id) := by
  intro ids
  have hlen : before.length + bs.length = ids.length := (c.length_behind before bs.length).symm
  have hsame (b : Block Nat) (hb : b ∈ bs) : assignBlock (ids ++ [id]) b = assignBlock ids b :=
    assignBlock_congr fun k hk => idOf_append_left [id] (hlen ▸ below_of_closed hn hc b hb k hk)
  have hfirst (b : Block Nat) (hb : b ∈ bs) :
      first.map (idOf ids) = some (idOf ids b.id) ↔ some b.id = first := by
    cases first with
    | none => simp
    | some f =>
      have hfm := mem_range_of_numbered hn (hf (List.mem_singleton.2 rfl))
      have hbm := mem_range_of_numbered hn (List.mem_map_of_mem hb)
      rw [Option.map_some, Option.some_inj, Option.some_inj]
      refine ⟨fun h => (c.behind_injective before hfm hbm h).symm, fun h => by rw [h]⟩
  rw [List.map_map, List.map_map]
  refine List.map_congr_left fun b hb => ?_
  have hid : idOf (ids ++ [id]) b.id = idOf ids b.id := congrArg Block.id (hsame b hb)
  have hparent : (assignBlock ids b).id = idOf ids b.id := rfl
  simp only [Function.comp_apply, told, Tree.hang, hparent, hfirst b hb]
  by_cases h : some b.id = first
  · rw [if_pos h, assign_parent, hsame b hb, hid, Option.map_some, idOf_length]
    by_cases he : idOf ids b.id = ""
    · rw [if_pos he, if_neg fun h => h.2 he]
      simp [assignBlock, he]
    · rw [if_neg he, if_pos ⟨h, he⟩]
      rfl
  · rw [if_neg h, if_neg fun hh => h hh.1, hsame b hb]

/-- The container itself, whose first block inside has an id. -/
theorem assign_container {ids : List String} {first : Option Nat}
    (hf : ∀ k ∈ first, k < ids.length) (id : String) (opcode : String) {inputs : List (Input Nat)}
    (hi : inputs.filterMap Input.mouth? = []) :
    assignBlock (ids ++ [id])
        { id := ids.length, opcode := some opcode, inputs := inputs ++ [.substack "SUBSTACK" first] } =
      { id, opcode := some opcode
        inputs := inputs.map (assignInput []) ++ [.substack "SUBSTACK" (first.map (idOf ids))] } := by
  have hinputs : inputs.map (assignInput (ids ++ [id])) = inputs.map (assignInput []) :=
    map_assignInput_congr (by simp [hi])
  have hfirst : first.map (idOf (ids ++ [id])) = first.map (idOf ids) :=
    Option.map_congr fun k hk => idOf_append_left [id] (hf k hk)
  simp [assignBlock, idOf_length, hinputs, assignInput, Input.substack, hfirst]

/-- The block that a container is built with, told that it is its own parent. -/
theorem told_of_not_mem {first : Option String} {ids : List String} (h : ∀ id ∈ first, id ∈ ids)
    {b : Block String} (hb : b.id ∉ ids) (parent : String) : told first parent b = b :=
  if_neg fun ht => hb (h b.id ht.1)

section
variable {chain : Chain} {before ids : List String}
  (hn : Numbered before.length (chain.blocks.map Block.id)) (hc : chain.Closed)
  (hids : ids = before ++ c.nextIds chain.blocks.length)
include hn hc hids

theorem first_below : ∀ k ∈ chain.first, k < ids.length := by
  intro k hk
  have hm := mem_range_of_numbered hn (hc.first (Option.mem_toList.2 hk))
  rw [hids, length_behind]
  exact (List.mem_range'_1.1 hm).2

/-- The first block of a chain that has just been added is a new one. -/
theorem first_mem_behind : ∀ id ∈ chain.first.map (idOf ids), id ∈ c.nextIds chain.blocks.length := by
  intro id hid
  obtain ⟨k, hk, rfl⟩ := Option.map_eq_some_iff.1 hid
  rw [hids]
  exact c.mem_behind before (mem_range_of_numbered hn (hc.first (Option.mem_toList.2 hk)))

omit hn hc

theorem create_behind (opcode : Option String) (inputs : List (Input String)) :
    (c.addBehind before chain.blocks).create opcode inputs [] =
      (c.put (chain.blocks.map (assignBlock ids) ++
          [{ id := (c.drawBehind before chain.blocks).1, opcode, inputs }])
        (c.drawBehind before chain.blocks).2, (c.drawBehind before chain.blocks).1) := by
  rw [create_eq, ← put_put, hids]
  rfl

include hn

/-- The chain that a container encloses keeps its ids, and the container gets one more. -/
theorem segmentBehind_enclose (he : chain.error = none) (opcode : Option String)
    (inputs : List (Input Nat)) :
    c.segmentBehind before (chain.enclose before.length opcode inputs) =
      let container : Block Nat :=
        { id := ids.length, opcode, inputs := inputs ++ [.substack "SUBSTACK" chain.first] }
      ⟨c.put ((chain.blocks.map (Tree.hang chain.first ids.length) ++ [container]).map
          (assignBlock (ids ++ [(c.drawBehind before chain.blocks).1])))
        (c.drawBehind before chain.blocks).2, chain.notes,
        .ok (some (c.drawBehind before chain.blocks).1)⟩ := by
  have hlen : before.length + chain.blocks.length = ids.length := by
    rw [hids, length_behind]
  obtain ⟨hnext, hrest⟩ := c.take_concat hn
  rw [← hids] at hnext
  rw [enclose_eq he, hlen]
  simp only [segmentBehind, Segment.blocks, Segment.size, Option.toList_some, List.length_append,
    List.length_map, List.length_singleton, addBehind_eq, hnext, hrest, Option.map_some, result,
    idOf_length]

end

/-- A container that is built around a chain is the chain enclosed. -/
theorem buildAround_eq {chain : Chain} {before ids : List String}
    (hn : Numbered before.length (chain.blocks.map Block.id)) (hc : chain.Closed)
    (he : chain.error = none) (hids : ids = before ++ c.nextIds chain.blocks.length)
    (opcode : String) {inputs : List (Input Nat)} (hi : inputs.filterMap Input.mouth? = []) :
    (c.addBehind before chain.blocks).buildAround opcode inputs (chain.first.map (idOf ids)) =
      { c.segmentBehind before (chain.enclose before.length (some opcode) inputs) with notes := [] } := by
  have hfirst := c.first_mem_behind hn hc hids
  have hnew : ∀ id ∈ chain.first.map (idOf ids), id ∉ c.target.ids := fun id hid =>
    c.nextIds_not_mem (hfirst id hid)
  have hhang := c.assign_hang hn hc.blocks hc.first (c.drawBehind before chain.blocks).1
  rw [← hids] at hhang
  have hown := assign_container (c.first_below hn hc hids) (c.drawBehind before chain.blocks).1
    opcode hi
  rw [c.segmentBehind_enclose hn hids he, buildAround, c.create_behind hids]
  simp only [tell_put c hnew, List.map_append, List.map_singleton, hhang, hown]
  rw [told_of_not_mem hfirst (c.drawBehind_not_mem hn)]

theorem buildAround_andThen {chain : Chain} {before : List String}
    (hn : Numbered before.length (chain.blocks.map Block.id)) (hc : chain.Closed) (opcode : String)
    {inputs : List (Input Nat)} (hi : inputs.filterMap Input.mouth? = []) (last : Option String) :
    (Compiled.mk (c.addBehind before chain.blocks) chain.notes (result chain.error
        (chain.first.map (idOf (before ++ c.nextIds chain.blocks.length)), last))).andThen
        (fun c ends => c.buildAround opcode inputs ends.1) =
      c.segmentBehind before (chain.enclose before.length (some opcode) inputs) := by
  cases he : chain.error with
  | some e => simp [Compiled.andThen, result, segmentBehind, Chain.enclose, he, Segment.blocks]
  | none =>
    simp only [Compiled.andThen, result, c.buildAround_eq hn hc he rfl opcode hi]
    simp [enclose_eq he, segmentBehind]

-- ---------------------------------------------------------------------------
-- Chains
-- ---------------------------------------------------------------------------

@[simp] theorem chain_none (last : Option String) : c.chain last none = c := by
  cases last <;> rfl

@[simp] theorem chain_supply (last next : Option String) : (c.chain last next).supply = c.supply := by
  unfold chain
  split <;> rfl

@[simp] theorem chain_ids (last next : Option String) :
    (c.chain last next).target.ids = c.target.ids := by
  unfold chain
  split
  · exact Target.update_ids c.target _ fun _ => rfl
  · rfl

@[simp] theorem chain_nextIds (last next : Option String) (n : Nat) :
    (c.chain last next).nextIds n = c.nextIds n := by
  simp [nextIds]

@[simp] theorem chain_restIds (last next : Option String) (n : Nat) :
    (c.chain last next).restIds n = c.restIds n := by
  simp [restIds]

/-- The block of an id is chained to the next one. -/
def chained (last next : Option String) (b : Block String) : Block String :=
  if last = some b.id ∧ next ≠ none then { b with next } else b

/-- Chaining a block that was there leaves the new ones as they are. -/
theorem chain_put_old {last : Option String} (next : Option String) {bs : List (Block String)}
    (h : ∀ id ∈ last, id ∉ bs.map Block.id) (supply : Supply) :
    (c.put bs supply).chain last next = (c.chain last next).put bs supply := by
  cases last with
  | none => rfl
  | some last =>
    cases next with
    | none => rfl
    | some next => simp [chain, change, put, Target.update, map_change_of_not_mem (h last rfl)]

/-- Chaining a new block leaves those that were there as they are. -/
theorem chain_put_new {last : Option String} (next : Option String) {bs : List (Block String)}
    (h : ∀ id ∈ last, id ∉ c.target.ids) (supply : Supply) :
    (c.put bs supply).chain last next = c.put (bs.map (chained last next)) supply := by
  have same (hb : ∀ b : Block String, chained last next b = b) : bs.map (chained last next) = bs := by
    rw [funext hb, List.map_id']
  cases last with
  | none =>
    rw [same fun b => if_neg (by simp)]
    rfl
  | some last =>
    cases next with
    | none => rw [same fun b => if_neg (by simp), chain_none]
    | some next =>
      rw [chain, change_put c (h last rfl)]
      congr 1
      exact List.map_congr_left fun b _ => by simp [chained, eq_comm]

/-- What comes of adding a chain, behind a last block that is chained to it. -/
def chainBehind (before : List String) (first last : Option String) (chain : Chain) :
    Compiled (Option String × Option String) :=
  let ids := before ++ c.nextIds chain.blocks.length
  ⟨(c.chain last (chain.first.map (idOf ids))).addBehind before chain.blocks, chain.notes,
    result chain.error
      (first.or (chain.first.map (idOf ids)), (chain.last.map (idOf ids)).or last)⟩

theorem chain_addBehind {last : Option String} (next : Option String) {before : List String}
    {bs : List (Block Nat)} (hn : Numbered before.length (bs.map Block.id))
    (hl : ∀ id ∈ last, id ∈ c.target.ids) :
    (c.addBehind before bs).chain last next = (c.chain last next).addBehind before bs := by
  rw [addBehind_eq, chain_put_old, addBehind_eq, chain_nextIds, chain_restIds]
  intro id hid hm
  rw [map_id_assignBlock, hn, List.length_map, map_idOf_behind] at hm
  exact c.nextIds_not_mem hm (hl id hid)

/-- Blocks that are added have ids of their own. -/
theorem addBehind_injective {bs : List (Block Nat)} {before : List String}
    (hn : Numbered before.length (bs.map Block.id)) {a b : Block Nat} (ha : a ∈ bs) (hb : b ∈ bs)
    (h : idOf (before ++ c.nextIds bs.length) a.id = idOf (before ++ c.nextIds bs.length) b.id) :
    a.id = b.id :=
  c.behind_injective before (mem_range_of_numbered hn (List.mem_map_of_mem ha))
    (mem_range_of_numbered hn (List.mem_map_of_mem hb)) h

theorem own_id_ne {inner : List (Block Nat)} {b x : Block Nat} {n : Nat}
    (hn : Numbered n ((inner ++ [b]).map Block.id)) (hx : x ∈ inner) : b.id ≠ x.id := by
  have hnodup : ((inner ++ [b]).map Block.id).Nodup := by
    rw [hn]
    exact List.nodup_range'
  rw [List.map_append, List.nodup_append] at hnodup
  exact (hnodup.2.2 x.id (List.mem_map_of_mem hx) b.id (by simp)).symm

/-- The own block of a segment, chained to what follows it. -/
theorem chain_segment {inner : List (Block Nat)} {b : Block Nat} {before : List String}
    (hn : Numbered before.length ((inner ++ [b]).map Block.id)) (hc : Closed (inner ++ [b]))
    (hb : b.next = none) (next : Option Nat) (more : List String) :
    let ids := before ++ c.nextIds (inner ++ [b]).length
    (c.addBehind before (inner ++ [b])).chain (some (idOf ids b.id))
        (next.map (idOf (ids ++ more))) =
      c.put ((inner ++ [{ b with next }]).map (assignBlock (ids ++ more)))
        (c.restIds (inner ++ [b]).length) := by
  intro ids
  have hlast : b ∈ inner ++ [b] := List.mem_append_right _ (List.mem_singleton.2 rfl)
  have hlen : before.length + (inner ++ [b]).length = ids.length :=
    (c.length_behind before _).symm
  have hinner : (inner.map (assignBlock ids)).map (chained (some (idOf ids b.id))
      (next.map (idOf (ids ++ more)))) = inner.map (assignBlock ids) := by
    rw [List.map_map]
    refine List.map_congr_left fun x hx => if_neg fun h => own_id_ne hn hx ?_
    exact c.addBehind_injective hn hlast (List.mem_append_left _ hx) (Option.some.inj h.1)
  have hown : chained (some (idOf ids b.id)) (next.map (idOf (ids ++ more))) (assignBlock ids b) =
      { assignBlock ids b with next := next.map (idOf (ids ++ more)) } := by
    cases next <;> simp [chained, assignBlock, hb]
  have hassign := (below_of_closed hn hc).assign_append (Nat.le_of_eq hlen) more
  rw [List.map_append, List.map_append] at hassign
  obtain ⟨hin, hlst⟩ := List.append_inj' hassign rfl
  rw [addBehind_eq, chain_put_new]
  · rw [List.map_append, List.map_append, hinner, List.map_singleton, List.map_singleton, hown,
      List.map_append, hin, List.map_singleton, ← List.singleton_inj.1 hlst]
    rfl
  · rintro _ ⟨⟩
    exact c.nextIds_not_mem
      (c.mem_behind before (mem_range_of_numbered hn (List.mem_map_of_mem hlast)))

theorem length_own (inner rest : List (Block Nat)) (b b' : Block Nat) :
    (inner ++ b' :: rest).length = (inner ++ [b]).length + rest.length := by
  simp only [List.length_append, List.length_cons, List.length_nil]
  omega

section
variable {inner : List (Block Nat)} {b : Block Nat} {before ids more : List String}
  (hn : Numbered before.length ((inner ++ [b]).map Block.id)) {rest : List (Block Nat)}
  (hids : ids = before ++ c.nextIds (inner ++ [b]).length)
  (hmore : more = (c.addBehind before (inner ++ [b])).nextIds rest.length)
include hn hids

theorem own_mem_behind : idOf ids b.id ∈ (c.addBehind before (inner ++ [b])).target.ids := by
  subst hids
  have hb : b.id ∈ (inner ++ [b]).map Block.id := by simp
  rw [addBehind_ids hn]
  exact List.mem_append_right _ (c.mem_behind before (mem_range_of_numbered hn hb))

include hmore

theorem append_behind : ids ++ more = before ++ c.nextIds ((inner ++ [b]).length + rest.length) := by
  rw [hids, hmore, (take_behind hn rest.length).1, List.append_assoc]

/-- The chain behind an own block is added when that block has been chained to it. -/
theorem chain_segment_addBehind (hc : Closed (inner ++ [b])) (hb : b.next = none)
    (next : Option Nat) :
    ((c.addBehind before (inner ++ [b])).chain (some (idOf ids b.id))
        (next.map (idOf (ids ++ more)))).addBehind ids rest =
      c.addBehind before (inner ++ { b with next } :: rest) := by
  have happend := c.append_behind hn hids hmore
  have hrest := (take_behind (c := c) hn rest.length).2
  subst hids
  rw [addBehind_eq _ _ rest, chain_nextIds, chain_restIds, ← hmore, ← hrest,
    c.chain_segment hn hc hb, put_put, ← List.map_append, happend, List.append_assoc inner,
    addBehind_eq c _ (inner ++ _ :: rest), length_own inner rest b]
  rfl

end

/-- Adding a segment and then a chain, with the own block of the segment chained at both ends, is
adding the chain with the segment in front. -/
theorem chainBehind_before {inner : List (Block Nat)} {b : Block Nat} {before ids : List String}
    (hn : Numbered before.length ((inner ++ [b]).map Block.id)) (hc : Closed (inner ++ [b]))
    (hb : b.next = none) {last : Option String} (hl : ∀ id ∈ last, id ∈ c.target.ids)
    (hids : ids = before ++ c.nextIds (inner ++ [b]).length) (first : Option String)
    (notes : List Note) (rest : Chain) :
    let id := idOf ids b.id
    let r := ((c.addBehind before (inner ++ [b])).chain last (some id)).chainBehind ids
      (first.or (some id)) (some id) rest
    (⟨r.state, notes ++ r.notes, r.result⟩ : Compiled (Option String × Option String)) =
      c.chainBehind before first last (Segment.before { inner, own := some b, notes } rest) := by
  intro id r
  obtain ⟨more, hmore⟩ : ∃ more,
    more = (c.addBehind before (inner ++ [b])).nextIds rest.blocks.length := ⟨_, rfl⟩
  have happend := c.append_behind hn hids hmore
  have hid : idOf (ids ++ more) b.id = id := by
    have hlt := below_of_closed hn hc b (by simp) b.id List.mem_cons_self
    rw [← c.length_behind before, ← hids] at hlt
    exact idOf_append_left more hlt
  -- The blocks that were there are chained first, which leaves the ids to come as they are.
  have hids' : ids = before ++ (c.chain last (some id)).nextIds (inner ++ [b]).length := by
    rw [chain_nextIds, hids]
  have hmore' : more = ((c.chain last (some id)).addBehind before (inner ++ [b])).nextIds
      rest.blocks.length := by
    rw [← c.chain_addBehind _ hn hl, chain_nextIds, hmore]
  have hstate := chain_segment_addBehind _ hn hids' hmore' hc hb rest.first
  rw [← c.chain_addBehind _ hn hl] at hstate
  simp only [r, chainBehind, Segment.before, chain_nextIds, ← hmore,
    length_own inner rest.blocks b { b with next := rest.first }, ← happend, hid, Option.map_some]
  rw [hstate]
  cases first <;> cases rest.last <;> simp [hid]

/-- A segment in front of a chain, where the chain is built behind the segment. -/
theorem before_eq_build {s : Segment} {rest : Chain} {before : List String} {last : Option String}
    (hn : Numbered before.length (s.blocks.map Block.id)) (hc : Closed s.blocks)
    (hempty : s.own = none → s.error = none → s.inner = []) (hnext : ∀ b ∈ s.own, b.next = none)
    (first : Option String) (hl : ∀ id ∈ last, id ∈ c.target.ids)
    (build : Compilation → Option String → Option String → Compiled (Option String × Option String))
    (hb : ∀ c before' first last, before'.length = before.length + s.size →
      (∀ id ∈ last, id ∈ c.target.ids) → build c first last = c.chainBehind before' first last rest) :
    ((c.segmentBehind before s).andThen fun c own =>
      match own with
      | none => build c first last
      | some id => build (c.chain last (some id)) (first.or (some id)) (some id)) =
      c.chainBehind before first last (s.before rest) := by
  obtain ⟨inner, own, notes, error⟩ := s
  cases error with
  | some e =>
    simp [Compiled.andThen, segmentBehind, result, chainBehind, Segment.before]
  | none =>
    cases own with
    | none =>
      obtain rfl : inner = [] := hempty rfl rfl
      have hrest := hb c before first last rfl hl
      simp [Compiled.andThen, segmentBehind, result, Segment.blocks, addBehind_nil, hrest,
        chainBehind, Segment.before]
    | some b =>
      have hn : Numbered before.length ((inner ++ [b]).map Block.id) := hn
      obtain ⟨ids, hids⟩ : ∃ ids, ids = before ++ c.nextIds (inner ++ [b]).length := ⟨_, rfl⟩
      have hlast : ∀ id ∈ some (idOf ids b.id),
          id ∈ ((c.addBehind before (inner ++ [b])).chain last (some (idOf ids b.id))).target.ids := by
        rintro _ ⟨⟩
        rw [chain_ids]
        exact c.own_mem_behind hn hids
      have hlen : ids.length = before.length + (inner ++ [b]).length := by rw [hids, length_behind]
      have hrest := hb _ ids (first.or (some (idOf ids b.id))) _ hlen hlast
      have hbefore := c.chainBehind_before hn hc (hnext b rfl) hl hids first notes rest
      simp only [Compiled.andThen, segmentBehind, result, Segment.blocks, Segment.size,
        Option.toList_some, Option.map_some, ← hids]
      rw [hrest]
      exact hbefore

-- ---------------------------------------------------------------------------
-- Statements
-- ---------------------------------------------------------------------------

theorem own_next (n : Nat) (s : Stmt) : ∀ b ∈ (lowerStmt n s).own, b.next = none := by
  have unlinked {segment : Segment} (hs : segment.IsOwn) : ∀ b ∈ segment.own, b.next = none := by
    intro b hb
    rw [(hs.own b hb).2]
  have enclosed (chain : Chain) (opcode : String) (inputs : List (Input Nat)) :
      ∀ b ∈ (chain.enclose n (some opcode) inputs).own, b.next = none := by
    cases he : chain.error with
    | some e => simp [Chain.enclose, he]
    | none => simp [enclose_eq he]
  cases s with
  | event t => exact unlinked (lowerTrigger_isOwn n t)
  | call name args duration => exact unlinked (lowerCall_isOwn n name args duration)
  | repeatTimes | forever | branch => exact enclosed _ _ _
  | awaitUntil => exact unlinked (single_isOwn n _ _ rfl)
  | empty | program => simp [lowerStmt]

theorem inner_of_ignored {n : Nat} {s : Stmt} (ho : (lowerStmt n s).own = none)
    (he : (lowerStmt n s).error = none) : (lowerStmt n s).inner = [] := by
  have h := mute_ignored ((lowerStmt_ignored_iff n s).1 ⟨ho, he⟩) n
  exact congrArg Segment.inner h

/-- What is built around the chain of a body comes to the container. -/
theorem container_eq_build {before : List String} {body : List Stmt}
    (h : c.buildAll none none body = c.chainBehind before none none (lowerAll before.length body))
    (opcode : String) {inputs : List (Input Nat)} (hi : inputs.filterMap Input.mouth? = []) :
    (c.buildAll none none body).andThen (fun c ends => c.buildAround opcode inputs ends.1) =
      c.segmentBehind before
        ((lowerAll before.length body).enclose before.length (some opcode) inputs) := by
  rw [h]
  exact c.buildAround_andThen (lowerAll_numbered _ body) (lowerAll_closed _ body) opcode hi _

mutual
theorem build_eq (c : Compilation) (before : List String) :
    (s : Stmt) → c.build s = c.segmentBehind before (lowerStmt before.length s)
  | .event t => by
    rw [build, c.buildOwn_eq (lowerTrigger_isOwn 0 t) before, lowerTrigger_renumber]
    rfl
  | .repeatTimes _ body =>
    c.container_eq_build (buildAll_eq c before none none nofun body) "control_repeat" rfl
  | .forever body =>
    c.container_eq_build (buildAll_eq c before none none nofun body) "control_forever" rfl
  | .branch condition body alternate => by
    have hi : [Input.condition "CONDITION" condition].filterMap Input.mouth? = ([] : List Nat) := rfl
    rw [build, c.container_eq_build (buildAll_eq c before none none nofun body) "control_if" hi]
    rfl
  | .awaitUntil _ => c.buildOwn_eq (single_isOwn 0 _ _ rfl) before
  | .call name args duration => by
    rw [build, c.buildOwn_eq (lowerCall_isOwn 0 name args duration) before, lowerCall_renumber]
    rfl
  | .empty => c.buildOwn_eq (empty_isOwn [] none) before
  | .program _ => c.buildOwn_eq (empty_isOwn [] (some .nestedProgram)) before
/-- What is built comes to what is lowered, behind any numbers that have ids. -/
theorem buildAll_eq (c : Compilation) (before : List String) (first last : Option String)
    (hl : ∀ id ∈ last, id ∈ c.target.ids) :
    (ss : List Stmt) → c.buildAll first last ss =
      c.chainBehind before first last (lowerAll before.length ss)
  | [] => by
    simp [buildAll, chainBehind, lowerAll, addBehind_nil, result]
  | s :: ss => by
    rw [buildAll, build_eq c before s]
    exact c.before_eq_build (lowerStmt_numbered _ s) (lowerStmt_closed _ s) inner_of_ignored
      (own_next _ s) first hl (fun c first last => c.buildAll first last ss)
      fun c before' first last hlen hl => hlen ▸ buildAll_eq c before' first last hl ss
end

/-- Building the block of a statement, with those of its body. -/
theorem statement_eq_build (s : Stmt) : c.statement s = c.build s :=
  (build_eq c [] s).symm

/-- Building a chain from nothing. -/
theorem statements_eq_build (ss : List Stmt) : c.statements ss = c.buildAll none none ss := by
  rw [buildAll_eq c [] none none nofun ss]
  simp only [chainBehind, List.nil_append, Option.or_none]
  rfl

end Compilation

end Lia
