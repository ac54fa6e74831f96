import Mathlib.Data.List.Nodup
import Lia.Proofs.Lowering.Links

/-!
# Blocks behind others

Blocks that are added later have numbers behind those of the blocks that are there. They get the
ids that come next (`Compilation.take_behind`), each its own (`Compilation.behind_injective`), and
the ids of the numbers before them do not matter but for their count (`Below.assign_append`).
-/

namespace Lia

open Lowering

-- ---------------------------------------------------------------------------
-- More ids than numbers
-- ---------------------------------------------------------------------------

/-- Drawing some ids and then more is drawing them all. -/
theorem Supply.take_add (s : Supply) (used : List String) (m n : Nat) :
    s.take used (m + n) =
      ((s.take used m).1 ++ ((s.take used m).2.take (used ++ (s.take used m).1) n).1,
        ((s.take used m).2.take (used ++ (s.take used m).1) n).2) := by
  induction m generalizing s used with
  | zero => simp [take]
  | succ m ih =>
    rw [Nat.succ_add_eq_add_succ, Nat.add_succ]
    simp [take, ih]

namespace Lowering

/-- The blocks have and know only numbers below this one. -/
def Below (m : Nat) (bs : List (Block Nat)) : Prop := ∀ b ∈ bs, ∀ k ∈ b.id :: b.known, k < m

theorem assignInput_congr {ids ids' : List String} {i : Input Nat}
    (h : ∀ k ∈ i.mouth?, idOf ids k = idOf ids' k) : assignInput ids i = assignInput ids' i := by
  obtain ⟨name, content⟩ := i
  cases content with
  | shadow => rfl
  | mouth first =>
    cases first with
    | none => rfl
    | some k => simp [assignInput, h k rfl]

theorem map_assignInput_congr {ids ids' : List String} {inputs : List (Input Nat)}
    (h : ∀ k ∈ inputs.filterMap Input.mouth?, idOf ids k = idOf ids' k) :
    inputs.map (assignInput ids) = inputs.map (assignInput ids') :=
  List.map_congr_left fun i hi => assignInput_congr fun k hk =>
    h k (List.mem_filterMap.2 ⟨i, hi, hk⟩)

theorem assignBlock_congr {ids ids' : List String} {b : Block Nat}
    (h : ∀ k ∈ b.id :: b.known, idOf ids k = idOf ids' k) : assignBlock ids b = assignBlock ids' b := by
  have hknown : ∀ k ∈ b.known, idOf ids k = idOf ids' k := fun k hk => h k (List.mem_cons_of_mem _ hk)
  have hlink (link : Option Nat) (hl : link.toList ⊆ b.known) :
      link.map (idOf ids) = link.map (idOf ids') :=
    Option.map_congr fun k hk => hknown k (hl (Option.mem_toList.2 hk))
  have hinputs : b.inputs.map (assignInput ids) = b.inputs.map (assignInput ids') :=
    map_assignInput_congr fun k hk =>
      hknown k (List.mem_append_right _ (List.mem_append_right _ hk))
  have hparent := hlink b.parent (List.subset_append_left _ _)
  have hnext := hlink b.next
    (List.subset_append_of_subset_right _ (List.subset_append_left _ _))
  have hid := h b.id List.mem_cons_self
  simp only [assignBlock, hid, hinputs, hparent, hnext]

theorem idOf_append_left {ids : List String} (more : List String) {k : Nat} (h : k < ids.length) :
    idOf (ids ++ more) k = idOf ids k := by
  rw [idOf, idOf, List.getElem?_append_left h]

/-- A block with another parent has that one among the ids, if it has an id itself. -/
theorem assign_parent (ids : List String) (b : Block Nat) (parent : Option Nat) :
    assignBlock ids { b with parent } =
      { assignBlock ids b with
        parent := if idOf ids b.id = "" then none else parent.map (idOf ids) } := rfl

theorem Below.assign_append {m : Nat} {bs : List (Block Nat)} (h : Below m bs) {ids : List String}
    (hm : m ≤ ids.length) (more : List String) :
    bs.map (assignBlock (ids ++ more)) = bs.map (assignBlock ids) :=
  List.map_congr_left fun b hb => assignBlock_congr fun k hk =>
    idOf_append_left more (Nat.lt_of_lt_of_le (h b hb k hk) hm)

/-- The numbers of blocks go on from the first, as many as there are blocks. -/
theorem mem_range_of_numbered {n k : Nat} {bs : List (Block Nat)}
    (hn : Numbered n (bs.map Block.id)) (hk : k ∈ bs.map Block.id) : k ∈ List.range' n bs.length := by
  rwa [hn, List.length_map] at hk

theorem below_of_closed {n : Nat} {bs : List (Block Nat)} (hn : Numbered n (bs.map Block.id))
    (hc : Closed bs) : Below (n + bs.length) bs := by
  have hid : ∀ k ∈ bs.map Block.id, k < n + bs.length := fun k hk =>
    (List.mem_range'_1.1 (mem_range_of_numbered hn hk)).2
  intro b hb k hk
  obtain rfl | hk := List.mem_cons.1 hk
  · exact hid _ (List.mem_map_of_mem hb)
  · exact hid k (hc b hb hk)

theorem idOf_length (before : List String) (id : String) :
    idOf (before ++ [id]) before.length = id := by
  simp [idOf]

end Lowering

-- ---------------------------------------------------------------------------
-- Ids that come next
-- ---------------------------------------------------------------------------

namespace Compilation

variable (c : Compilation)

/-- The ids that as many new blocks get, and what remains of the supply. -/
def nextIds (n : Nat) : List String := (c.supply.take c.target.ids n).1

def restIds (n : Nat) : Supply := (c.supply.take c.target.ids n).2

theorem nextIds_one : c.nextIds 1 = [(c.supply.draw c.target.ids).1] := rfl

theorem restIds_one : c.restIds 1 = (c.supply.draw c.target.ids).2 := rfl

theorem nextIds_length (n : Nat) : (c.nextIds n).length = n := Supply.take_length _ _ _

theorem length_behind (before : List String) (n : Nat) :
    (before ++ c.nextIds n).length = before.length + n := by
  rw [List.length_append, nextIds_length]

/-- The ids of blocks whose numbers go on behind the others. -/
theorem map_idOf_behind (before : List String) (n : Nat) :
    (List.range' before.length n).map (idOf (before ++ c.nextIds n)) = c.nextIds n := by
  apply List.ext_getElem
  · simp [nextIds_length]
  · intro i hi _
    have hi : i < (c.nextIds n).length := by simpa [nextIds_length] using hi
    simp [idOf, hi]

theorem mem_behind (before : List String) {n k : Nat} (hk : k ∈ List.range' before.length n) :
    idOf (before ++ c.nextIds n) k ∈ c.nextIds n := by
  have h := List.mem_map_of_mem (f := idOf (before ++ c.nextIds n)) hk
  rwa [map_idOf_behind] at h

theorem nextIds_not_mem {n : Nat} {id : String} (h : id ∈ c.nextIds n) : id ∉ c.target.ids :=
  Supply.take_not_mem _ _ _ h

theorem behind_injective (before : List String) {n i j : Nat}
    (hi : i ∈ List.range' before.length n) (hj : j ∈ List.range' before.length n)
    (h : idOf (before ++ c.nextIds n) i = idOf (before ++ c.nextIds n) j) : i = j := by
  have hnodup : ((List.range' before.length n).map (idOf (before ++ c.nextIds n))).Nodup := by
    rw [map_idOf_behind]
    exact Supply.take_nodup _ _ _
  exact List.inj_on_of_nodup_map hnodup hi hj h

-- ---------------------------------------------------------------------------
-- Adding blocks
-- ---------------------------------------------------------------------------

/-- Puts blocks behind the others and goes on with another supply. -/
def put (bs : List (Block String)) (supply : Supply) : Compilation :=
  { c with supply, target := { c.target with blocks := c.target.blocks ++ bs } }

theorem put_nil : c.put [] c.supply = c := by
  simp [put]

theorem put_put (as bs : List (Block String)) (supply supply' : Supply) :
    (c.put as supply).put bs supply' = c.put (as ++ bs) supply' := by
  simp [put]

theorem put_ids (bs : List (Block String)) (supply : Supply) :
    (c.put bs supply).target.ids = c.target.ids ++ bs.map Block.id := by
  simp [put, Target.ids]

/-- Adds numbered blocks, where the numbers before them have the given ids. -/
def addBehind (before : List String) (bs : List (Block Nat)) : Compilation :=
  c.put (bs.map (assignBlock (before ++ c.nextIds bs.length))) (c.restIds bs.length)

theorem addBehind_eq (before : List String) (bs : List (Block Nat)) : c.addBehind before bs =
    c.put (bs.map (assignBlock (before ++ c.nextIds bs.length))) (c.restIds bs.length) := rfl

theorem addBehind_nil (before : List String) : c.addBehind before [] = c := c.put_nil

section
variable {c} {before : List String} {bs : List (Block Nat)}
  (hn : Numbered before.length (bs.map Block.id))
include hn

theorem addBehind_ids :
    (c.addBehind before bs).target.ids = c.target.ids ++ c.nextIds bs.length := by
  rw [addBehind, put_ids, map_id_assignBlock, hn, List.length_map, map_idOf_behind]

theorem take_behind (n : Nat) :
    c.nextIds (bs.length + n) = c.nextIds bs.length ++ (c.addBehind before bs).nextIds n ∧
      c.restIds (bs.length + n) = (c.addBehind before bs).restIds n := by
  have hadd := c.supply.take_add c.target.ids bs.length n
  simp only [nextIds, restIds, addBehind_ids hn, hadd]
  exact ⟨rfl, rfl⟩

end

/-- What the next block gets when these have been added. -/
def drawBehind (before : List String) (bs : List (Block Nat)) : String × Supply :=
  (c.addBehind before bs).supply.draw (c.addBehind before bs).target.ids

theorem take_concat {before : List String} {bs : List (Block Nat)}
    (hn : Numbered before.length (bs.map Block.id)) :
    before ++ c.nextIds (bs.length + 1) =
        before ++ c.nextIds bs.length ++ [(c.drawBehind before bs).1] ∧
      c.restIds (bs.length + 1) = (c.drawBehind before bs).2 := by
  obtain ⟨hnext, hrest⟩ := take_behind (c := c) hn 1
  rw [hnext, hrest, nextIds_one, restIds_one, List.append_assoc]
  exact ⟨rfl, rfl⟩

theorem drawBehind_not_mem {before : List String} {bs : List (Block Nat)}
    (hn : Numbered before.length (bs.map Block.id)) :
    (c.drawBehind before bs).1 ∉ c.nextIds bs.length := by
  have hdrawn : (c.drawBehind before bs).1 ∉ (c.addBehind before bs).target.ids :=
    Supply.draw_not_mem _ _
  rw [addBehind_ids hn, List.mem_append, not_or] at hdrawn
  exact hdrawn.2

/-- What comes of adding a segment. -/
def segmentBehind (before : List String) (s : Segment) : Compiled (Option String) :=
  ⟨c.addBehind before s.blocks, s.notes,
    result s.error (s.own.map fun b => idOf (before ++ c.nextIds s.size) b.id)⟩

end Compilation

end Lia
