import Lia.Proofs.Lowering.Reading
import Lia.Proofs.Lowering.Stepwise
import Lia.Proofs.Value

/-!
# Places of scripts

The scripts of a program stand on a grid, in rows of so many columns. Only the block that a
script begins with has a place, and no two of them have the same unless a spacing is 0
(`Grid.place?_injective`). Main statement: where the script roots of a compiled program stand
by the records of its blocks (`compile_places`).
-/

namespace Lia

open Lowering

-- ---------------------------------------------------------------------------
-- Grids
-- ---------------------------------------------------------------------------

namespace Lowering.Grid

variable {g : Grid} {n m : Nat} {x y : Int}

theorem place?_of_columns (hg : g.maxColumns ≠ 0) (n : Nat) : g.place? n =
    some (Int.fmod n g.maxColumns * g.columnSpacing, Int.fdiv n g.maxColumns * g.rowSpacing) :=
  if_neg hg

/-- The column and the row tell the number, also where columns are counted downwards. -/
theorem place?_injective (hg : g.maxColumns ≠ 0) (hc : g.columnSpacing ≠ 0) (hr : g.rowSpacing ≠ 0)
    (h : g.place? n = g.place? m) : n = m := by
  rw [place?_of_columns hg, place?_of_columns hg] at h
  obtain ⟨hx, hy⟩ := Prod.mk.inj (Option.some.inj h)
  have hcolumn : Int.fmod n g.maxColumns = Int.fmod m g.maxColumns :=
    Int.eq_of_mul_eq_mul_right hc hx
  have hrow : Int.fdiv n g.maxColumns = Int.fdiv m g.maxColumns := Int.eq_of_mul_eq_mul_right hr hy
  refine Int.ofNat.inj ?_
  calc (n : Int) = Int.fmod n g.maxColumns + g.maxColumns * Int.fdiv n g.maxColumns :=
        (Int.fmod_add_mul_fdiv _ _).symm
    _ = Int.fmod m g.maxColumns + g.maxColumns * Int.fdiv m g.maxColumns := by rw [hcolumn, hrow]
    _ = m := Int.fmod_add_mul_fdiv _ _

theorem place?_bounds (hg : 0 < g.maxColumns) (hc : 0 < g.columnSpacing) (hr : 0 < g.rowSpacing)
    (h : g.place? n = some (x, y)) : 0 ≤ x ∧ x ≤ (g.maxColumns - 1) * g.columnSpacing ∧ 0 ≤ y := by
  rw [place?_of_columns (Int.ne_of_gt hg)] at h
  obtain ⟨rfl, rfl⟩ := Prod.mk.inj (Option.some.inj h)
  have hcolumn := Int.fmod_nonneg_of_pos n hg
  have hlast := Int.fmod_lt_of_pos n hg
  have hrow := Int.fdiv_nonneg (Int.natCast_nonneg n) (Int.le_of_lt hg)
  refine ⟨Int.mul_nonneg hcolumn (Int.le_of_lt hc), ?_, Int.mul_nonneg hrow (Int.le_of_lt hr)⟩
  exact Int.mul_le_mul_of_nonneg_right (Int.le_sub_one_of_lt hlast) (Int.le_of_lt hc)

end Lowering.Grid

-- ---------------------------------------------------------------------------
-- Blocks with a place
-- ---------------------------------------------------------------------------

namespace Block

/-- Where a block says that it is. -/
def place? (b : Block ι) : Option (Int × Int) :=
  match b.x, b.y with
  | some x, some y => some (x, y)
  | _, _ => none

theorem hang_place? [DecidableEq ι] (id : Option ι) (parent : ι) (b : Block ι) :
    (Tree.hang id parent b).place? = b.place? := by
  unfold Tree.hang
  split <;> rfl

theorem toValue_x (b : Block String) (top : Bool) :
    (b.toValue top).get? "x" = b.place?.map fun p => .int p.1 := by
  unfold toValue place?
  cases b.x <;> cases b.y <;> rfl

theorem toValue_y (b : Block String) (top : Bool) :
    (b.toValue top).get? "y" = b.place?.map fun p => .int p.2 := by
  unfold toValue place?
  cases b.x <;> cases b.y <;> rfl

end Block

-- ---------------------------------------------------------------------------
-- Statements
-- ---------------------------------------------------------------------------

namespace Lowering

/-- The blocks have no place. -/
def Unplaced (bs : List (Block Nat)) : Prop := ∀ b ∈ bs, b.place? = none

theorem unplaced_append {as bs : List (Block Nat)} :
    Unplaced (as ++ bs) ↔ Unplaced as ∧ Unplaced bs := List.forall_mem_append

theorem Segment.IsOwn.unplaced {s : Segment} (h : s.IsOwn) : Unplaced s.blocks := by
  intro b hb
  rw [Segment.blocks, h.inner, List.nil_append, Option.mem_toList] at hb
  rw [(h.own b hb).2]
  rfl

theorem enclose_unplaced {c : Chain} (h : Unplaced c.blocks) (n : Nat) (opcode : Option String)
    (inputs : List (Input Nat)) : Unplaced (c.enclose n opcode inputs).blocks := by
  cases he : c.error with
  | some e =>
    have hblocks : (c.enclose n opcode inputs).blocks = c.blocks := by
      simp [Chain.enclose, he, Segment.blocks]
    exact hblocks ▸ h
  | none =>
    rw [enclose_eq he]
    refine unplaced_append.2 ⟨fun b hb => ?_, fun b hb => ?_⟩
    · obtain ⟨b, hm, rfl⟩ := List.mem_map.1 hb
      rw [Block.hang_place?]
      exact h b hm
    · obtain rfl := List.mem_singleton.1 hb
      rfl

theorem before_unplaced {s : Segment} {c : Chain} (hs : Unplaced s.blocks)
    (hc : Unplaced c.blocks) : Unplaced (s.before c).blocks := by
  obtain ⟨hinner, hown⟩ := unplaced_append.1 hs
  unfold Segment.before
  split
  · exact hs
  · split
    next => exact unplaced_append.2 ⟨hinner, hc⟩
    next b ho =>
      have hb : b.place? = none := hown b (by simp [ho])
      exact unplaced_append.2 ⟨hinner, List.forall_mem_cons.2 ⟨hb, hc⟩⟩

mutual
theorem lowerStmt_unplaced (n : Nat) : (s : Stmt) → Unplaced (lowerStmt n s).blocks
  | .event t => (lowerTrigger_isOwn n t).unplaced
  | .repeatTimes _ body | .forever body | .branch _ body _ =>
    enclose_unplaced (lowerAll_unplaced n body) n _ _
  | .awaitUntil _ => (single_isOwn n _ _ rfl).unplaced
  | .call name args duration => (lowerCall_isOwn n name args duration).unplaced
  | .empty => (empty_isOwn [] none).unplaced
  | .program _ => (empty_isOwn [] (some .nestedProgram)).unplaced
/-- No block of a chain has a place. -/
theorem lowerAll_unplaced (n : Nat) : (ss : List Stmt) → Unplaced (lowerAll n ss).blocks
  | [] => nofun
  | s :: ss => before_unplaced (lowerStmt_unplaced n s) (lowerAll_unplaced _ ss)
end

-- ---------------------------------------------------------------------------
-- Drafts
-- ---------------------------------------------------------------------------

/-- The blocks that the scripts begin with, in order. -/
def Draft.heads (d : Draft) : List (Block Nat) := d.hats ++ d.main.toList.map Prod.fst

theorem withNotes_heads (notes : List Note) (d : Draft) : (d.withNotes notes).heads = d.heads := rfl

theorem withHat_heads (hat : Block Nat) (d : Draft) : (d.withHat hat).heads = hat :: d.heads := rfl

/-- The scripts begin at the roots, on the places from a number on, and nothing else has a
place. -/
structure Draft.Placed (d : Draft) (grid : Grid) (root : Nat) : Prop where
  roots : d.roots = d.heads.map Block.id
  places : d.heads.map Block.place? = (List.range' root d.heads.length).map grid.place?
  chain : ∀ hat chain, d.main = some (hat, chain) → Unplaced chain.blocks

variable {grid : Grid} {whole : List Stmt} {root : Nat}

theorem placed_nil (error : Option LoweringError) :
    ({ error } : Draft).Placed grid root where
  roots := rfl
  places := by simp [Draft.heads]
  chain := by simp

theorem Draft.Placed.withNotes {d : Draft} (h : d.Placed grid root) (notes : List Note) :
    (d.withNotes notes).Placed grid root where
  roots := h.roots
  places := by rw [withNotes_heads, h.places]
  chain := h.chain

theorem Draft.Placed.withHat {d : Draft} (h : d.Placed grid (root + 1)) {hat : Block Nat}
    (hp : hat.place? = grid.place? root) : (d.withHat hat).Placed grid root where
  roots := congrArg (hat.id :: ·) h.roots
  places := by
    rw [withHat_heads, List.length_cons, List.range'_succ, List.map_cons, List.map_cons, hp, h.places]
  chain := h.chain

theorem main_placed {hat : Block Nat} (hp : hat.place? = grid.place? root) (n : Nat)
    (ss : List Stmt) (notes : List Note) (error : Option LoweringError) :
    ({ main := some (hat, lowerAll n ss), roots := [hat.id], notes, error } : Draft).Placed
      grid root where
  roots := rfl
  places := by simp [Draft.heads, hp]
  chain hat' chain hm := by
    obtain ⟨-, rfl⟩ := Prod.mk.inj (Option.some.inj hm)
    exact lowerAll_unplaced n ss

theorem placing_placed (hg : grid.maxColumns ≠ 0) (root : Nat) (hat : Block Nat)
    (following : Block Nat → Draft) : ∃ hat' : Block Nat, hat'.id = hat.id ∧
      hat'.place? = grid.place? root ∧ Draft.placing grid root hat following = following hat' := by
  have hp := Grid.place?_of_columns hg root
  refine ⟨hat.moveTo _ _, rfl, hp.symm, ?_⟩
  rw [Draft.placing, hp]

/-- Scripts stand on the places from that of the first root on. -/
theorem lowerScripts_placed (hg : grid.maxColumns ≠ 0) (ss : List Stmt) (n root : Nat) :
    (lowerScripts grid whole n root ss).Placed grid root := by
  induction ss generalizing n root with
  | nil => exact placed_nil none
  | cons s rest ih =>
    cases hs : s.isEvent with
    | true =>
      obtain ⟨t, rfl⟩ := isEvent_iff.1 hs
      obtain ⟨f, hf, ht, -⟩ | ⟨note, ht, -⟩ | ⟨e, ht⟩ := lowerTrigger_cases n t
      · rw [lowerScripts_hat hf ht]
        obtain ⟨hat, -, hp, hd⟩ := placing_placed hg root (f.block n [] none none) fun hat =>
          (lowerScripts grid whole (n + 1) (root + 1) rest).withHat hat
        rw [hd]
        exact (ih (n + 1) (root + 1)).withHat hp
      · rw [lowerScripts_skip ht]
        exact (ih n root).withNotes _
      · have hd : lowerScripts grid whole n root (.event t :: rest) = { error := some e } := by
          simp [lowerScripts, ht]
        exact hd ▸ placed_nil (some e)
    | false =>
      rw [lowerScripts_main hs]
      obtain ⟨hat, hid, hp, hd⟩ := placing_placed hg root _ _
      rw [hd]
      obtain rfl : hat.id = n := hid
      exact main_placed hp _ _ _ _

-- ---------------------------------------------------------------------------
-- From numbers to ids
-- ---------------------------------------------------------------------------

variable {d : Draft} {ids : List String}

theorem assign_head (ids : List String) {hat : Block Nat} (h : hat ∈ d.heads) :
    ∃ b ∈ d.assign ids, b.id = idOf ids hat.id ∧ b.place? = hat.place? := by
  obtain h | h := List.mem_append.1 h
  · exact ⟨assignBlock ids hat, List.mem_append_left _ (List.mem_map_of_mem h), rfl, rfl⟩
  · cases hm : d.main with
    | none => simp [hm] at h
    | some main =>
      obtain rfl : hat = main.1 := by simpa [hm] using h
      exact ⟨assignHat ids main.1 main.2, by simp [Draft.assign, hm], rfl, rfl⟩

/-- A block is one that a script begins with, or it has no place. -/
theorem Draft.Placed.assign_cases (h : d.Placed grid root) {b : Block String}
    (hb : b ∈ d.assign ids) : b.id ∈ d.roots.map (idOf ids) ∨ b.place? = none := by
  have hroot {hat : Block Nat} (hm : hat ∈ d.heads) : idOf ids hat.id ∈ d.roots.map (idOf ids) := by
    rw [h.roots]
    exact List.mem_map_of_mem (List.mem_map_of_mem hm)
  obtain hb | hb := List.mem_append.1 hb
  · obtain ⟨hat, hm, rfl⟩ := List.mem_map.1 hb
    exact .inl (hroot (List.mem_append_left _ hm))
  · cases hm : d.main with
    | none => simp [hm] at hb
    | some main =>
      obtain ⟨hat, chain⟩ := main
      rw [hm] at hb
      obtain rfl | hb := List.mem_cons.1 hb
      · exact .inl (hroot (by simp [Draft.heads, hm]))
      · obtain ⟨c, hc, rfl⟩ := List.mem_map.1 hb
        exact .inr (h.chain hat chain hm c hc)

end Lowering

-- ---------------------------------------------------------------------------
-- Compiled programs
-- ---------------------------------------------------------------------------

/-- The record of a block says that it is in a place. -/
def StandsAt (records : List (String × Value)) (id : String) (x y : Int) : Prop :=
  ∃ v, records.lookup id = some v ∧ v.get? "x" = some (.int x) ∧ v.get? "y" = some (.int y)

theorem StandsAt.unique {records : List (String × Value)} {id : String} {x y x' y' : Int}
    (h : StandsAt records id x y) (h' : StandsAt records id x' y') : x = x' ∧ y = y' := by
  obtain ⟨v, hv, hx, hy⟩ := h
  obtain ⟨v', hv', hx', hy'⟩ := h'
  obtain rfl := Option.some.inj (hv.symm.trans hv')
  cases hx.symm.trans hx'
  cases hy.symm.trans hy'
  exact ⟨rfl, rfl⟩

theorem standsAt_of_mem {t : Target} (hn : t.ids.Nodup) {b : Block String} (hb : b ∈ t.blocks)
    {x y : Int} (hp : b.place? = some (x, y)) : StandsAt t.blockFields b.id x y := by
  obtain ⟨top, hr⟩ := blockFields_recorded hn b hb
  exact ⟨_, hr, by rw [b.toValue_x, hp]; rfl, by rw [b.toValue_y, hp]; rfl⟩

theorem mem_of_blockFields {t : Target} {id : String} {v : Value}
    (h : t.blockFields.lookup id = some v) : ∃ b ∈ t.blocks, b.id = id ∧ ∃ top, v = b.toValue top := by
  obtain ⟨b, hb, he⟩ := List.mem_map.1 (Value.mem_of_lookup h)
  cases he
  exact ⟨b, hb, rfl, _, rfl⟩

theorem compile_nodup (p : Program) (grid : Grid) (stageName : String) (source : IdSource) :
    (compile p grid stageName source).state.target.ids.Nodup := by
  rw [Target.ids, compile_blocks, lowerProgram_assign_ids grid 0 p (by simp [programIds])]
  exact Supply.take_nodup _ _ _

section
variable {p : Program} {grid : Grid} {stageName : String} {source : IdSource}

theorem compile_root_stands (hg : grid.maxColumns ≠ 0) {n : Nat} {id : String}
    (h : (compile p grid stageName source).state.roots[n]? = some id) :
    StandsAt (compile p grid stageName source).state.target.blockFields id
      (Int.fmod n grid.maxColumns * grid.columnSpacing)
      (Int.fdiv n grid.maxColumns * grid.rowSpacing) := by
  have hd : (lowerProgram grid 0 p).Placed grid 0 := lowerScripts_placed hg p.body 0 0
  rw [compile_roots, hd.roots, List.map_map, List.getElem?_map] at h
  obtain ⟨hat, hhat, rfl⟩ := Option.map_eq_some_iff.1 h
  have hplace : hat.place? = grid.place? n := by
    have hn := congrArg (·[n]?) hd.places
    simp only [List.getElem?_map, hhat, Option.map_some] at hn
    obtain ⟨hlt, -⟩ := List.getElem?_eq_some_iff.1 hhat
    simpa [hlt] using hn
  obtain ⟨b, hb, hid, hp⟩ := assign_head (programIds p grid source) (List.mem_of_getElem? hhat)
  rw [hplace, Grid.place?_of_columns hg] at hp
  rw [Function.comp_apply, ← hid]
  rw [← compile_blocks p grid stageName source] at hb
  exact standsAt_of_mem (compile_nodup ..) hb hp

end

/-- The n-th script root stands in the n-th place of the grid, and what is no script root has no
place. No two roots stand in one place where no spacing is 0, and they stand within the columns
where all is positive. -/
theorem compile_places (p : Program) {grid : Grid} (stageName : String) (source : IdSource)
    (hg : grid.maxColumns ≠ 0) :
    let c := (compile p grid stageName source).state
    (∀ (n : Nat) id, c.roots[n]? = some id → StandsAt c.target.blockFields id
      (Int.fmod n grid.maxColumns * grid.columnSpacing)
      (Int.fdiv n grid.maxColumns * grid.rowSpacing)) ∧
    (∀ id v, c.target.blockFields.lookup id = some v → id ∉ c.roots →
      v.get? "x" = none ∧ v.get? "y" = none) ∧
    (grid.columnSpacing ≠ 0 → grid.rowSpacing ≠ 0 → ∀ (n m : Nat) id id' x y, c.roots[n]? = some id →
      c.roots[m]? = some id' → StandsAt c.target.blockFields id x y →
      StandsAt c.target.blockFields id' x y → n = m) ∧
    (0 < grid.maxColumns → 0 < grid.columnSpacing → 0 < grid.rowSpacing → ∀ id ∈ c.roots, ∀ x y,
      StandsAt c.target.blockFields id x y →
      0 ≤ x ∧ x ≤ (grid.maxColumns - 1) * grid.columnSpacing ∧ 0 ≤ y) := by
  intro c
  have hstands {n : Nat} {id : String} {x y : Int} (hn : c.roots[n]? = some id)
      (hs : StandsAt c.target.blockFields id x y) : grid.place? n = some (x, y) := by
    obtain ⟨rfl, rfl⟩ := hs.unique (compile_root_stands hg hn)
    exact Grid.place?_of_columns hg n
  refine ⟨fun n id => compile_root_stands hg, ?_, ?_, ?_⟩
  · intro id v hv hid
    obtain ⟨b, hb, rfl, top, rfl⟩ := mem_of_blockFields hv
    have hd : (lowerProgram grid 0 p).Placed grid 0 := lowerScripts_placed hg p.body 0 0
    rw [compile_blocks] at hb
    have hp := (hd.assign_cases hb).resolve_left fun hm => hid (by rwa [compile_roots])
    rw [b.toValue_x, b.toValue_y, hp]
    exact ⟨rfl, rfl⟩
  · intro hc hr n m id id' x y hn hm hs hs'
    exact Grid.place?_injective hg hc hr ((hstands hn hs).trans (hstands hm hs').symm)
  · intro hpos hc hr id hid x y hs
    obtain ⟨n, hn⟩ := List.getElem?_of_mem hid
    exact Grid.place?_bounds hpos hc hr (hstands hn hs)

/-- Where columns are counted downwards, the second root stands left of the first and above it. -/
theorem patrol_places :
    ({ maxColumns := -2 } : Grid).maxColumns ≠ 0 ∧
      let c := (compile patrol { maxColumns := -2 } "Stage" (.ofList [])).state
      ∃ hat flag, c.roots = [hat, flag] ∧ StandsAt c.target.blockFields hat 0 0 ∧
        StandsAt c.target.blockFields flag (-500) (-1000) := by
  have hg : ({ maxColumns := -2 } : Grid).maxColumns ≠ 0 := by decide
  have hids : (lowerProgram { maxColumns := -2 } 0 patrol).roots = [0, 1] := rfl
  obtain ⟨hat, flag, hroots⟩ : ∃ hat flag, (compile patrol { maxColumns := -2 } "Stage"
      (.ofList [])).state.roots = [hat, flag] := by
    rw [compile_roots, hids]
    exact ⟨_, _, rfl⟩
  obtain ⟨hstands, -⟩ := compile_places patrol "Stage" (.ofList []) hg
  refine ⟨hg, hat, flag, hroots, hstands 0 hat ?_, hstands 1 flag ?_⟩
  · rw [hroots]
    rfl
  · rw [hroots]
    rfl

end Lia
