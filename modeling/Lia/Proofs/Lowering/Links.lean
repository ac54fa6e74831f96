import Lia.Proofs.Lowering.Numbers
import Lia.Proofs.Lowering.Scripts

/-!
# Blocks that know each other

A block knows the ids of what it leads to and of its parent. What a statement, a list or a
program is lowered to knows no other blocks, also when it is refused half way (`lowerAll_closed`,
`lowerScripts_closed`), and this stays so when ids are put for numbers (`Closed.assign`).
-/

namespace Lia

open Lowering

/-- The ids that a block knows. -/
def Block.known (b : Block ι) : List ι := b.parent.toList ++ b.links

/-- The blocks know no others. -/
def Closed (bs : List (Block ι)) : Prop := ∀ b ∈ bs, b.known ⊆ bs.map Block.id

theorem closed_nil : Closed ([] : List (Block ι)) := by
  intro b hb
  cases hb

theorem Closed.append {as bs : List (Block ι)} (ha : Closed as) (hb : Closed bs) :
    Closed (as ++ bs) := by
  intro b hm
  rw [List.map_append]
  obtain hm | hm := List.mem_append.1 hm
  · exact List.subset_append_of_subset_left _ (ha b hm)
  · exact List.subset_append_of_subset_right _ (hb b hm)

/-- Blocks that know nothing. -/
theorem closed_of_known {bs : List (Block ι)} (h : ∀ b ∈ bs, b.known = []) : Closed bs := by
  intro b hb
  rw [h b hb]
  exact List.nil_subset _

theorem Closed.links_subset {bs : List (Block ι)} (h : Closed bs) :
    bs.flatMap Block.links ⊆ bs.map Block.id := by
  intro id hid
  obtain ⟨b, hb, hid⟩ := List.mem_flatMap.1 hid
  exact h b hb (List.mem_append_right _ hid)

namespace Lowering

-- ---------------------------------------------------------------------------
-- Segments and chains
-- ---------------------------------------------------------------------------

/-- The chain and what it begins with know no other numbers. -/
structure Chain.Closed (c : Chain) : Prop where
  blocks : Lia.Closed c.blocks
  first : c.first.toList ⊆ c.blocks.map Block.id

theorem lowerTrigger_known (n : Nat) (t : Trigger) :
    ∀ b ∈ (lowerTrigger n t).blocks, b.known = [] := by
  cases t with
  | unknown kind hk =>
    obtain ⟨e, h⟩ := lowerTrigger_unknown n hk
    rw [h]
    nofun
  | _ => simp [lowerTrigger, Segment.single, Segment.skip, Segment.blocks, Block.known, Block.links]

theorem single_known (n : Nat) (opcode : String) {inputs : List (Input Nat)}
    (h : inputs.filterMap Input.mouth? = []) :
    ∀ b ∈ (Segment.single n opcode inputs).blocks, b.known = [] := by
  simpa [Segment.single, Segment.blocks, Block.known, Block.links] using h

theorem lowerCall_known (n : Nat) (name : Value) (args : List Value) (duration : Value) :
    ∀ b ∈ (lowerCall n name args duration).blocks, b.known = [] := by
  unfold lowerCall
  split
  next => exact single_known n _ rfl
  next =>
    simp only
    split
    · exact single_known n _ rfl
    · exact unlisted_of (P := fun s => ∀ b ∈ s.blocks, b.known = []) _ nofun fun _ => nofun
  next => simp only; split <;> exact single_known n _ rfl
  next => exact single_known n _ rfl
  next =>
    exact unlisted_of (P := fun s => ∀ b ∈ s.blocks, b.known = []) _ (single_known n _ rfl)
      fun _ => nofun

theorem known_hang (id : Option Nat) (parent : Nat) (b : Block Nat) :
    (Tree.hang id parent b).known ⊆ parent :: b.known := by
  unfold Tree.hang
  split
  · exact List.cons_subset_cons _ (List.subset_append_right _ _)
  · exact List.subset_cons_self _ _

theorem enclose_closed {c : Chain} (h : c.Closed) (n : Nat) (opcode : Option String)
    {inputs : List (Input Nat)} (hi : inputs.filterMap Input.mouth? = []) :
    Lia.Closed (c.enclose n opcode inputs).blocks := by
  cases he : c.error with
  | some e =>
    have hblocks : (c.enclose n opcode inputs).blocks = c.blocks := by
      simp [Chain.enclose, he, Segment.blocks]
    exact hblocks ▸ h.blocks
  | none =>
    have hids := enclose_ids c n opcode inputs
    rw [if_pos he] at hids
    intro b hb
    rw [hids]
    rw [enclose_eq he, Segment.blocks, Option.toList_some, List.mem_append, List.mem_map,
      List.mem_singleton] at hb
    obtain ⟨b, hb, rfl⟩ | rfl := hb
    · refine List.Subset.trans (known_hang _ _ b) (List.cons_subset.2 ⟨?_, ?_⟩)
      · exact List.mem_append_right _ (List.mem_singleton.2 rfl)
      · exact List.subset_append_of_subset_left _ (h.blocks b hb)
    · have hknown : (inputs ++ [Input.substack "SUBSTACK" c.first]).filterMap Input.mouth? =
          c.first.toList := by
        rw [List.filterMap_append, hi]
        cases c.first <;> rfl
      simp only [Block.known, Block.links, hknown]
      exact List.subset_append_of_subset_left _ h.first

/-- The link that a block gets to what follows it. -/
theorem known_next (b : Block Nat) (next : Option Nat) :
    ({ b with next } : Block Nat).known ⊆ b.known ++ next.toList := by
  intro id hid
  simp only [Block.known, Block.links, List.mem_append] at hid ⊢
  grind

theorem before_closed {s : Segment} {c : Chain} (hs : Lia.Closed s.blocks) (hc : c.Closed) :
    (s.before c).Closed := by
  unfold Segment.before
  split
  next => exact ⟨hs, List.nil_subset _⟩
  next =>
    split
    next ho =>
      have hinner : s.inner = s.blocks := by simp [Segment.blocks, ho]
      refine ⟨hinner ▸ hs.append hc.blocks, ?_⟩
      rw [List.map_append]
      exact List.subset_append_of_subset_right _ hc.first
    next own ho =>
      have hblocks : s.blocks = s.inner ++ [own] := by rw [Segment.blocks, ho]; rfl
      have hids : (s.inner ++ { own with next := c.first } :: c.blocks).map Block.id =
          s.blocks.map Block.id ++ c.blocks.map Block.id := by
        simp [hblocks]
      refine ⟨fun b hb => ?_, ?_⟩
      · rw [hids]
        obtain hb | hb := List.mem_append.1 hb
        · have hm : b ∈ s.blocks := hblocks ▸ List.mem_append_left _ hb
          exact List.subset_append_of_subset_left _ (hs b hm)
        · obtain rfl | hb := List.mem_cons.1 hb
          · have hm : own ∈ s.blocks := hblocks ▸ List.mem_append_right _ (List.mem_singleton.2 rfl)
            refine List.Subset.trans (known_next own c.first) (List.append_subset.2 ⟨?_, ?_⟩)
            · exact List.subset_append_of_subset_left _ (hs own hm)
            · exact List.subset_append_of_subset_right _ hc.first
          · exact List.subset_append_of_subset_right _ (hc.blocks b hb)
      · simp [hids, hblocks]

mutual
theorem lowerStmt_closed (n : Nat) : (s : Stmt) → Lia.Closed (lowerStmt n s).blocks
  | .event t => closed_of_known (lowerTrigger_known n t)
  | .repeatTimes _ body => enclose_closed (lowerAll_closed n body) n _ rfl
  | .forever body => enclose_closed (lowerAll_closed n body) n _ rfl
  | .branch _ body _ => enclose_closed (lowerAll_closed n body) n _ rfl
  | .awaitUntil _ => closed_of_known (single_known n _ rfl)
  | .call name args duration => closed_of_known (lowerCall_known n name args duration)
  | .empty | .program _ => closed_nil
/-- The blocks of a list of statements know no others, whether it is refused or not. -/
theorem lowerAll_closed (n : Nat) : (ss : List Stmt) → (lowerAll n ss).Closed
  | [] => ⟨closed_nil, List.nil_subset _⟩
  | s :: ss => before_closed (lowerStmt_closed n s) (lowerAll_closed (n + (lowerStmt n s).size) ss)
end

-- ---------------------------------------------------------------------------
-- Drafts
-- ---------------------------------------------------------------------------

/-- The hats know nothing and the chain only itself. -/
structure Draft.Closed (d : Draft) : Prop where
  hats : ∀ hat ∈ d.hats, hat.known = []
  main : ∀ hat chain, d.main = some (hat, chain) → hat.known = [] ∧ chain.Closed

theorem Draft.Closed.of_hats {d : Draft} (hh : ∀ hat ∈ d.hats, hat.known = []) (hm : d.main = none) :
    d.Closed where
  hats := hh
  main hat chain h := by
    rw [hm] at h
    cases h

theorem placing_closed (grid : Grid) (root : Nat) {hat : Block Nat} (hk : hat.known = [])
    {following : Block Nat → Draft}
    (h : ∀ hat' : Block Nat, hat'.known = [] → (following hat').Closed) :
    (Draft.placing grid root hat following).Closed := by
  unfold Draft.placing
  split
  · exact .of_hats (by simpa using hk) rfl
  · exact h _ hk

theorem Draft.Closed.withHat {d : Draft} (h : d.Closed) {hat : Block Nat} (hk : hat.known = []) :
    (d.withHat hat).Closed where
  hats := List.forall_mem_cons.2 ⟨hk, h.hats⟩
  main := h.main

/-- The blocks of scripts know no others, whether the program is refused or not. -/
theorem lowerScripts_closed (grid : Grid) (whole ss : List Stmt) (n root : Nat) :
    (lowerScripts grid whole n root ss).Closed := by
  induction ss generalizing n root with
  | nil => exact .of_hats (by simp [lowerScripts]) rfl
  | cons s rest ih =>
    cases hs : s.isEvent with
    | true =>
      obtain ⟨t, rfl⟩ := isEvent_iff.1 hs
      obtain ⟨f, hp, ht, -⟩ | ⟨note, ht, -⟩ | ⟨e, ht⟩ := lowerTrigger_cases n t
      · rw [lowerScripts_hat hp ht]
        refine placing_closed grid root ?_ fun hat hk => (ih (n + 1) (root + 1)).withHat hk
        simp [Block.known]
      · rw [lowerScripts_skip ht]
        exact ⟨(ih n root).hats, (ih n root).main⟩
      · simp only [lowerScripts, ht]
        exact .of_hats (by simp) rfl
    | false =>
      rw [lowerScripts_main hs]
      refine placing_closed grid root ?_ fun hat hk => ⟨by simp, ?_⟩
      · simp [Block.known]
      · rintro _ _ ⟨⟩
        exact ⟨hk, lowerAll_closed (n + 1) whole⟩

-- ---------------------------------------------------------------------------
-- Ids for numbers
-- ---------------------------------------------------------------------------

section
variable (ids : List String)

theorem mouth?_assignInput (i : Input Nat) :
    (assignInput ids i).mouth? = i.mouth?.map (idOf ids) := by
  obtain ⟨name, content⟩ := i
  cases content <;> rfl

theorem mouths_assignInput (is : List (Input Nat)) :
    (is.map (assignInput ids)).filterMap Input.mouth? = (is.filterMap Input.mouth?).map (idOf ids) := by
  rw [List.filterMap_map, List.map_filterMap]
  exact congrArg (List.filterMap · is) (funext (mouth?_assignInput ids))

theorem links_assignBlock (b : Block Nat) : (assignBlock ids b).links = b.links.map (idOf ids) := by
  have hn : (b.next.map (idOf ids)).toList = b.next.toList.map (idOf ids) := by cases b.next <;> rfl
  simp only [Block.links, assignBlock, mouths_assignInput, hn, List.map_append]

theorem known_assignBlock (b : Block Nat) :
    (assignBlock ids b).known ⊆ b.known.map (idOf ids) := by
  have hp : (assignBlock ids b).parent.toList ⊆ b.parent.toList.map (idOf ids) := by
    simp only [assignBlock]
    split
    · exact List.nil_subset _
    · cases b.parent <;> simp
  rw [Block.known, Block.known, links_assignBlock, List.map_append]
  exact List.append_subset.2 ⟨List.subset_append_of_subset_left _ hp, List.subset_append_right _ _⟩

theorem map_id_assignBlock (bs : List (Block Nat)) :
    (bs.map (assignBlock ids)).map Block.id = (bs.map Block.id).map (idOf ids) := by
  simp [assignBlock, Function.comp_def]

/-- A hat comes to know what its chain begins with, and nothing else. -/
theorem known_assignHat {hat : Block Nat} (hk : hat.known = []) (c : Chain) :
    (assignHat ids hat c).known ⊆ c.first.toList.map (idOf ids) := by
  obtain ⟨hp, hlinks⟩ := List.append_eq_nil_iff.1 hk
  obtain ⟨-, hm⟩ := List.append_eq_nil_iff.1 hlinks
  have hparent : hat.parent = none := Option.toList_eq_nil_iff.1 hp
  have hinputs : (assignHat ids hat c).inputs.filterMap Input.mouth? = [] := by
    simp only [assignHat, assignBlock, mouths_assignInput, hm, List.map_nil]
  have hnext : (assignHat ids hat c).next.toList ⊆ c.first.toList.map (idOf ids) := by
    simp only [assignHat]
    split
    · exact List.nil_subset _
    · cases c.first with
      | none => simp
      | some k => by_cases he : idOf ids k = "" <;> simp [Option.filter, he]
  have hnone : (assignHat ids hat c).parent = none := by simp [assignHat, assignBlock, hparent]
  rwa [Block.known, Block.links, hinputs, hnone, List.append_nil]

end

end Lowering

theorem Closed.assign {bs : List (Block Nat)} (h : Closed bs) (ids : List String) :
    Closed (bs.map (assignBlock ids)) := by
  intro b hb
  obtain ⟨a, ha, rfl⟩ := List.mem_map.1 hb
  rw [map_id_assignBlock]
  exact List.Subset.trans (known_assignBlock ids a) (List.map_subset _ (h a ha))

theorem Lowering.Draft.Closed.assign {d : Draft} (h : d.Closed) (ids : List String) :
    Lia.Closed (d.assign ids) := by
  have hhats : Lia.Closed (d.hats.map (assignBlock ids)) := (closed_of_known h.hats).assign ids
  unfold Draft.assign
  refine hhats.append ?_
  split
  next hat chain hm =>
    obtain ⟨hk, hc⟩ := h.main hat chain hm
    intro b hb
    obtain rfl | hb := List.mem_cons.1 hb
    · refine List.Subset.trans (known_assignHat ids hk chain) (List.subset_cons_of_subset _ ?_)
      rw [map_id_assignBlock]
      exact List.map_subset _ hc.first
    · exact List.subset_cons_of_subset _ (hc.blocks.assign ids b hb)
  next => exact closed_nil

end Lia
