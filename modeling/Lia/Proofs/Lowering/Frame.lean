import Lia.Proofs.Lowering.Creation
import Lia.Proofs.Lowering.Stepwise

/-!
# What a call leaves alone

A compilation is asked for one statement, list or program after another, and may refuse some of
them. In all that comes of it each block has an id of its own, and the links and parents are ids
of blocks (`Compilation.performAll_closed`). Main statement: the blocks of a list of statements
come behind those that are there, which stay as they are, and if nothing is refused, the ids that
are given are the ends of a chain of new blocks that no link leads to (`statements_frame`).
-/

namespace Lia

open Lia.Tree Lowering

-- ---------------------------------------------------------------------------
-- Calls
-- ---------------------------------------------------------------------------

/-- Each block has an id of its own and knows only ids of blocks. -/
structure Target.Closed (t : Target) : Prop where
  nodup : t.ids.Nodup
  blocks : Lia.Closed t.blocks

namespace Compilation

/-- What a compilation can be asked for. -/
inductive Call
  | statement (s : Stmt)
  | statements (ss : List Stmt)
  | program (p : Program)

/-- The compilation after a call, whether it was refused or not. -/
def perform (c : Compilation) : Call → Compilation
  | .statement s => (c.statement s).state
  | .statements ss => (c.statements ss).state
  | .program p => (c.program p).state

def performAll (c : Compilation) (calls : List Call) : Compilation := calls.foldl perform c

variable {c : Compilation}

/-- Blocks under the ids that come next, which know only each other. -/
theorem add_closed (h : c.target.Closed) {n : Nat} {blocks : List String → List (Block String)}
    (hids : ∀ ids, ids.length = n → (blocks ids).map Block.id = ids)
    (hc : ∀ ids, Lia.Closed (blocks ids)) : (c.add n blocks).2.target.Closed where
  nodup := by
    have hmap : (c.add n blocks).2.target.ids = c.target.ids ++ c.nextIds n := by
      rw [Target.ids, add_blocks, List.map_append, hids]
      · rfl
      · exact c.nextIds_length n
    rw [hmap, List.nodup_append']
    exact ⟨h.nodup, Supply.take_nodup _ _ _, fun id hold hnew => c.nextIds_not_mem hnew hold⟩
  blocks := by
    rw [add_blocks]
    exact h.blocks.append (hc _)

theorem assigned_ids {bs : List (Block Nat)} (hn : Numbered 0 (bs.map Block.id)) (ids : List String)
    (hl : ids.length = bs.length) : (bs.map (assignBlock ids)).map Block.id = ids := by
  rw [map_id_assignBlock, hn, List.length_map, ← hl, map_idOf_range]

theorem perform_closed (h : c.target.Closed) (call : Call) : (c.perform call).target.Closed := by
  cases call with
  | statement s =>
    exact add_closed h (assigned_ids (lowerStmt_numbered 0 s)) (lowerStmt_closed 0 s).assign
  | statements ss =>
    exact add_closed h (assigned_ids (lowerAll_numbered 0 ss)) (lowerAll_closed 0 ss).blocks.assign
  | program p =>
    have hd := lowerScripts_closed c.grid p.body p.body 0 c.roots.length
    have hadd := add_closed h (fun ids hl => lowerProgram_assign_ids c.grid c.roots.length p hl)
      hd.assign
    unfold perform program
    simp only
    split <;> exact hadd

theorem performAll_closed (h : c.target.Closed) (calls : List Call) :
    (c.performAll calls).target.Closed := by
  induction calls generalizing c with
  | nil => exact h
  | cons call calls ih => exact ih (perform_closed h call)

theorem start_closed (grid : Grid) (stageName : String) (source : IdSource) :
    (start grid stageName source).target.Closed where
  nodup := .nil
  blocks := closed_nil

end Compilation

-- ---------------------------------------------------------------------------
-- Chains
-- ---------------------------------------------------------------------------

/-- Following the links from one on leads to these blocks, and then to an end. -/
def Target.Follows (t : Target) : Option String → List (Block String) → Prop
  | link, [] => link = none
  | link, b :: bs => t.follow? link = some b ∧ t.Follows b.next bs

namespace Tree

/-- The blocks of the trees of a chain themselves. -/
def owns (parent : Option ι) : List (Tree ι) → List (Block ι)
  | [] => []
  | t :: ts => t.own parent (first? ts) :: owns none ts

theorem owns_sublist (parent : Option ι) (ts : List (Tree ι)) :
    (owns parent ts).Sublist (layoutAll parent ts) := by
  induction ts generalizing parent with
  | nil => exact .slnil
  | cons t ts ih =>
    rw [owns, layoutAll, layout_eq, List.append_assoc]
    exact ((ih none).cons_cons _).trans (List.sublist_append_right _ _)

theorem owns_map_id (parent : Option ι) (ts : List (Tree ι)) :
    (owns parent ts).map Block.id = ts.map Tree.id := by
  induction ts generalizing parent with
  | nil => rfl
  | cons t ts ih => rw [owns, List.map_cons, ih, own_id, List.map_cons]

end Tree

namespace Lowering

theorem last_before {s : Segment} {rest : Chain} (he : s.error = none) :
    (s.before rest).last = rest.last.or (s.own.map Block.id) := by
  unfold Segment.before
  rw [he]
  cases s.own <;> simp

/-- A list that is lowered without an error is laid out as trees, one for each statement that has
a block, and ends in the last one. -/
theorem lowerAll_chain (n : Nat) (ss : List Stmt) (h : (lowerAll n ss).error = none) :
    ∃ ts, (lowerAll n ss).Lays n ts ∧ (lowerAll n ss).last = ts.getLast?.map Tree.id ∧
      List.Forall₂ (fun s t => s.image? = some t.node) (ss.filter Stmt.hasBlock) ts := by
  induction ss generalizing n with
  | nil => exact ⟨[], nil_lays n, rfl, .nil⟩
  | cons s ss ih =>
    obtain ⟨hs, hss⟩ := Option.or_eq_none_iff.1 ((before_error _ _).symm.trans h)
    obtain ⟨t, ht, hi⟩ := lowerStmt_shows n s hs
    obtain ⟨ts, hts, hlast, hshow⟩ := ih (n + (lowerStmt n s).size) hss
    refine ⟨t.toList ++ ts, ht.before hs hts, ?_, ?_⟩
    · rw [lowerAll, last_before hs, hlast, ht.own]
      cases t with
      | none => simp
      | some t => simp [List.getLast?_cons, Option.or_some, Option.getD_map]
    · cases t with
      | none =>
        have hignored := (Stmt.image?_eq_none_iff ((Stmt.error_eq_none_iff n s).1 hs)).1 hi.symm
        rw [List.filter_cons_of_neg (by simp [Stmt.hasBlock, hignored])]
        exact hshow
      | some t =>
        rw [List.filter_cons_of_pos (Stmt.hasBlock_of_image? hi.symm)]
        exact .cons hi.symm hshow

end Lowering

theorem Lowering.assign_next (ids : List String) (b : Block Nat) :
    (assignBlock ids b).next = b.next.map (idOf ids) := rfl

/-- What a block shows is in its opcode, inputs and fields. -/
theorem Block.Shows.congr {b b' : Block String} {image : Node} (h : b.Shows image)
    (ho : b'.opcode = b.opcode) (hi : b'.inputs = b.inputs) (hf : b'.fields = b.fields) :
    b'.Shows image := by
  have hm : b'.substack? = b.substack? := by
    rw [Block.substack?, Block.substack?, Block.input?, Block.input?, hi]
  cases image <;> simpa only [Block.Shows, ho, hi, hf, hm] using h

/-- A block with ids for numbers still shows the node of its tree. -/
theorem Tree.assign_shows (ids : List String) (parent next : Option Nat) (t : Tree Nat) :
    (assignBlock ids (t.own parent next)).Shows t.node := by
  have h := (t.map (idOf ids)).own_shows none none
  rw [node_map] at h
  refine h.congr ?_ ?_ ?_
  · cases t <;> rfl
  · cases t with
    | leaf id f =>
      simp only [own, Tree.map, assignBlock, Face.block, List.map_append, List.map_map]
      rfl
    | container id f inside =>
      simp only [own, Tree.map, assignBlock, Face.block, List.map_append, List.map_map, first?_mapAll]
      rfl
  · cases t <;> rfl

theorem owns_follows {t : Target} (hn : t.ids.Nodup) (ids : List String) (parent : Option Nat)
    (ts : List (Tree Nat)) (h : (owns parent ts).map (assignBlock ids) ⊆ t.blocks) :
    t.Follows ((first? ts).map (idOf ids)) ((owns parent ts).map (assignBlock ids)) := by
  induction ts generalizing parent with
  | nil => rfl
  | cons tree ts ih =>
    rw [owns, List.map_cons, List.cons_subset] at h
    obtain ⟨hm, hts⟩ := h
    refine ⟨?_, ?_⟩
    · rw [first?_cons, Option.map_some, Target.follow?, Option.bind_some, ← own_id parent (first? ts)]
      exact Target.get?_of_mem hn hm
    · rw [assign_next, own_next]
      exact ih none hts

-- ---------------------------------------------------------------------------
-- Main statement
-- ---------------------------------------------------------------------------

theorem owns_shows (ids : List String) (parent : Option Nat) {ss : List Stmt} {ts : List (Tree Nat)}
    (h : List.Forall₂ (fun s t => s.image? = some t.node) ss ts) :
    List.Forall₂ (fun s b => ∃ image, s.image? = some image ∧ b.Shows image) ss
      ((owns parent ts).map (assignBlock ids)) := by
  induction h generalizing parent with
  | nil => exact .nil
  | cons hi _ ih => exact .cons ⟨_, hi, assign_shows ids _ _ _⟩ (ih none)

/-- The first block of a chain is the one that is not linked in it. -/
theorem first_not_linked {ids : List String} {ts : List (Tree Nat)}
    (hn : (((layoutAll none ts).map (assignBlock ids)).map Block.id).Nodup) :
    ∀ id ∈ (first? ts).map (idOf ids),
      id ∉ ((layoutAll none ts).map (assignBlock ids)).flatMap Block.links := by
  have hlinks : ((layoutAll none ts).map (assignBlock ids)).flatMap Block.links =
      ((layoutAll none ts).flatMap Block.links).map (idOf ids) := by
    rw [List.flatMap_map, List.map_flatMap]
    exact List.flatMap_congr fun b _ => links_assignBlock ids b
  have hperm := (links_perm none ts).map (idOf ids)
  rw [map_id_assignBlock] at hn
  rw [← hperm.nodup_iff, List.map_append, List.nodup_append'] at hn
  rw [hlinks]
  intro id hid
  obtain ⟨k, hk, rfl⟩ := Option.map_eq_some_iff.1 hid
  exact hn.2.2 (List.mem_map_of_mem (Option.mem_toList.2 hk))

theorem Target.Follows.ends {t : Target} {link : Option String} {path : List (Block String)}
    (h : t.Follows link path) : ∀ b ∈ path.getLast?, b.next = none := by
  induction path generalizing link with
  | nil => exact nofun
  | cons b path ih =>
    cases path with
    | nil =>
      rintro _ ⟨⟩
      exact h.2
    | cons b' path => exact ih h.2

/-- A chain of blocks from one id to another, one for each statement that has a block. -/
structure Target.ChainFor (t : Target) (ss : List Stmt) (first last : Option String)
    (path : List (Block String)) : Prop where
  begins : first = path.head?.map Block.id
  stops : last = path.getLast?.map Block.id
  follows : t.Follows first path
  ends : ∀ b ∈ path.getLast?, b.next = none
  unlinked : ∀ id ∈ first, id ∉ t.linked
  shows : List.Forall₂ (fun s b => ∃ image, s.image? = some image ∧ b.Shows image)
    (ss.filter Stmt.hasBlock) path

/-- Trees behind blocks that lead to no others make a chain. -/
theorem Target.chainFor_of_trees {t : Target} {old : List (Block String)} {ids : List String}
    {ts : List (Tree Nat)} {ss : List Stmt}
    (hb : t.blocks = old ++ (layoutAll none ts).map (assignBlock ids)) (hn : t.ids.Nodup)
    (hold : Lia.Closed old)
    (hshow : List.Forall₂ (fun s t => s.image? = some t.node) (ss.filter Stmt.hasBlock) ts) :
    t.ChainFor ss ((first? ts).map (idOf ids)) ((ts.getLast?.map Tree.id).map (idOf ids))
      ((owns none ts).map (assignBlock ids)) := by
  have hsub := (owns_sublist none ts).map (assignBlock ids)
  have hfollows := owns_follows hn ids none ts fun b hm =>
    hb ▸ List.mem_append_right _ (hsub.subset hm)
  have hpath : ((owns none ts).map (assignBlock ids)).map Block.id = (ts.map Tree.id).map (idOf ids) := by
    rw [map_id_assignBlock, owns_map_id]
  rw [Target.ids, hb, List.map_append, List.nodup_append'] at hn
  obtain ⟨-, hnew, hdisjoint⟩ := hn
  refine ⟨?_, ?_, hfollows, hfollows.ends, ?_, owns_shows ids none hshow⟩
  · rw [← List.head?_map, hpath, List.head?_map, List.head?_map]
    rfl
  · simp only [← List.getLast?_map, hpath]
  · intro id hid hlinked
    rw [Target.linked, hb, List.flatMap_append, List.mem_append] at hlinked
    obtain hlinked | hlinked := hlinked
    · refine hdisjoint (hold.links_subset hlinked) ?_
      rw [map_id_assignBlock]
      obtain ⟨k, hk, rfl⟩ := Option.map_eq_some_iff.1 hid
      exact List.mem_map_of_mem (first?_mem none ts k hk)
    · exact first_not_linked hnew id hid hlinked

theorem Stmt.error_of_ignored {ss : List Stmt} (h : ∀ s ∈ ss, s.isIgnored = true) :
    (lowerAll 0 ss).error = none := by
  rw [lowerAll_error, List.findSome?_eq_none_iff, ← supportedAll_iff, supportedAll_eq_all,
    List.all_eq_true]
  intro s hs
  exact (error_eq_none_iff 0 s).1 ((lowerStmt_ignored_iff 0 s).2 (h s hs)).2

namespace Compilation

variable {c : Compilation} {ss : List Stmt}

theorem result_eq_ok_iff {error : Option LoweringError} {value given : α} :
    result error value = .ok given ↔ error = none ∧ value = given := by
  cases error <;> simp [result]

theorem statement_ignored_iff (c : Compilation) (s : Stmt) :
    (c.statement s).result = .ok none ↔ s.isIgnored = true := by
  have h : (c.statement s).result = result (lowerStmt 0 s).error
      ((lowerStmt 0 s).own.map fun b => idOf (c.nextIds (lowerStmt 0 s).size) b.id) := rfl
  rw [h, result_eq_ok_iff, Option.map_eq_none_iff, and_comm, lowerStmt_ignored_iff]

theorem statements_result (c : Compilation) (ss : List Stmt) :
    (c.statements ss).result = result (lowerAll 0 ss).error
      ((lowerAll 0 ss).first.map (idOf (c.nextIds (lowerAll 0 ss).blocks.length)),
        (lowerAll 0 ss).last.map (idOf (c.nextIds (lowerAll 0 ss).blocks.length))) := rfl

theorem statements_none_iff :
    (c.statements ss).result = .ok (none, none) ↔ ∀ s ∈ ss, s.isIgnored = true := by
  have hfilter : ss.filter Stmt.hasBlock = [] ↔ ∀ s ∈ ss, s.isIgnored = true := by
    simp [List.filter_eq_nil_iff, Stmt.hasBlock]
  rw [statements_result, result_eq_ok_iff, Prod.mk.injEq, Option.map_eq_none_iff,
    Option.map_eq_none_iff]
  constructor
  · rintro ⟨he, hfirst, -⟩
    obtain ⟨ts, hts, -, hshow⟩ := lowerAll_chain 0 ss he
    obtain rfl : ts = [] := by simpa [first?] using hts.first.symm.trans hfirst
    rw [← hfilter, List.forall₂_nil_right_iff.1 hshow]
  · intro h
    have he := Stmt.error_of_ignored h
    obtain ⟨ts, hts, hlast, hshow⟩ := lowerAll_chain 0 ss he
    rw [hfilter.2 h] at hshow
    obtain rfl := List.forall₂_nil_left_iff.1 hshow
    exact ⟨he, hts.first, hlast⟩

theorem statements_chain (h : c.target.Closed) {first last : Option String}
    (hr : (c.statements ss).result = .ok (first, last)) :
    ∃ path, path.Sublist ((lowerAll 0 ss).blocks.map
        (assignBlock (c.nextIds (lowerAll 0 ss).blocks.length))) ∧
      (c.statements ss).state.target.ChainFor ss first last path := by
  rw [statements_result, result_eq_ok_iff, Prod.mk.injEq] at hr
  obtain ⟨he, rfl, rfl⟩ := hr
  obtain ⟨ts, hts, hlast, hshow⟩ := lowerAll_chain 0 ss he
  have hclosed : (c.statements ss).state.target.Closed := perform_closed h (.statements ss)
  have hblocks : (c.statements ss).state.target.blocks = c.target.blocks ++ (layoutAll none ts).map
      (assignBlock (c.nextIds (lowerAll 0 ss).blocks.length)) := by
    rw [← hts.blocks]
    rfl
  have hsub := (owns_sublist none ts).map
    (assignBlock (c.nextIds (lowerAll 0 ss).blocks.length))
  rw [← hts.blocks] at hsub
  rw [hts.first, hlast]
  exact ⟨_, hsub, Target.chainFor_of_trees hblocks hclosed.nodup h.blocks hshow⟩

/-- A list of statements, in any state that a compilation comes to. Building it block by block
gives the same. It adds blocks behind the others and leaves everything else as it is. -/
theorem statements_frame (grid : Grid) (stageName : String) (source : IdSource) (calls : List Call)
    (ss : List Stmt) :
    let c := (start grid stageName source).performAll calls
    let r := c.statements ss
    r = c.buildAll none none ss ∧
    ∃ made, r.state.target = { c.target with blocks := c.target.blocks ++ made } ∧
      r.state.roots = c.roots ∧ r.state.target.ids.Nodup ∧
      (r.result = .ok (none, none) ↔ ∀ s ∈ ss, (c.statement s).result = .ok none) ∧
      ∀ first last, r.result = .ok (first, last) →
        ∃ path, path.Sublist made ∧ r.state.target.ChainFor ss first last path := by
  intro c r
  have hc : c.target.Closed := performAll_closed (start_closed grid stageName source) calls
  have hr : r.state.target.Closed := perform_closed hc (.statements ss)
  refine ⟨c.statements_eq_build ss, _, rfl, rfl, hr.nodup, ?_, fun first last h => ?_⟩
  · simp only [statement_ignored_iff]
    exact statements_none_iff
  · exact statements_chain hc h

/-- The program is refused half way, and leaves three blocks behind. -/
theorem misplaced_frame :
    let c := (start {} "Stage" (.ofList ["a", "", "a"])).performAll [.program misplaced]
    let r := c.statements patrol.body
    c.target.size = 3 ∧ ∃ first last path, r.result = .ok (some first, some last) ∧
      r.state.target.size = 7 ∧ path.length = 2 ∧
      r.state.target.ChainFor patrol.body (some first) (some last) path := by
  intro c r
  obtain ⟨-, made, htarget, -, -, -, hchain⟩ :=
    statements_frame {} "Stage" (.ofList ["a", "", "a"]) [.program misplaced] patrol.body
  obtain ⟨first, last, hr⟩ : ∃ first last, r.result = .ok (some first, some last) := ⟨_, _, rfl⟩
  obtain ⟨path, -, hpath⟩ := hchain _ _ hr
  refine ⟨rfl, first, last, path, hr, rfl, ?_, hpath⟩
  exact hpath.shows.length_eq.symm

end Compilation

end Lia
