import Mathlib.Data.List.Nodup
import Lia.Proofs.Lowering.Numbers
import Lia.Proofs.Lowering.Scripts

/-!
# Blocks and their ids

Blocks of a target are created and changed one after another. A new block gets the first id
of the supply that no block has, and keeps it. Main statement: whatever happens to a target,
and whatever program is lowered to one, there is a block for each creation, in order and
under an id of its own (`edit_owns`).
-/

namespace Lia

open Lowering

-- ---------------------------------------------------------------------------
-- Ids that are handed out
-- ---------------------------------------------------------------------------

/-- Where the first id stands that remains in the source and is not in use. -/
structure Supply.FirstUnused (s : Supply) (used : List String) (m : Nat) : Prop where
  remains : s.position ≤ m
  unused : s.source.id m ∉ used
  first : ∀ k, s.position ≤ k → k < m → s.source.id k ∈ used

theorem Supply.drawIndex_firstUnused (s : Supply) (used : List String) :
    s.FirstUnused used (s.drawIndex used) := by
  obtain ⟨hle, hm, hk⟩ : s.position ≤ s.drawIndex used ∧ _ ∧ _ := firstFrom_spec _
  exact ⟨hle, by simpa [drawIndex] using hm, fun k h h' => by simpa using hk k h h'⟩

-- ---------------------------------------------------------------------------
-- Edits
-- ---------------------------------------------------------------------------

/-- What happens to the blocks of a target. A change leaves a block its id. -/
inductive Edit
  | create (opcode : Option String)
  | change (id : String) (f : Block String → Block String) (keeps : ∀ b, (f b).id = b.id)

def Edit.isCreate : Edit → Bool
  | .create _ => true
  | .change .. => false

/-- A target and a supply after edits, with the ids that were handed out on the way. -/
structure Edited where
  target : Target
  supply : Supply
  handed : List String

namespace Target

def edit (t : Target) (s : Supply) : List Edit → Edited
  | [] => ⟨t, s, []⟩
  | .create opcode :: es =>
    let (t, s, id) := t.create s opcode
    let e := t.edit s es
    { e with handed := id :: e.handed }
  | .change id f _ :: es => (t.update id f).edit s es

/-- The target has a block for each id that was handed out, in order, and no id twice. -/
structure Owns (t : Target) (handed : List String) : Prop where
  ids : t.ids = handed
  size : t.size = handed.length
  nodup : t.ids.Nodup
  get? : ∀ b ∈ t.blocks, t.get? b.id = some b
  /-- The record of the blocks has an entry for each. -/
  entries : Value.ofFields t.blockFields = .record t.blockFields

variable (t : Target) (s : Supply)

theorem create_eq (opcode : Option String) : ∃ m, s.FirstUnused t.ids m ∧
    t.create s opcode = ({ t with blocks := t.blocks ++ [{ id := s.source.id m, opcode }] },
      { s with position := m + 1 }, s.source.id m) :=
  ⟨_, s.drawIndex_firstUnused t.ids, rfl⟩

theorem create_ids (opcode : Option String) :
    (t.create s opcode).1.ids = t.ids ++ [(t.create s opcode).2.2] := by
  simp [create, ids]

theorem update_ids (id : String) {f : Block String → Block String} (hf : ∀ b, (f b).id = b.id) :
    (t.update id f).ids = t.ids := by
  simp only [ids, update, List.map_map]
  refine List.map_congr_left fun b _ => ?_
  simp only [Function.comp_apply]
  split <;> simp [hf]

theorem edit_ids (es : List Edit) : (t.edit s es).target.ids = t.ids ++ (t.edit s es).handed := by
  induction es generalizing t s with
  | nil => simp [edit]
  | cons e es ih =>
    cases e with
    | create opcode =>
      simp only [edit]
      rw [ih, create_ids, List.append_assoc, List.singleton_append]
    | change id f hf => rw [edit, ih, update_ids t id hf]

theorem edit_nodup (es : List Edit) (h : t.ids.Nodup) : (t.edit s es).target.ids.Nodup := by
  induction es generalizing t s with
  | nil => exact h
  | cons e es ih =>
    cases e with
    | create opcode => exact ih _ _ (nodup_create t s opcode h)
    | change id f hf => exact ih _ _ ((update_ids t id hf).symm ▸ h)

theorem edit_handed_length (es : List Edit) :
    (t.edit s es).handed.length = es.countP Edit.isCreate := by
  induction es generalizing t s with
  | nil => rfl
  | cons e es ih => cases e <;> simp [edit, ih, List.countP_cons, Edit.isCreate]

variable {t s}

theorem get?_of_mem (h : t.ids.Nodup) {b : Block String} (hb : b ∈ t.blocks) :
    t.get? b.id = some b := by
  obtain ⟨c, hc⟩ : ∃ c, t.get? b.id = some c := by
    rw [← Option.isSome_iff_exists, get?, List.find?_isSome]
    exact ⟨b, hb, by simp⟩
  have hid : c.id = b.id := by simpa using List.find?_some hc
  rw [hc, List.inj_on_of_nodup_map h (List.mem_of_find?_eq_some hc) hb hid]

theorem blockFields_fst (t : Target) : t.blockFields.map Prod.fst = t.ids := by
  simp [blockFields, ids]

theorem owns_of_nodup (h : t.ids.Nodup) : t.Owns t.ids where
  ids := rfl
  size := by simp [size, Target.ids]
  nodup := h
  get? _ := get?_of_mem h
  entries := Value.ofFields_of_nodup (by rwa [blockFields_fst])

-- ---------------------------------------------------------------------------
-- Blocks that are filled in
-- ---------------------------------------------------------------------------

theorem update_last (t : Target) {c : Block String} (h : c.id ∉ t.ids)
    (f : Block String → Block String) :
    ({ t with blocks := t.blocks ++ [c] } : Target).update c.id f =
      { t with blocks := t.blocks ++ [f c] } := by
  have hold : t.blocks.map (fun b => if b.id = c.id then f b else b) = t.blocks := by
    conv => rhs; rw [← List.map_id t.blocks]
    refine List.map_congr_left fun b hb => if_neg fun he => h ?_
    exact he ▸ List.mem_map_of_mem hb
  simp [update, hold]

/-- Creates a block and gives it everything but its id. -/
def fill (b : Block String) : List Edit :=
  [.create b.opcode, .change b.id (fun c => { b with id := c.id }) fun _ => rfl]

theorem edit_fill_cons {t : Target} {s : Supply} {b : Block String}
    (hid : (s.draw t.ids).1 = b.id) (es : List Edit) :
    t.edit s (fill b ++ es) =
      let e := ({ t with blocks := t.blocks ++ [b] } : Target).edit (s.draw t.ids).2 es
      { e with handed := b.id :: e.handed } := by
  have hnew : b.id ∉ t.ids := hid ▸ s.draw_not_mem t.ids
  have hlast : Target.update { t with blocks := t.blocks ++ [{ id := b.id, opcode := b.opcode }] }
      b.id (fun c => { b with id := c.id }) = { t with blocks := t.blocks ++ [b] } :=
    update_last t (c := { id := b.id, opcode := b.opcode }) hnew _
  simp only [fill, List.cons_append, List.nil_append, edit, create, hid, hlast]

/-- Blocks with the ids that come next can be created in order and filled in. -/
theorem edit_fill (t : Target) (s : Supply) (bs : List (Block String))
    (h : bs.map Block.id = (s.take t.ids bs.length).1) :
    t.edit s (bs.flatMap fill) = ⟨{ t with blocks := t.blocks ++ bs },
      (s.take t.ids bs.length).2, bs.map Block.id⟩ := by
  induction bs generalizing t s with
  | nil => simp [edit, Supply.take]
  | cons b bs ih =>
    simp only [List.map_cons, List.length_cons, Supply.take, List.cons.injEq] at h
    obtain ⟨hid, hbs⟩ := h
    have hids : Target.ids { t with blocks := t.blocks ++ [b] } = t.ids ++ [(s.draw t.ids).1] := by
      simp [ids, hid]
    rw [List.flatMap_cons, edit_fill_cons hid.symm, ih _ _ (by rw [hids, hbs]), hids]
    simp [Supply.take]

end Target

-- ---------------------------------------------------------------------------
-- Compiled programs
-- ---------------------------------------------------------------------------

/-- A program is lowered by creating blocks and filling them in. -/
theorem compile_edits (p : Program) (grid : Grid) (stageName : String) (source : IdSource) :
    ∃ es, Target.edit { name := stageName } { source } es =
      ⟨(compile p grid stageName source).state.target,
        (compile p grid stageName source).state.supply,
        (compile p grid stageName source).state.target.ids⟩ := by
  have hids : ((lowerProgram grid 0 p).assign (programIds p grid source)).map Block.id =
      programIds p grid source := lowerProgram_assign_ids grid 0 p (by simp [programIds])
  have hlen : ((lowerProgram grid 0 p).assign (programIds p grid source)).length =
      (lowerProgram grid 0 p).size := by
    rw [← List.length_map (f := Block.id), hids, programIds, Supply.take_length]
  refine ⟨((lowerProgram grid 0 p).assign (programIds p grid source)).flatMap Target.fill, ?_⟩
  rw [Target.edit_fill _ _ _ (by rw [hids, hlen]; rfl), hlen, compile_state]
  rfl

/-- A block is created under the first unused id that remains, behind the blocks that are
there. So whatever happens to a target, and whatever is lowered to it, each creation is one
block, and no two have an id in common. Which blocks a program creates and changes, and in which
order, is in `Compilation.buildProgram`. -/
theorem edit_owns :
    (∀ (t : Target) (s : Supply) (opcode : Option String), ∃ m, s.FirstUnused t.ids m ∧
      t.create s opcode = ({ t with blocks := t.blocks ++ [{ id := s.source.id m, opcode }] },
        { s with position := m + 1 }, s.source.id m)) ∧
    (∀ (t : Target) (s : Supply) (es : List Edit),
      (t.edit s es).target.ids = t.ids ++ (t.edit s es).handed ∧
      (t.edit s es).handed.length = es.countP Edit.isCreate) ∧
    (∀ (name : String) (isStage : Bool) (source : IdSource) (es : List Edit),
      (Target.edit { name, isStage } { source } es).target.Owns
        (Target.edit { name, isStage } { source } es).handed) ∧
    ∀ (p : Program) (grid : Grid) (stageName : String) (source : IdSource), ∃ es,
      Target.edit { name := stageName } { source } es =
        ⟨(compile p grid stageName source).state.target,
          (compile p grid stageName source).state.supply,
          (compile p grid stageName source).state.target.ids⟩ ∧
      (compile p grid stageName source).state.target.Owns
        (compile p grid stageName source).state.target.ids ∧
      (compile p grid stageName source).state.target.size = es.countP Edit.isCreate := by
  have owns (name : String) (isStage : Bool) (source : IdSource) (es : List Edit) :
      (Target.edit { name, isStage } { source } es).target.Owns
        (Target.edit { name, isStage } { source } es).handed := by
    have hids := Target.edit_ids { name, isStage } { source } es
    have hn := Target.edit_nodup { name, isStage } { source } es .nil
    have h := Target.owns_of_nodup hn
    rwa [hids] at h
  refine ⟨Target.create_eq, fun t s es => ⟨Target.edit_ids t s es, Target.edit_handed_length t s es⟩,
    owns, fun p grid stageName source => ?_⟩
  obtain ⟨es, hes⟩ := compile_edits p grid stageName source
  have h := owns stageName true source es
  have hlen := Target.edit_handed_length { name := stageName } { source } es
  rw [hes] at h hlen
  exact ⟨es, hes, h, h.size.trans hlen⟩

end Lia
