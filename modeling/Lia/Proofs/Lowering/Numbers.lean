import Lia.Lowering.Draft

/-!
# Numbers of blocks

Lowering numbers blocks in the order in which they are created, also when it stops at an
error (`lowerAll_numbered`, `lowerScripts_numbered`).
-/

namespace Lia.Lowering

variable {n : Nat}

/-- The numbers from `n` on. -/
def Numbered (n : Nat) (ids : List Nat) : Prop := ids = List.range' n ids.length

theorem Numbered.append {as bs : List Nat} (ha : Numbered n as)
    (hb : Numbered (n + as.length) bs) : Numbered n (as ++ bs) := by
  unfold Numbered at ha hb
  rw [Numbered, ha, hb]
  simp [List.range'_append_1]

theorem Numbered.cons {ids : List Nat} (h : Numbered (n + 1) ids) : Numbered n (n :: ids) := by
  have hn : Numbered n [n] := rfl
  exact hn.append h

-- ---------------------------------------------------------------------------
-- Segments and chains
-- ---------------------------------------------------------------------------

theorem length_segment_ids (s : Segment) : (s.blocks.map Block.id).length = s.size := by
  simp [Segment.size]

theorem enclose_ids (c : Chain) (n : Nat) (opcode : Option String)
    (inputs : List (Input Nat)) : (c.enclose n opcode inputs).blocks.map Block.id =
      c.blocks.map Block.id ++ if c.error = none then [n + c.blocks.length] else [] := by
  cases he : c.error with
  | none => simp [Chain.enclose, he, Segment.blocks, Function.comp_def, apply_ite Block.id]
  | some e => simp [Chain.enclose, he, Segment.blocks]

theorem before_ids (s : Segment) (c : Chain) : (s.before c).blocks.map Block.id =
    s.blocks.map Block.id ++ if s.error = none then c.blocks.map Block.id else [] := by
  unfold Segment.before
  split
  next he => simp [he]
  next he => split <;> simp [*, Segment.blocks]

theorem Numbered.segment {s : Segment} (h : Numbered n (s.blocks.map Block.id)) :
    s.blocks.map Block.id = List.range' n s.size := by
  rwa [Numbered, length_segment_ids] at h

theorem Numbered.chain {c : Chain} (h : Numbered n (c.blocks.map Block.id)) :
    c.blocks.map Block.id = List.range' n c.blocks.length := by
  rwa [Numbered, List.length_map] at h

/-- What cannot be looked up leaves nothing but an error. -/
theorem unlisted_of {P : Segment → Prop} (v : Value) {s : Segment} (hs : P s)
    (he : ∀ e, P { error := some e }) : P (.unlisted v s) := by
  unfold Segment.unlisted
  split
  · exact hs
  · exact he _

theorem lowerTrigger_unknown (n : Nat) {kind : Value} (hk : isEventKind kind = false) :
    ∃ e, lowerTrigger n (.unknown kind hk) = { error := some e } :=
  unlisted_of (P := fun s => ∃ e, s = { error := some e }) kind ⟨_, rfl⟩ fun e => ⟨e, rfl⟩

theorem lowerTrigger_numbered (t : Trigger) : Numbered n ((lowerTrigger n t).blocks.map Block.id) := by
  cases t with
  | unknown kind hk =>
    obtain ⟨e, h⟩ := lowerTrigger_unknown n hk
    rw [h]
    rfl
  | _ => rfl

/-- At most a block of its own, and none behind an error. -/
structure Segment.AtMostOwn (s : Segment) (n : Nat) : Prop where
  eq : s = { own := s.own, notes := s.notes, error := s.error }
  id : ∀ b ∈ s.own, b.id = n
  error : s.error ≠ none → s.own = none

theorem single_atMostOwn (n : Nat) (opcode : String) (inputs : List (Input Nat))
    (fields : List Field) : (Segment.single n opcode inputs fields).AtMostOwn n :=
  ⟨rfl, by simp [Segment.single], by simp [Segment.single]⟩

theorem empty_atMostOwn (notes : List Note) (error : Option LoweringError) :
    ({ notes, error } : Segment).AtMostOwn n := ⟨rfl, nofun, fun _ => rfl⟩

theorem lowerCall_atMostOwn (n : Nat) (name : Value) (args : List Value) (duration : Value) :
    (lowerCall n name args duration).AtMostOwn n := by
  unfold lowerCall
  split
  next => exact single_atMostOwn n _ _ _
  next =>
    simp only
    split
    · exact single_atMostOwn n _ _ _
    · exact unlisted_of (P := (·.AtMostOwn n)) _ (empty_atMostOwn _ _) fun _ => empty_atMostOwn _ _
  next => simp only; split <;> exact single_atMostOwn n _ _ _
  next => exact single_atMostOwn n _ _ _
  next =>
    have h := single_atMostOwn n "procedures_call" [] []
    exact unlisted_of (P := (·.AtMostOwn n)) _ ⟨rfl, h.id, h.error⟩ fun _ =>
      empty_atMostOwn _ _

theorem lowerCall_numbered (name : Value) (args : List Value) (duration : Value) :
    Numbered n ((lowerCall n name args duration).blocks.map Block.id) := by
  obtain ⟨heq, hid, -⟩ := lowerCall_atMostOwn n name args duration
  generalize lowerCall n name args duration = s at heq hid
  rw [heq]
  cases ho : s.own with
  | none => simp [Numbered, Segment.blocks]
  | some b => simp [Numbered, Segment.blocks, hid b ho]

theorem enclose_numbered {c : Chain} (h : Numbered n (c.blocks.map Block.id))
    (opcode : Option String) (inputs : List (Input Nat)) :
    Numbered n ((c.enclose n opcode inputs).blocks.map Block.id) := by
  rw [enclose_ids]
  split
  · exact h.append (by simp [Numbered])
  · simpa using h

theorem before_numbered {s : Segment} {c : Chain} (hs : Numbered n (s.blocks.map Block.id))
    (hc : Numbered (n + s.size) (c.blocks.map Block.id)) :
    Numbered n ((s.before c).blocks.map Block.id) := by
  rw [before_ids]
  split
  · exact hs.append (by rwa [length_segment_ids])
  · simpa using hs

mutual
theorem lowerStmt_numbered (n : Nat) :
    (s : Stmt) → Numbered n ((lowerStmt n s).blocks.map Block.id)
  | .event t => lowerTrigger_numbered t
  | .repeatTimes _ body | .forever body | .branch _ body _ =>
    enclose_numbered (lowerAll_numbered n body) _ _
  | .awaitUntil _ | .empty | .program _ => rfl
  | .call name args duration => lowerCall_numbered name args duration
/-- The blocks of a list of statements have the numbers from its own on. -/
theorem lowerAll_numbered (n : Nat) :
    (ss : List Stmt) → Numbered n ((lowerAll n ss).blocks.map Block.id)
  | [] => rfl
  | s :: ss => before_numbered (lowerStmt_numbered n s) (lowerAll_numbered (n + (lowerStmt n s).size) ss)
end

-- ---------------------------------------------------------------------------
-- Drafts
-- ---------------------------------------------------------------------------

/-- The numbers of the blocks of a draft, in the order of creation. -/
def Draft.ids (d : Draft) : List Nat :=
  d.hats.map Block.id ++ match d.main with
    | some (hat, chain) => hat.id :: chain.blocks.map Block.id
    | none => []

theorem placing_numbered (grid : Grid) (root : Nat) {hat : Block Nat} (hid : hat.id = n)
    {following : Block Nat → Draft}
    (h : ∀ hat' : Block Nat, hat'.id = n → Numbered n (following hat').ids) :
    Numbered n (Draft.placing grid root hat following).ids := by
  unfold Draft.placing
  split
  · simp [Draft.ids, Numbered, hid]
  · exact h _ hid

theorem lowerScripts_refused (grid : Grid) (whole rest : List Stmt) (n root : Nat) {t : Trigger}
    {e : LoweringError} (h : lowerTrigger n t = { error := some e }) :
    lowerScripts grid whole n root (.event t :: rest) = { error := some e } := by
  simp only [lowerScripts, h]

/-- The blocks of scripts have the numbers from the first hat's on. -/
theorem lowerScripts_numbered (grid : Grid) (whole ss : List Stmt) (n root : Nat) :
    Numbered n (lowerScripts grid whole n root ss).ids := by
  induction ss generalizing n root with
  | nil => rfl
  | cons s rest ih =>
    cases s with
    | event t =>
      cases t with
      | start | click | backdrop =>
        refine placing_numbered grid root rfl ?_
        rintro hat rfl
        exact (ih (hat.id + 1) (root + 1)).cons
      | key => exact ih n root
      | unknown kind hk =>
        obtain ⟨e, h⟩ := lowerTrigger_unknown n hk
        rw [lowerScripts_refused grid whole rest n root h]
        rfl
    | _ =>
      refine placing_numbered grid root rfl ?_
      rintro hat rfl
      exact (lowerAll_numbered (hat.id + 1) whole).cons

end Lia.Lowering
