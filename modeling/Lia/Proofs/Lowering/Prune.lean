import Lia.Proofs.Lowering.Scripts

/-!
# What lowering passes over

Some statements have no block, and the alternate of a branch is not lowered.
`Program.prune` leaves all of them out, but for the first top-level statement that is no
event: it begins the main script even without a block. Main statement: lowering gives the
same for the pruned program, and no other statement is without a block (`compile_prune`).
-/

namespace Lia

open Lowering

namespace Stmt

def isDirection : Value → Bool
  | .text s => s = "right" || s = "left" || s = "lef"
  | _ => false

/-- A direction that is looked up in vain. -/
def isStray (v : Value) : Bool := v.isHashable && !isDirection v

/-- Nothing, the event of a key, or a turn without a direction that is known. -/
def isIgnored : Stmt → Bool
  | .event (.key _) | .empty => true
  | .call (.text "turn") args _ => args.head?.all isStray
  | _ => false

mutual
/-- Without alternates, and without ignored statements in the lists inside. -/
def prune : Stmt → Stmt
  | .repeatTimes count body => .repeatTimes count (pruneAll body)
  | .forever body => .forever (pruneAll body)
  | .branch condition consequent _ => .branch condition (pruneAll consequent) none
  | .program body => .program (pruneAll body)
  | s => s
termination_by structural s => s
def pruneAll : List Stmt → List Stmt
  | [] => []
  | s :: ss => if s.isIgnored then pruneAll ss else s.prune :: pruneAll ss
termination_by structural ss => ss
end

/-- The first statement that is no event stays, whatever it is. -/
def pruneScripts : List Stmt → List Stmt
  | [] => []
  | .event t :: ss =>
    if (Stmt.event t).isIgnored then pruneScripts ss else .event t :: pruneScripts ss
  | s :: ss => s.prune :: pruneAll ss

end Stmt

def Program.prune (p : Program) : Program := ⟨Stmt.pruneScripts p.body⟩

-- ---------------------------------------------------------------------------
-- Without notes
-- ---------------------------------------------------------------------------

namespace Lowering

def Segment.mute (s : Segment) : Segment := { s with notes := [] }

def Chain.mute (c : Chain) : Chain := { c with notes := [] }

def Draft.mute (d : Draft) : Draft :=
  { d with main := d.main.map fun m => (m.1, m.2.mute), notes := [] }

@[simp] theorem mute_size (s : Segment) : s.mute.size = s.size := rfl

@[simp] theorem mute_noted (s : Segment) (note : Option Note) : (s.noted note).mute = s.mute := rfl

theorem mute_before (s : Segment) (c : Chain) : (s.before c).mute = s.mute.before c.mute := by
  obtain ⟨inner, own, notes, error⟩ := s
  cases error <;> cases own <;> rfl

theorem mute_enclose (c : Chain) (n : Nat) (opcode : Option String) (inputs : List (Input Nat)) :
    (c.enclose n opcode inputs).mute = c.mute.enclose n opcode inputs := by
  obtain ⟨blocks, first, last, notes, error⟩ := c
  cases error <;> rfl

-- ---------------------------------------------------------------------------
-- Statements
-- ---------------------------------------------------------------------------

theorem turnOpcode?_eq_none_iff {v : Value} :
    turnOpcode? v = none ↔ Stmt.isDirection v = false := by
  unfold turnOpcode? Stmt.isDirection
  split <;> grind

/-- A missing direction is as good as none. -/
theorem all_isStray (args : List Value) :
    args.head?.all Stmt.isStray = Stmt.isStray (args.head?.getD .null) := by
  cases args <;> rfl

/-- A turn is the one call that may have no block. -/
theorem lowerCall_ignored_iff (n : Nat) (name : Value) (args : List Value) (duration : Value) :
    (lowerCall n name args duration).own = none ∧ (lowerCall n name args duration).error = none ↔
      (Stmt.call name args duration).isIgnored = true := by
  unfold lowerCall Stmt.isIgnored
  split
  next => simp [Segment.single]
  next =>
    simp only [all_isStray, Stmt.isStray, Bool.and_eq_true, Bool.not_eq_true', ← turnOpcode?_eq_none_iff]
    generalize args.head?.getD .null = direction
    cases turnOpcode? direction <;>
      cases h : direction.isHashable <;> simp [Segment.single, Segment.skip, Segment.unlisted, h]
  next => simp only; split <;> simp [Segment.single]
  next => simp [Segment.single]
  next =>
    split
    · simp_all
    · simp_all
    · simp_all
    · cases h : name.isHashable <;> simp [Segment.single, Segment.noted, Segment.unlisted, h]

theorem enclose_own_or_error (c : Chain) (n : Nat) (opcode : Option String)
    (inputs : List (Input Nat)) :
    ¬ ((c.enclose n opcode inputs).own = none ∧ (c.enclose n opcode inputs).error = none) := by
  unfold Chain.enclose
  split <;> simp [*]

theorem lowerStmt_ignored_iff (n : Nat) (s : Stmt) :
    (lowerStmt n s).own = none ∧ (lowerStmt n s).error = none ↔ s.isIgnored = true := by
  cases s with
  | event t =>
    cases t with
    | unknown kind hk =>
      obtain ⟨e, h⟩ := lowerTrigger_unknown n hk
      simp [lowerStmt, h, Stmt.isIgnored]
    | _ => simp [lowerStmt, lowerTrigger, Stmt.isIgnored, Segment.single, Segment.skip]
  | repeatTimes | forever | branch =>
    simpa [lowerStmt, Stmt.isIgnored, Segment.noted] using enclose_own_or_error _ _ _ _
  | call name args duration => exact lowerCall_ignored_iff n name args duration
  | awaitUntil => simp [lowerStmt, Stmt.isIgnored, Segment.single]
  | empty => simp [lowerStmt, Stmt.isIgnored]
  | program => simp [lowerStmt, Stmt.isIgnored]

theorem mute_ignored {s : Stmt} (h : s.isIgnored = true) (n : Nat) : (lowerStmt n s).mute = {} := by
  cases s with
  | event t =>
    cases t with
    | key => rfl
    | _ => simp [Stmt.isIgnored] at h
  | call name args duration =>
    obtain ⟨ho, he⟩ := (lowerCall_ignored_iff n name args duration).2 h
    rw [lowerStmt, (lowerCall_atMostOwn n name args duration).eq, ho, he]
    rfl
  | empty => rfl
  | _ => simp [Stmt.isIgnored] at h

theorem mute_lowerAll_ignored {s : Stmt} (h : s.isIgnored = true) (n : Nat) (ss : List Stmt) :
    (lowerAll n (s :: ss)).mute = (lowerAll n ss).mute := by
  have hs := mute_ignored h n
  have hsize : (lowerStmt n s).size = 0 := by rw [← mute_size, hs]; rfl
  rw [lowerAll, mute_before, hs, hsize]
  rfl

theorem mute_lowerAll_congr {n : Nat} {s s' : Stmt} {ss ss' : List Stmt}
    (hs : (lowerStmt n s).mute = (lowerStmt n s').mute)
    (hss : ∀ m, (lowerAll m ss).mute = (lowerAll m ss').mute) :
    (lowerAll n (s :: ss)).mute = (lowerAll n (s' :: ss')).mute := by
  -- The statements behind are numbered from here, so they need the same size before them.
  have hsize : (lowerStmt n s).size = (lowerStmt n s').size := by rw [← mute_size, hs, mute_size]
  rw [lowerAll, lowerAll, mute_before, mute_before, hs, hsize, hss]

mutual
theorem lowerStmt_prune (n : Nat) :
    (s : Stmt) → (lowerStmt n s.prune).mute = (lowerStmt n s).mute
  | .repeatTimes _ body | .forever body | .branch _ body _ => by
    simp only [Stmt.prune, lowerStmt, mute_noted, mute_enclose, lowerAll_prune n body]
  | .event _ | .awaitUntil _ | .call .. | .empty | .program _ => rfl
/-- The chain of a list is that of the pruned one, with other notes. -/
theorem lowerAll_prune (n : Nat) :
    (ss : List Stmt) → (lowerAll n (Stmt.pruneAll ss)).mute = (lowerAll n ss).mute
  | [] => rfl
  | s :: ss => by
    rw [Stmt.pruneAll]
    split
    next h => rw [lowerAll_prune n ss, mute_lowerAll_ignored h]
    next => exact mute_lowerAll_congr (lowerStmt_prune n s) fun m => lowerAll_prune m ss
end

theorem lowerAll_pruneScripts (n : Nat) (ss : List Stmt) :
    (lowerAll n (Stmt.pruneScripts ss)).mute = (lowerAll n ss).mute := by
  induction ss generalizing n with
  | nil => rfl
  | cons s ss ih =>
    cases s with
    | event t =>
      rw [Stmt.pruneScripts]
      split
      next h => rw [ih, mute_lowerAll_ignored h]
      next => exact mute_lowerAll_congr rfl ih
    | _ => exact mute_lowerAll_congr (lowerStmt_prune n _) fun m => lowerAll_prune m ss

-- ---------------------------------------------------------------------------
-- Scripts
-- ---------------------------------------------------------------------------

theorem placing_mute_congr (grid : Grid) (root : Nat) (hat : Block Nat)
    {following following' : Block Nat → Draft}
    (h : ∀ hat, (following' hat).mute = (following hat).mute) :
    (Draft.placing grid root hat following').mute = (Draft.placing grid root hat following).mute := by
  unfold Draft.placing
  split
  · rfl
  · exact h _

theorem withHat_mute (hat : Block Nat) (d : Draft) : (d.withHat hat).mute = d.mute.withHat hat := rfl

variable {grid : Grid} {whole whole' : List Stmt}

theorem main_mute_congr {n : Nat}
    (h : (lowerAll n whole').mute = (lowerAll n whole).mute) (hat : Block Nat) (roots : List Nat) :
    ({ main := some (hat, lowerAll n whole'), roots
       notes := (lowerAll n whole').notes, error := (lowerAll n whole').error } : Draft).mute =
      ({ main := some (hat, lowerAll n whole), roots
         notes := (lowerAll n whole).notes, error := (lowerAll n whole).error } : Draft).mute := by
  have he : (lowerAll n whole').error = (lowerAll n whole).error := by
    simpa [Chain.mute] using congrArg Chain.error h
  simp [Draft.mute, h, he]

/-- Scripts are those of the pruned list, over a program that lowers to the same. -/
theorem lowerScripts_prune (h : ∀ n, (lowerAll n whole').mute = (lowerAll n whole).mute)
    (ss : List Stmt) (n root : Nat) :
    (lowerScripts grid whole' n root (Stmt.pruneScripts ss)).mute =
      (lowerScripts grid whole n root ss).mute := by
  induction ss generalizing n root with
  | nil => rfl
  | cons s rest ih =>
    cases s with
    | event t =>
      cases t with
      | key => exact ih n root
      | start | click | backdrop =>
        refine placing_mute_congr grid root _ fun hat => ?_
        rw [withHat_mute, withHat_mute, ih]
      | unknown kind hk =>
        obtain ⟨e, ht⟩ := lowerTrigger_unknown n hk
        rw [lowerScripts_refused grid whole rest n root ht]
        exact congrArg Draft.mute (lowerScripts_refused grid whole' _ n root ht)
    -- The main script is that of the whole program, whatever stands behind its first statement.
    | _ => exact placing_mute_congr grid root _ fun hat => main_mute_congr (h (n + 1)) hat [n]

-- ---------------------------------------------------------------------------
-- Programs
-- ---------------------------------------------------------------------------

theorem mute_assign (d : Draft) (ids : List String) : d.mute.assign ids = d.assign ids := by
  unfold Draft.assign Draft.mute
  cases d.main <;> rfl

theorem mute_draft_size (d : Draft) : d.mute.size = d.size := by
  unfold Draft.size Draft.mute
  cases d.main <;> rfl

end Lowering

variable (p : Program) (grid : Grid) (stageName : String) (source : IdSource)

theorem lowerProgram_prune (roots : Nat) :
    (lowerProgram grid roots p.prune).mute = (lowerProgram grid roots p).mute :=
  lowerScripts_prune (fun n => lowerAll_pruneScripts n p.body) p.body 0 roots

/-- A program is lowered as the pruned one is, also up to an error, and the statements that
may be left out are those that have no block. -/
theorem compile_prune :
    (compile p.prune grid stageName source).state = (compile p grid stageName source).state ∧
    (compile p.prune grid stageName source).result = (compile p grid stageName source).result ∧
    ∀ (s : Stmt) (n : Nat),
      (lowerStmt n s).own = none ∧ (lowerStmt n s).error = none ↔ s.isIgnored = true := by
  have hd := lowerProgram_prune p grid 0
  have hsize : (lowerProgram grid 0 p.prune).size = (lowerProgram grid 0 p).size := by
    rw [← mute_draft_size, hd, mute_draft_size]
  have hassign (ids : List String) :
      (lowerProgram grid 0 p.prune).assign ids = (lowerProgram grid 0 p).assign ids := by
    rw [← mute_assign, hd, mute_assign]
  have hroots : (lowerProgram grid 0 p.prune).roots = (lowerProgram grid 0 p).roots := by
    simpa [Draft.mute] using congrArg Draft.roots hd
  have herror : (lowerProgram grid 0 p.prune).error = (lowerProgram grid 0 p).error := by
    simpa [Draft.mute] using congrArg Draft.error hd
  refine ⟨?_, ?_, fun s n => lowerStmt_ignored_iff n s⟩
  · have hids : programIds p.prune grid source = programIds p grid source := by
      rw [programIds, programIds, hsize]
    rw [compile_state, compile_state, hids, hassign, hsize, hroots]
  · rw [compile_result, compile_result, herror]

example : Program.prune
    ⟨[.event (.key "a"), .empty, .empty, .forever [.empty, .call "turn" [] .null]]⟩ =
      ⟨[.empty, .forever []]⟩ := rfl

end Lia
