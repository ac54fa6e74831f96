import Lia.Proofs.Lowering.Creation

/-!
# Notes of lowering

A statement that is not lowered in full is noted when it is come to: an event of a key, a call
or a direction that is not known, a branch with an alternate. A run that is refused half way has
noted what it had come to by then (`lowerAll_notes`, `lowerScripts_notes`). Main statement: the
notes of a program that is lowered, and how they account for its blocks (`compile_notes`).
-/

namespace Lia

open Lowering

-- ---------------------------------------------------------------------------
-- Statements that are noted
-- ---------------------------------------------------------------------------

/-- What is noted of a call by its name. -/
def callFallback? (args : List Value) : Value → Option Note
  | .text "move" | .text "say" | .text "wait" => none
  | .text "turn" =>
    if args.head?.all Stmt.isStray then some (.unknownDirection (args.head?.getD .null)) else none
  | name => if name.isHashable then some (.unhandledCall name) else none

/-- The note that a statement has no block. -/
def Note.isSkip : Note → Bool
  | .keySkipped _ | .unknownDirection _ => true
  | _ => false

namespace Stmt

/-- What is noted of a statement, apart from those inside. -/
def fallback? : Stmt → Option Note
  | .event (.key name) => some (.keySkipped name)
  | .branch condition _ (some _) => some (.alternateSkipped condition)
  | .call name args _ => callFallback? args name
  | _ => none

def isEmpty : Stmt → Bool
  | .empty => true
  | _ => false

theorem call_isIgnored (name : Value) (args : List Value) (duration : Value) :
    (Stmt.call name args duration).isIgnored = (callFallback? args name).any Note.isSkip := by
  unfold callFallback?
  split
  next => simp [isIgnored]
  next => simp [isIgnored]
  next => simp [isIgnored]
  next => cases h : args.head?.all isStray <;> simp [isIgnored, h, Note.isSkip]
  next hmove hsay hwait hturn =>
    unfold isIgnored
    split
    · simp_all
    · simp_all
    · simp_all
    · cases name.isHashable <;> rfl

/-- A statement has no block if it is empty, or if that is noted. -/
theorem isIgnored_eq (s : Stmt) : s.isIgnored = (s.isEmpty || s.fallback?.any Note.isSkip) := by
  cases s with
  | event t => cases t <;> rfl
  | branch condition consequent alternate => cases alternate <;> rfl
  | call name args duration => exact call_isIgnored name args duration
  | _ => rfl

theorem fallback?_of_isEmpty {s : Stmt} (h : s.isEmpty = true) : s.fallback? = none := by
  cases s with
  | empty => rfl
  | _ => cases h

/-- A call whose key cannot be looked up fails before it is noted. -/
theorem callFallback?_of_not_isHashable {name : Value} {args : List Value}
    (h : (callKey args name).isHashable = false) : callFallback? args name = none := by
  unfold callFallback?
  split
  next => rfl
  next => rfl
  next => rfl
  next =>
    rw [callKey] at h
    rw [all_isStray, isStray, h]
    rfl
  next hturn =>
    rw [callKey] at h
    · rw [h]
      rfl
    · exact hturn

theorem fallback?_of_refusal? {s : Stmt} {e : LoweringError} (h : s.refusal? = some e) :
    s.fallback? = none := by
  cases s with
  | event t =>
    cases t with
    | unknown => rfl
    | _ => cases h
  | call name args duration =>
    exact callFallback?_of_not_isHashable (lookupRefusal?_eq_some_iff.1 h).1
  | program => rfl
  | _ => cases h

/-- What is noted of statements one after another, up to one that is refused. -/
def notes (us : List Stmt) : List Note :=
  (us.takeWhile fun u => u.refusal?.isNone).filterMap fallback?

theorem notes_cons (u : Stmt) (us : List Stmt) :
    notes (u :: us) = u.fallback?.toList ++ if u.refusal? = none then notes us else [] := by
  cases hu : u.refusal? with
  | none => cases hf : u.fallback? <;> simp [notes, hu, hf]
  | some e => simp [notes, hu, fallback?_of_refusal? hu]

theorem notes_append (us vs : List Stmt) :
    notes (us ++ vs) = notes us ++ if us.findSome? refusal? = none then notes vs else [] := by
  induction us with
  | nil => rfl
  | cons u us ih =>
    rw [List.cons_append, notes_cons, notes_cons, ih, List.findSome?_cons, List.append_assoc]
    cases u.refusal? <;> simp

theorem notes_of_none {us : List Stmt} (h : us.findSome? refusal? = none) :
    notes us = us.filterMap fallback? := by
  rw [List.findSome?_eq_none_iff] at h
  rw [notes, List.takeWhile_eq_self_iff.2 fun u hu => by simp [h u hu]]

end Stmt

-- ---------------------------------------------------------------------------
-- Segments and chains
-- ---------------------------------------------------------------------------

namespace Lowering

@[simp] theorem noted_notes (s : Segment) (note : Option Note) :
    (s.noted note).notes = note.toList ++ s.notes := rfl

@[simp] theorem enclose_notes (c : Chain) (n : Nat) (opcode : Option String)
    (inputs : List (Input Nat)) : (c.enclose n opcode inputs).notes = c.notes := by
  unfold Chain.enclose
  split <;> rfl

theorem before_notes (s : Segment) (c : Chain) :
    (s.before c).notes = s.notes ++ if s.error = none then c.notes else [] := by
  unfold Segment.before
  split
  next e he => simp [he]
  next he => split <;> simp [he]

theorem unlisted_notes (v : Value) (s : Segment) :
    (Segment.unlisted v s).notes = if v.isHashable then s.notes else [] := by
  unfold Segment.unlisted
  split <;> rfl

theorem lowerTrigger_notes (n : Nat) (t : Trigger) :
    (lowerTrigger n t).notes = (Stmt.event t).fallback?.toList := by
  cases t with
  | unknown kind hk =>
    rw [lowerTrigger, unlisted_notes, ite_self]
    rfl
  | _ => rfl

theorem lowerCall_notes (n : Nat) (name : Value) (args : List Value) (duration : Value) :
    (lowerCall n name args duration).notes = (callFallback? args name).toList := by
  unfold lowerCall
  split
  next => rfl
  next =>
    simp only [callFallback?, all_isStray, Stmt.isStray]
    generalize args.head?.getD .null = direction
    cases hd : turnOpcode? direction with
    | some opcode =>
      have hknown : Stmt.isDirection direction = true := by
        rw [← Bool.not_eq_false, ← turnOpcode?_eq_none_iff, hd]
        exact Option.some_ne_none opcode
      rw [hknown, Bool.not_true, Bool.and_false]
      rfl
    | none =>
      rw [turnOpcode?_eq_none_iff.1 hd, Bool.not_false, Bool.and_true, unlisted_notes]
      cases direction.isHashable <;> rfl
  next => simp only; split <;> rfl
  next => rfl
  next hmove hturn hsay hwait =>
    rw [callFallback?, unlisted_notes]
    · cases name.isHashable <;> rfl
    all_goals assumption

mutual
theorem lowerStmt_notes (n : Nat) : (s : Stmt) → (lowerStmt n s).notes = Stmt.notes s.visits
  | .event t => by
    have hv : (Stmt.event t).visits = [.event t] := rfl
    rw [lowerStmt, lowerTrigger_notes, hv, Stmt.notes_cons]
    simp [Stmt.notes]
  | .repeatTimes _ body | .forever body => by
    rw [lowerStmt, enclose_notes, lowerAll_notes n body, Stmt.visits, Stmt.notes_cons]
    rfl
  | .branch condition consequent alternate => by
    rw [lowerStmt, noted_notes, enclose_notes, lowerAll_notes n consequent, Stmt.visits,
      Stmt.notes_cons, if_pos (by rfl)]
    cases alternate <;> rfl
  | .call name args duration => by
    have hv : (Stmt.call name args duration).visits = [.call name args duration] := rfl
    rw [lowerStmt, lowerCall_notes, hv, Stmt.notes_cons]
    simp [Stmt.notes, Stmt.fallback?]
  | .awaitUntil _ | .empty | .program _ => rfl
/-- A chain has noted what was come to, also when it is refused half way. -/
theorem lowerAll_notes (n : Nat) :
    (ss : List Stmt) → (lowerAll n ss).notes = Stmt.notes (Stmt.visitsAll ss)
  | [] => rfl
  | s :: ss => by
    rw [lowerAll, before_notes, lowerStmt_notes n s, lowerAll_notes _ ss, lowerStmt_error,
      Stmt.visitsAll, Stmt.notes_append]
end

-- ---------------------------------------------------------------------------
-- Scripts
-- ---------------------------------------------------------------------------

variable {grid : Grid} {whole : List Stmt}

theorem withHat_notes (hat : Block Nat) (d : Draft) : (d.withHat hat).notes = d.notes := rfl

theorem withNotes_notes (notes : List Note) (d : Draft) :
    (d.withNotes notes).notes = notes ++ d.notes := rfl

/-- Scripts have noted what was come to, leading events twice. -/
theorem lowerScripts_notes (hg : grid.maxColumns ≠ 0) (ss : List Stmt) (n root : Nat) :
    (lowerScripts grid whole n root ss).notes = Stmt.notes (visitsFrom whole ss) := by
  induction ss generalizing n root with
  | nil => rfl
  | cons s rest ih =>
    cases hs : s.isEvent with
    | true =>
      obtain ⟨t, rfl⟩ := isEvent_iff.1 hs
      rw [visitsFrom_event, Stmt.notes_cons, ← lowerTrigger_notes n t, ← lowerTrigger_error n t]
      obtain ⟨f, hf, ht, -⟩ | ⟨note, ht, -⟩ | ⟨e, ht⟩ := lowerTrigger_cases n t
      · rw [lowerScripts_hat hf ht, ht]
        obtain ⟨x, y, hp⟩ := placing_of_columns hg root (f.block n [] none none) fun hat =>
          (lowerScripts grid whole (n + 1) (root + 1) rest).withHat hat
        rw [hp, withHat_notes, ih]
        rfl
      · rw [lowerScripts_skip ht, ht, withNotes_notes, ih]
        rfl
      · simp [lowerScripts, ht]
    | false =>
      rw [lowerScripts_main hs, visitsFrom_main hs]
      obtain ⟨x, y, hp⟩ := placing_of_columns hg root _ _
      rw [hp]
      exact lowerAll_notes (n + 1) whole

end Lowering

-- ---------------------------------------------------------------------------
-- Accounting for statements
-- ---------------------------------------------------------------------------

/-- Of statements without a block some are empty, and the others are noted. -/
theorem Stmt.countP_isIgnored (us : List Stmt) : us.countP isIgnored =
    us.countP isEmpty + (us.filterMap fallback?).countP Note.isSkip := by
  induction us with
  | nil => rfl
  | cons u us ih =>
    rw [List.countP_cons, List.countP_cons, ih, isIgnored_eq]
    cases he : u.isEmpty with
    | true =>
      rw [List.filterMap_cons_none (fallback?_of_isEmpty he)]
      simp only [Bool.true_or, if_true]
      omega
    | false =>
      cases hf : u.fallback? with
      | none => simp [List.filterMap_cons_none hf]
      | some note =>
        rw [List.filterMap_cons_some hf, List.countP_cons]
        simp only [Bool.false_or, Option.any_some, Bool.false_eq_true, if_false]
        omega

theorem Stmt.length_eq_countP (us : List Stmt) : us.length = us.countP hasBlock +
    us.countP isEmpty + (us.filterMap fallback?).countP Note.isSkip := by
  have hignored : us.countP (fun u => decide ¬u.hasBlock = true) = us.countP isIgnored :=
    List.countP_congr fun u _ => by simp [hasBlock]
  rw [List.length_eq_countP_add_countP hasBlock, hignored, countP_isIgnored, Nat.add_assoc]

section
variable {p : Program} {grid : Grid} {stageName : String} {source : IdSource}

theorem compile_size : (compile p grid stageName source).state.target.size =
    (lowerProgram grid 0 p).size := by
  have hids := congrArg List.length (compile_target_ids p grid stageName source)
  simpa [Target.ids, Target.size, programIds] using hids

/-- Every statement that is come to and has a block has one, besides the green flag. -/
theorem compile_size_visits (hg : grid.maxColumns ≠ 0)
    (h : (compile p grid stageName source).result = .ok ()) :
    (compile p grid stageName source).state.target.size =
      p.visits.countP Stmt.hasBlock + if p.body.all Stmt.isEvent then 0 else 1 := by
  -- The number of blocks is the same for every source, and this one has no empty id.
  have hid : ∀ n, (IdSource.ofList []).id n ≠ "" := IdSource.ofList_ne_empty (by simp)
  have hok : (compile p grid stageName (.ofList [])).result = .ok () := by
    rwa [compile_result_ok_iff] at h ⊢
  obtain ⟨scripts, hblocks, -, -, hscripts⟩ := compile_lays hid hok
  have hlength := (Program.creates_of_scripts (compile_supported hg h) hscripts).length_eq
  rw [← hblocks, ← Target.size, compile_size] at hlength
  rw [compile_size, hlength, Program.visits, visitsFrom, List.countP_append]
  split
  · rw [List.countP_nil]
  · omega

theorem compile_noted (h : (compile p grid stageName source).result = .ok ()) :
    (compile p grid stageName source).notes = (lowerProgram grid 0 p).notes ++
      [.compiled (compile p grid stageName source).state.target.size
        (compile p grid stageName source).state.roots.length] := by
  rw [compile_result_ok_iff] at h
  simp [compile, Compilation.program, Compilation.start, h]

/-- What is noted of a program that is lowered is one note for each statement that is come to
and not lowered in full, in order, and then how much there is. A statement that is come to has
a block, or it is empty, or it is noted that it has none. -/
theorem compile_notes (hg : grid.maxColumns ≠ 0)
    (h : (compile p grid stageName source).result = .ok ()) :
    let c := compile p grid stageName source
    c.notes = p.visits.filterMap Stmt.fallback? ++
      [.compiled c.state.target.size c.state.roots.length] ∧
    c.notes.getLast?.map Note.message =
      some s!"compiled {c.state.target.size} blocks in {c.state.roots.length} scripts" ∧
    p.visits.length + (if p.body.all Stmt.isEvent then 0 else 1) =
      c.state.target.size + p.visits.countP Stmt.isEmpty + c.notes.countP Note.isSkip := by
  intro c
  have hnone : p.visits.findSome? Stmt.refusal? = none := by
    rwa [compile_result_ok_iff, lowerProgram_error hg] at h
  have hnotes : c.notes = p.visits.filterMap Stmt.fallback? ++
      [.compiled c.state.target.size c.state.roots.length] := by
    rw [compile_noted h, lowerProgram, lowerScripts_notes hg, ← Program.visits, Stmt.notes_of_none hnone]
  refine ⟨hnotes, by rw [hnotes, List.getLast?_concat]; rfl, ?_⟩
  have hskips : c.notes.countP Note.isSkip =
      (p.visits.filterMap Stmt.fallback?).countP Note.isSkip := by
    rw [hnotes, List.countP_append]
    rfl
  have hvisits := Stmt.length_eq_countP p.visits
  have hsize : c.state.target.size = _ := compile_size_visits hg h
  rw [hskips]
  omega

end

/-- `on key(a); if (x) { turn(up); } else { dance; } dance; ;` -/
def clumsy : Program :=
  ⟨[.event (.key "a"), .branch "x" [.call "turn" ["up"] .null] (some [.call "dance" [] .null]),
    .call "dance" [] .null, .empty]⟩

theorem clumsy_notes :
    ({} : Grid).maxColumns ≠ 0 ∧ (compile clumsy {} "Stage" (.ofList [])).result = .ok () ∧
      (compile clumsy {} "Stage" (.ofList [])).notes =
        [.keySkipped "a", .keySkipped "a", .alternateSkipped "x", .unknownDirection "up",
          .unhandledCall "dance", .compiled 3 1] := by
  have hg : ({} : Grid).maxColumns ≠ 0 := by decide
  have hok : (compile clumsy {} "Stage" (.ofList [])).result = .ok () :=
    (compile_result_ok_iff _ _ _ _).2 (lowerScripts_error hg rfl clumsy.body 0 0 rfl)
  obtain ⟨hnotes, -, -⟩ := compile_notes hg hok
  rw [compile_size, compile_roots, List.length_map] at hnotes
  exact ⟨hg, hok, hnotes⟩

end Lia
