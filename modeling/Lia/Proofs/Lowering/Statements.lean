import Lia.Lowering.Draft
import Lia.Proofs.Image
import Lia.Proofs.Lowering.Numbers
import Lia.Proofs.Lowering.Tree

/-!
# Statements become trees

Lowering a list of statements lays out a list of trees, numbered in order of creation,
and the nodes of these trees are the images of the statements (`lowerAll_lays`). It
fails at the first statement it comes to that it refuses (`lowerAll_error`).
-/

namespace Lia

open Lia.Tree

-- ---------------------------------------------------------------------------
-- The nodes of trees
-- ---------------------------------------------------------------------------

def Shadow.field (s : Shadow) : String × Value := (s.name, .list [1, .list [.int s.type, s.value]])

def Field.field (f : Field) : String × Value := (f.name, f.toValue)

mutual
def Tree.node : Tree ι → Node
  | .leaf _ f => .plain f.opcode (f.values.map Shadow.field) (f.fields.map Field.field)
  | .container _ f inside =>
    .container f.opcode (f.values.map Shadow.field) (f.fields.map Field.field) (Tree.nodes inside)
termination_by structural t => t
def Tree.nodes : List (Tree ι) → List Node
  | [] => []
  | t :: ts => t.node :: Tree.nodes ts
termination_by structural ts => ts
end

-- ---------------------------------------------------------------------------
-- Visited statements
-- ---------------------------------------------------------------------------

namespace Stmt

/-- How the look-up of a value fails. -/
def lookupRefusal? (v : Value) : Option LoweringError :=
  if v.isHashable then none else some (.unhashable v)

/-- How lowering fails at a statement, apart from those inside. -/
def refusal? : Stmt → Option LoweringError
  | .program _ => some .nestedProgram
  | .event t =>
    if isEventKind t.kind then none
    else (lookupRefusal? t.kind).or (some (.unknownEvent t.kind))
  | .call name args _ => lookupRefusal? (callKey args name)
  | _ => none

mutual
/-- A statement and those in its bodies. An alternate is never come to. -/
def visits : Stmt → List Stmt
  | .repeatTimes count body => .repeatTimes count body :: visitsAll body
  | .forever body => .forever body :: visitsAll body
  | .branch condition consequent alternate =>
    .branch condition consequent alternate :: visitsAll consequent
  | s => [s]
termination_by structural s => s
def visitsAll : List Stmt → List Stmt
  | [] => []
  | s :: ss => s.visits ++ visitsAll ss
termination_by structural ss => ss
end

theorem mem_visits (s : Stmt) : s ∈ s.visits := by
  cases s <;> simp [visits]

theorem mem_visitsAll {s : Stmt} {ss : List Stmt} (h : s ∈ ss) : s ∈ visitsAll ss := by
  induction ss with
  | nil => cases h
  | cons s' ss ih =>
    rw [visitsAll, List.mem_append]
    obtain rfl | h := List.mem_cons.1 h
    · exact .inl s.mem_visits
    · exact .inr (ih h)

theorem lookupRefusal?_eq_none_iff {v : Value} : lookupRefusal? v = none ↔ v.isHashable = true := by
  cases h : v.isHashable <;> simp [lookupRefusal?, h]

mutual
theorem supported_iff : (s : Stmt) → (s.supported = true ↔ ∀ u ∈ s.visits, u.refusal? = none)
  | .event t => by
    cases t with
    | unknown kind hk => simp [supported, visits, refusal?, Trigger.kind, hk]
    | _ => simp [supported, visits, refusal?, Trigger.kind, isEventKind]
  | .call name args _ => by simp [supported, visits, refusal?, lookupRefusal?_eq_none_iff]
  | .repeatTimes _ body | .forever body | .branch _ body _ => by
    simp [supported, visits, refusal?, supportedAll_iff body]
  | .awaitUntil _ | .empty | .program _ => by simp [supported, visits, refusal?]
/-- What can be lowered is what nothing is refused of. -/
theorem supportedAll_iff :
    (ss : List Stmt) → (supportedAll ss = true ↔ ∀ u ∈ visitsAll ss, u.refusal? = none)
  | [] => by simp [supportedAll, visitsAll]
  | s :: ss => by
    simp [supportedAll, visitsAll, supported_iff s, supportedAll_iff ss, or_imp, forall_and]
end

end Stmt

namespace Lowering

-- ---------------------------------------------------------------------------
-- Segments and chains
-- ---------------------------------------------------------------------------

/-- The segment is what a tree is stored as, whatever follows it, or it is empty. -/
structure Segment.Lays (s : Segment) (n : Nat) (t : Option (Tree Nat)) : Prop where
  own : s.own.map Block.id = t.map Tree.id
  blocks : ∀ next, s.inner ++ (s.own.map fun b => { b with next }).toList =
    t.elim [] (·.layout none next)
  ids : s.blocks.map Block.id = List.range' n s.size

/-- The chain is what trees are stored as. -/
structure Chain.Lays (c : Chain) (n : Nat) (ts : List (Tree Nat)) : Prop where
  first : c.first = first? ts
  blocks : c.blocks = layoutAll none ts
  ids : c.blocks.map Block.id = List.range' n c.blocks.length

theorem Segment.Lays.numbered {s : Segment} (h : s.Lays n t) :
    Numbered n (s.blocks.map Block.id) := by
  rw [Numbered, length_segment_ids, h.ids]

theorem Chain.Lays.numbered {c : Chain} (h : c.Lays n ts) : Numbered n (c.blocks.map Block.id) := by
  rw [Numbered, List.length_map, h.ids]

theorem single_lays (n : Nat) (f : Face) (hp : f.place = none) :
    (Segment.single n f.opcode (f.values.map Shadow.input) f.fields).Lays n (some (.leaf n f)) where
  own := rfl
  blocks next := by simp [Segment.single, layout, Face.block, hp]
  ids := rfl

theorem Segment.Lays.noted {s : Segment} (h : s.Lays n t) (note : Option Note) :
    (s.noted note).Lays n t := ⟨h.own, h.blocks, h.ids⟩

theorem empty_lays {s : Segment} (hi : s.inner = []) (ho : s.own = none) : s.Lays n none where
  own := by simp [ho]
  blocks := by simp [hi, ho]
  ids := by simp [Segment.size, Segment.blocks, hi, ho]

theorem nil_lays (n : Nat) : ({} : Chain).Lays n [] := ⟨rfl, rfl, rfl⟩

@[simp] theorem hang_id [DecidableEq ι] (id : Option ι) (parent : ι) (b : Block ι) :
    (hang id parent b).id = b.id := by
  unfold hang
  split <;> rfl

theorem enclose_eq {c : Chain} (he : c.error = none) (n : Nat) (opcode : Option String)
    (inputs : List (Input Nat)) :
    c.enclose n opcode inputs = {
      inner := c.blocks.map (hang c.first (n + c.blocks.length))
      own := some { id := n + c.blocks.length, opcode, inputs := inputs ++ [.substack "SUBSTACK" c.first] }
      notes := c.notes } := by
  simp only [Chain.enclose, he]
  rfl

theorem Chain.Lays.enclose {c : Chain} (h : c.Lays n ts) (he : c.error = none) (f : Face)
    (hp : f.place = none) (hf : f.fields = []) :
    (c.enclose n (some f.opcode) (f.values.map Shadow.input)).Lays n
      (some (.container (n + c.blocks.length) f ts)) := by
  have hinner : c.blocks.map (hang c.first (n + c.blocks.length)) =
      layoutAll (some (n + c.blocks.length)) ts := by
    have hn : (c.blocks.map Block.id).Nodup := h.ids ▸ List.nodup_range'
    rw [h.blocks] at hn
    rw [h.first, ← layoutAll_map_hang ts hn, ← h.blocks]
  have hids := (enclose_numbered h.numbered (some f.opcode) (f.values.map Shadow.input)).segment
  rw [enclose_eq he] at hids ⊢
  refine ⟨?_, ?_, hids⟩
  · rfl
  · intro next
    simp only [Option.map_some, Option.toList_some, Option.elim_some, layout]
    rw [← hinner, h.first]
    simp [Face.block, hp, hf]

theorem Segment.Lays.before {s : Segment} {c : Chain} (hs : s.Lays n t) (he : s.error = none)
    (hc : c.Lays (n + s.size) ts) : (s.before c).Lays n (t.toList ++ ts) := by
  have hids := (before_numbered hs.numbered hc.numbered).chain
  unfold Segment.before at hids ⊢
  simp only [he] at hids ⊢
  cases ho : s.own with
  | none =>
    obtain rfl : t = none := Option.map_eq_none_iff.1 (by rw [← hs.own, ho]; rfl)
    have hi : s.inner = [] := by simpa [ho] using hs.blocks none
    have hn : s.size = 0 := by simp [Segment.size, Segment.blocks, hi, ho]
    rw [hn, Nat.add_zero] at hc
    rw [ho] at hids
    exact ⟨hc.first, by simpa [hi] using hc.blocks, hids⟩
  | some b =>
    obtain ⟨t, rfl, hb⟩ : ∃ t', t = some t' ∧ b.id = t'.id := by
      have hown := hs.own
      rw [ho] at hown
      obtain ⟨t', ht, hb⟩ := Option.map_eq_some_iff.1 hown.symm
      exact ⟨t', ht, hb.symm⟩
    have hblocks : s.inner ++ [{ b with next := c.first }] = t.layout none c.first := by
      simpa [ho] using hs.blocks c.first
    rw [ho] at hids
    refine ⟨?_, ?_, hids⟩
    · simp [hb]
    · simp only [Option.toList_some, List.singleton_append, layoutAll]
      rw [← hc.first, ← hblocks, ← hc.blocks]
      simp

-- ---------------------------------------------------------------------------
-- Statements
-- ---------------------------------------------------------------------------

/-- A segment whose tree is that of a node, or that is empty as there is none. -/
def Segment.Shows (s : Segment) (n : Nat) (node : Option Node) : Prop :=
  ∃ t, s.Lays n t ∧ t.map Tree.node = node

theorem single_shows (n : Nat) (f : Face) (hp : f.place = none) :
    (Segment.single n f.opcode (f.values.map Shadow.input) f.fields).Shows n
      (some (.plain f.opcode (f.values.map Shadow.field) (f.fields.map Field.field))) :=
  ⟨_, single_lays n f hp, rfl⟩

theorem skip_shows (n : Nat) (note : Note) : (Segment.skip note).Shows n none :=
  ⟨none, empty_lays rfl rfl, rfl⟩

/-- An event is a block of its own, it has none, or it is refused. -/
theorem lowerTrigger_cases (n : Nat) (t : Trigger) :
    (∃ f : Face, f.place = none ∧
        lowerTrigger n t = .single n f.opcode (f.values.map Shadow.input) f.fields ∧
        t.image? = some (.plain f.opcode (f.values.map Shadow.field) (f.fields.map Field.field))) ∨
      (∃ note, lowerTrigger n t = .skip note ∧ t.image? = none) ∨
      ∃ e, lowerTrigger n t = { error := some e } := by
  cases t with
  | start => exact .inl ⟨{ opcode := "event_whenflagclicked" }, rfl, rfl, rfl⟩
  | click => exact .inl ⟨{ opcode := "event_whenthisspriteclicked" }, rfl, rfl, rfl⟩
  | backdrop name =>
    exact .inl ⟨{ opcode := "event_whenbackdropswitchesto"
                  fields := [{ name := "BACKDROP", value := name }] }, rfl, rfl, rfl⟩
  | key name => exact .inr (.inl ⟨_, rfl, rfl⟩)
  | unknown kind hk => exact .inr (.inr (lowerTrigger_unknown n hk))

theorem lowerTrigger_shows (n : Nat) (t : Trigger) (h : (lowerTrigger n t).error = none) :
    (lowerTrigger n t).Shows n t.image? := by
  obtain ⟨f, hp, hs, hi⟩ | ⟨note, hs, hi⟩ | ⟨e, hs⟩ := lowerTrigger_cases n t
  · rw [hs, hi]
    exact single_shows n f hp
  · rw [hs, hi]
    exact skip_shows n note
  · rw [hs] at h
    cases h

theorem Segment.Shows.noted {s : Segment} {image : Option Node} (h : s.Shows n image)
    (note : Option Note) :
    (s.noted note).Shows n image := by
  obtain ⟨t, ht, hn⟩ := h
  exact ⟨t, ht.noted note, hn⟩

theorem unlisted_of_ok {v : Value} {s : Segment} (h : (Segment.unlisted v s).error = none) :
    Segment.unlisted v s = s := by
  unfold Segment.unlisted at h ⊢
  split at h
  next hv => exact if_pos hv
  next => cases h

theorem lowerTurn_shows (n : Nat) (args : List Value) (duration : Value)
    (h : (lowerCall n "turn" args duration).error = none) :
    (lowerCall n "turn" args duration).Shows n (turnImage? args) := by
  cases args with
  | nil => exact skip_shows n _
  | cons d rest =>
    have hamount : (d :: rest)[1]?.getD 15 = rest.headD 15 := by cases rest <;> rfl
    have turns (opcode : String) := single_shows n
      { opcode, values := [⟨"DEGREES", Input.numberType, rest.headD 15, by decide⟩] } rfl
    unfold lowerCall turnOpcode? at h ⊢
    simp only [List.head?_cons, Option.getD_some, hamount] at h ⊢
    split at h
    next opcode hd =>
      split at hd <;> cases hd
      · exact turns "motion_turnright"
      · exact turns "motion_turnleft"
      · exact turns "motion_turnleft"
    next hd =>
      rw [unlisted_of_ok h, turnImage?]
      · exact skip_shows n _
      all_goals
        intro rest' he
        cases he
        cases hd

theorem lowerCall_shows (n : Nat) (name : Value) (args : List Value) (duration : Value)
    (h : (lowerCall n name args duration).error = none) :
    (lowerCall n name args duration).Shows n (callImage? args duration name) := by
  unfold lowerCall at h ⊢
  split at h
  next =>
    rw [← List.headD_eq_head?_getD]
    exact single_shows n
      { opcode := "motion_movesteps"
        values := [⟨"STEPS", Input.numberType, args.headD 10, by decide⟩] } rfl
  next => exact lowerTurn_shows n args duration h
  next =>
    rw [← List.headD_eq_head?_getD]
    cases duration with
    | null =>
      exact single_shows n
        { opcode := "looks_say", values := [⟨"MESSAGE", Input.textType, args.headD "", by decide⟩] } rfl
    | _ =>
      exact single_shows n
        { opcode := "looks_sayforsecs"
          values := [⟨"MESSAGE", Input.textType, args.headD "", by decide⟩,
            ⟨"SECS", Input.numberType, _, by decide⟩] } rfl
  next =>
    rw [← List.headD_eq_head?_getD]
    exact single_shows n
      { opcode := "control_wait"
        values := [⟨"DURATION", Input.numberType, args.headD 1, by decide⟩] } rfl
  next hmove hturn hsay hwait =>
    rw [unlisted_of_ok h, callImage?]
    · exact (single_shows n { opcode := "procedures_call" } rfl).noted _
    all_goals assumption

theorem Chain.Lays.shows {c : Chain} (h : c.Lays n ts) (he : c.error = none) (opcode : String)
    (values : List Shadow) (hv : (values.map Shadow.name).Nodup) :
    (c.enclose n (some opcode) (values.map Shadow.input)).Shows n
      (some (.container opcode (values.map Shadow.field) [] (Tree.nodes ts))) :=
  ⟨_, h.enclose he { opcode, values, values_nodup := hv } rfl rfl, rfl⟩

-- ---------------------------------------------------------------------------
-- Errors
-- ---------------------------------------------------------------------------

@[simp] theorem enclose_error (c : Chain) (n : Nat) (opcode : Option String)
    (inputs : List (Input Nat)) : (c.enclose n opcode inputs).error = c.error := by
  unfold Chain.enclose
  split <;> simp [*]

@[simp] theorem before_error (s : Segment) (c : Chain) :
    (s.before c).error = s.error.or c.error := by
  unfold Segment.before
  split
  next he => simp [he]
  next he => split <;> simp [he]

@[simp] theorem noted_error (s : Segment) (note : Option Note) : (s.noted note).error = s.error := rfl

theorem unlisted_error (v : Value) (s : Segment) :
    (Segment.unlisted v s).error = (Stmt.lookupRefusal? v).or s.error := by
  cases h : v.isHashable <;> simp [Segment.unlisted, Stmt.lookupRefusal?, h]

theorem isHashable_of_turnOpcode? {v : Value} {opcode : String} (h : turnOpcode? v = some opcode) :
    v.isHashable = true := by
  unfold turnOpcode? at h
  split at h <;> cases h <;> rfl

theorem lowerCall_error (n : Nat) (name : Value) (args : List Value) (duration : Value) :
    (lowerCall n name args duration).error = Stmt.lookupRefusal? (callKey args name) := by
  unfold lowerCall
  split
  next => rfl
  next =>
    simp only [callKey]
    split
    next h => exact (Stmt.lookupRefusal?_eq_none_iff.2 (isHashable_of_turnOpcode? h)).symm
    next => rw [unlisted_error, Segment.skip, Option.or_none]
  next => simp only; split <;> rfl
  next => rfl
  next hmove hturn hsay hwait =>
    rw [unlisted_error, noted_error, Segment.single, Option.or_none, callKey]
    exact hturn

theorem lowerTrigger_error (n : Nat) (t : Trigger) :
    (lowerTrigger n t).error = (Stmt.event t).refusal? := by
  cases t with
  | unknown kind hk => simp [lowerTrigger, unlisted_error, Stmt.refusal?, Trigger.kind, hk]
  | _ => rfl

mutual
theorem lowerStmt_error (n : Nat) :
    (s : Stmt) → (lowerStmt n s).error = s.visits.findSome? Stmt.refusal?
  | .event t => by
    have hv : (Stmt.event t).visits = [.event t] := rfl
    rw [lowerStmt, lowerTrigger_error, hv, List.findSome?_singleton]
  | .repeatTimes _ body | .forever body | .branch _ body _ => by
    simp [lowerStmt, Stmt.visits, List.findSome?_cons, Stmt.refusal?, lowerAll_error n body]
  | .call name args duration => by
    have hv : (Stmt.call name args duration).visits = [.call name args duration] := rfl
    rw [lowerStmt, lowerCall_error, hv, List.findSome?_singleton]
    rfl
  | .awaitUntil _ | .empty | .program _ => rfl
/-- A chain fails at the first statement that is refused. -/
theorem lowerAll_error (n : Nat) :
    (ss : List Stmt) → (lowerAll n ss).error = (Stmt.visitsAll ss).findSome? Stmt.refusal?
  | [] => rfl
  | s :: ss => by
    rw [lowerAll, before_error, lowerStmt_error n s, lowerAll_error _ ss, Stmt.visitsAll,
      List.findSome?_append]
end

-- ---------------------------------------------------------------------------
-- Lists of statements
-- ---------------------------------------------------------------------------

mutual
theorem lowerStmt_shows (n : Nat) :
    (s : Stmt) → (lowerStmt n s).error = none → (lowerStmt n s).Shows n s.image?
  | .event t, h => lowerTrigger_shows n t h
  | .repeatTimes count body, h => by
    have hb := (enclose_error _ _ _ _).symm.trans h
    obtain ⟨ts, hts, hn⟩ := lowerAll_lays n body hb
    have hs := hts.shows hb "control_repeat" [⟨"TIMES", Input.numberType, count, by decide⟩] (by simp)
    rwa [hn] at hs
  | .forever body, h => by
    have hb := (enclose_error _ _ _ _).symm.trans h
    obtain ⟨ts, hts, hn⟩ := lowerAll_lays n body hb
    have hs := hts.shows hb "control_forever" [] (by simp)
    rwa [hn] at hs
  | .branch condition consequent alternate, h => by
    have hb := (enclose_error _ _ _ _).symm.trans h
    obtain ⟨ts, hts, hn⟩ := lowerAll_lays n consequent hb
    have hs := hts.shows hb "control_if" [⟨"CONDITION", Input.textType, condition, by decide⟩] (by simp)
    rw [hn] at hs
    exact hs.noted _
  | .awaitUntil condition, _ =>
    single_shows n
      { opcode := "control_wait_until"
        values := [⟨"CONDITION", Input.textType, condition, by decide⟩] } rfl
  | .call name args duration, h => lowerCall_shows n name args duration h
  | .empty, _ => ⟨none, empty_lays rfl rfl, rfl⟩
  | .program _, h => nomatch h
/-- A list that is lowered without an error is laid out as trees that show it. -/
theorem lowerAll_lays (n : Nat) :
    (ss : List Stmt) → (lowerAll n ss).error = none →
      ∃ ts, (lowerAll n ss).Lays n ts ∧ Tree.nodes ts = Stmt.images ss
  | [], _ => ⟨[], nil_lays n, rfl⟩
  | s :: ss, h => by
    obtain ⟨hs, hss⟩ := Option.or_eq_none_iff.1 ((before_error _ _).symm.trans h)
    obtain ⟨t, ht, hi⟩ := lowerStmt_shows n s hs
    obtain ⟨ts, hts, hn⟩ := lowerAll_lays (n + (lowerStmt n s).size) ss hss
    refine ⟨t.toList ++ ts, ht.before hs hts, ?_⟩
    rw [Stmt.images, ← hi, ← hn]
    cases t <;> rfl
end

end Lowering

end Lia
