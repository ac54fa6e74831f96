import Mathlib.Data.List.Forall2
import Lia.Proofs.Lowering.Scripts
import Lia.Proofs.Stmt.Record

/-!
# Blocks of equal programs

Equal programs may be written with different numbers, as `1` and `1.0` are. What they become is
alike: the same blocks with the same links, but for how values are written, or the same kind of
error. Main statement: equality of programs is equality of their records, and compilation
respects it (`Program.same_congruence`).
-/

namespace Lia

open Lowering

-- ---------------------------------------------------------------------------
-- Alike
-- ---------------------------------------------------------------------------

section
variable {ι : Type}

/-- The value of a shadow is compared as an item, behind its type. -/
inductive Content.Alike : Content ι → Content ι → Prop
  | shadow {type : Nat} {v w : Value} (h : v.sameItem w = true) :
    Alike (.shadow type v) (.shadow type w)
  | mouth {first : Option ι} : Alike (.mouth first) (.mouth first)

structure Input.Alike (i j : Input ι) : Prop where
  name : i.name = j.name
  content : i.content.Alike j.content

structure Field.Alike (f g : Field) : Prop where
  name : f.name = g.name
  value : f.value.same g.value = true
  variableId : f.variableId = g.variableId

/-- The same block but for how the values of inputs and fields are written. -/
structure Block.Alike (b c : Block ι) : Prop where
  id : b.id = c.id
  opcode : b.opcode = c.opcode
  inputs : List.Forall₂ Input.Alike b.inputs c.inputs
  fields : List.Forall₂ Field.Alike b.fields c.fields
  shadow : b.shadow = c.shadow
  parent : b.parent = c.parent
  next : b.next = c.next
  x : b.x = c.x
  y : b.y = c.y

/-- The same kind of error. -/
inductive LoweringError.Alike : LoweringError → LoweringError → Prop
  | nestedProgram : Alike .nestedProgram .nestedProgram
  | unknownEvent {kind kind' : Value} (h : kind.same kind' = true) :
    Alike (.unknownEvent kind) (.unknownEvent kind')
  | unhashable {v w : Value} (h : v.same w = true) : Alike (.unhashable v) (.unhashable w)
  | noColumns : Alike .noColumns .noColumns

theorem Input.alike_of_same (name : String) (type : Nat) {v w : Value} (h : v.sameItem w = true) :
    Input.Alike (⟨name, .shadow type v⟩ : Input ι) ⟨name, .shadow type w⟩ := ⟨rfl, .shadow h⟩

theorem Input.alike_one (name : String) (type : Nat) {v w : Value} (h : v.sameItem w = true) :
    List.Forall₂ Input.Alike [(⟨name, .shadow type v⟩ : Input ι)] [⟨name, .shadow type w⟩] :=
  .cons (alike_of_same name type h) .nil

theorem Input.substack_alike (name : String) (first : Option ι) :
    (Input.substack name first).Alike (.substack name first) := ⟨rfl, .mouth⟩

/-- A block without inputs and fields is alike itself. -/
theorem Block.alike_bare (id : ι) (opcode : Option String) :
    Block.Alike { id, opcode } { id, opcode } := ⟨rfl, rfl, .nil, .nil, rfl, rfl, rfl, rfl, rfl⟩

theorem Block.Alike.moveTo {b c : Block ι} (h : b.Alike c) (x y : Int) :
    (b.moveTo x y).Alike (c.moveTo x y) := { h with x := rfl, y := rfl }

end

namespace Lowering

structure Segment.Alike (s t : Segment) : Prop where
  inner : List.Forall₂ Block.Alike s.inner t.inner
  own : Option.Rel Block.Alike s.own t.own
  error : Option.Rel LoweringError.Alike s.error t.error

structure Chain.Alike (c d : Chain) : Prop where
  blocks : List.Forall₂ Block.Alike c.blocks d.blocks
  first : c.first = d.first
  last : c.last = d.last
  error : Option.Rel LoweringError.Alike c.error d.error

structure Draft.Alike (d e : Draft) : Prop where
  hats : List.Forall₂ Block.Alike d.hats e.hats
  main : Option.Rel (fun m m' => m.1.Alike m'.1 ∧ m.2.Alike m'.2) d.main e.main
  roots : d.roots = e.roots
  error : Option.Rel LoweringError.Alike d.error e.error

-- ---------------------------------------------------------------------------
-- Segments and chains
-- ---------------------------------------------------------------------------

theorem Segment.Alike.blocks {s t : Segment} (h : s.Alike t) :
    List.Forall₂ Block.Alike s.blocks t.blocks := by
  obtain ⟨inner, own, notes, error⟩ := s
  obtain ⟨inner', own', notes', error'⟩ := t
  obtain ⟨hi, ho, -⟩ := h
  refine List.rel_append hi ?_
  cases ho with
  | none => exact .nil
  | some hb => exact .cons hb .nil

theorem Segment.Alike.size {s t : Segment} (h : s.Alike t) : s.size = t.size := h.blocks.length_eq

theorem Segment.single_alike (n : Nat) (opcode : String) {is js : List (Input Nat)}
    {fs gs : List Field} (hi : List.Forall₂ Input.Alike is js) (hf : List.Forall₂ Field.Alike fs gs) :
    (single n opcode is fs).Alike (single n opcode js gs) :=
  ⟨.nil, .some ⟨rfl, rfl, hi, hf, rfl, rfl, rfl, rfl, rfl⟩, .none⟩

theorem Segment.skip_alike (note note' : Note) : (skip note).Alike (skip note') :=
  ⟨.nil, .none, .none⟩

theorem Segment.Alike.noted {s t : Segment} (h : s.Alike t) (note note' : Option Note) :
    (s.noted note).Alike (t.noted note') := ⟨h.inner, h.own, h.error⟩

/-- The first block inside gets its parent on both sides. -/
theorem adopt_alike {b c : Block Nat} (h : b.Alike c) (first : Option Nat) (id : Nat) :
    (if some b.id = first then { b with parent := some id } else b).Alike
      (if some c.id = first then { c with parent := some id } else c) := by
  rw [h.id]
  split
  · exact ⟨rfl, h.opcode, h.inputs, h.fields, h.shadow, rfl, h.next, h.x, h.y⟩
  · exact h

theorem Chain.Alike.enclose {c d : Chain} (h : c.Alike d) (n : Nat) (opcode : Option String)
    {is js : List (Input Nat)} (hi : List.Forall₂ Input.Alike is js) :
    (c.enclose n opcode is).Alike (d.enclose n opcode js) := by
  obtain ⟨blocks, first, last, notes, error⟩ := c
  obtain ⟨blocks', first', last', notes', error'⟩ := d
  obtain ⟨hb, rfl, rfl, he⟩ := h
  have hlen : blocks.length = blocks'.length := hb.length_eq
  cases he with
  | some he => exact ⟨hb, .none, .some he⟩
  | none =>
    simp only [Chain.enclose, hlen]
    refine ⟨?_, .some ⟨rfl, rfl, ?_, .nil, rfl, rfl, rfl, rfl, rfl⟩, .none⟩
    · rw [List.forall₂_map_left_iff, List.forall₂_map_right_iff]
      exact hb.imp fun b c h => adopt_alike h first _
    · exact List.rel_append hi (.cons (Input.substack_alike _ _) .nil)

theorem Segment.Alike.before {s t : Segment} {c d : Chain} (hs : s.Alike t) (hc : c.Alike d) :
    (s.before c).Alike (t.before d) := by
  have hblocks := hs.blocks
  obtain ⟨inner, own, notes, error⟩ := s
  obtain ⟨inner', own', notes', error'⟩ := t
  obtain ⟨hi, ho, he⟩ := hs
  cases he with
  | some he => exact ⟨hblocks, rfl, rfl, .some he⟩
  | none =>
    cases ho with
    | none => exact ⟨List.rel_append hi hc.blocks, hc.first, hc.last, hc.error⟩
    | some hb =>
      refine ⟨List.rel_append hi (.cons ?_ hc.blocks), congrArg some hb.id, ?_, hc.error⟩
      · exact ⟨hb.id, hb.opcode, hb.inputs, hb.fields, hb.shadow, hb.parent, hc.first, hb.x, hb.y⟩
      · exact congrArg₂ Option.or hc.last (congrArg some hb.id)

-- ---------------------------------------------------------------------------
-- Statements
-- ---------------------------------------------------------------------------

theorem getElem?_sameItem {as bs : List Value} (h : Value.sameItems as bs = true) {default : Value}
    (hd : default.sameItem default = true) (i : Nat) :
    (as[i]?.getD default).sameItem (bs[i]?.getD default) = true := by
  induction as generalizing bs i with
  | nil =>
    cases bs with
    | nil => exact hd
    | cons => cases h
  | cons a as ih =>
    cases bs with
    | nil => cases h
    | cons b bs =>
      obtain ⟨hab, hs⟩ := Bool.and_eq_true_iff.1 h
      cases i with
      | zero => exact hab
      | succ i => exact ih hs i

theorem int_sameItem (n : Nat) : (OfNat.ofNat n : Value).sameItem (OfNat.ofNat n) = true :=
  Value.sameItem_self trivial

theorem head?_sameItem {as bs : List Value} (h : Value.sameItems as bs = true) {default : Value}
    (hd : default.sameItem default = true) :
    (as.head?.getD default).sameItem (bs.head?.getD default) = true := by
  rw [List.head?_eq_getElem?, List.head?_eq_getElem?]
  exact getElem?_sameItem h hd 0

theorem turnOpcode?_same {v w : Value} (h : v.same w = true) : turnOpcode? v = turnOpcode? w := by
  cases v with
  | text s => rw [Value.text_same_iff.1 h]
  | _ =>
    cases w with
    | text => cases h
    | _ => rfl

theorem turnOpcode?_sameItem {v w : Value} (h : v.sameItem w = true) :
    turnOpcode? v = turnOpcode? w := by
  obtain ⟨rfl, -⟩ | h := Value.sameItem_iff.1 h
  · rfl
  · exact turnOpcode?_same h

theorem isHashable_same {v w : Value} (h : v.same w = true) : v.isHashable = w.isHashable := by
  cases v with
  | list =>
    cases w with
    | list => rfl
    | _ => cases h
  | record =>
    cases w with
    | record => rfl
    | _ => cases h
  | _ =>
    cases w with
    | list | record => cases h
    | _ => rfl

/-- Values that are found equal can both be looked up, or neither can. -/
theorem Segment.Alike.unlisted {s t : Segment} (hs : s.Alike t) {v w : Value}
    (h : v.sameItem w = true) : (Segment.unlisted v s).Alike (.unlisted w t) := by
  obtain ⟨rfl, hn⟩ | h := Value.sameItem_iff.1 h
  · have hv : v.isHashable = true := by
      cases v with
      | list | record => cases hn
      | _ => rfl
    simpa [Segment.unlisted, hv] using hs
  · unfold Segment.unlisted
    rw [← isHashable_same h]
    split
    · exact hs
    · exact ⟨.nil, .none, .some (.unhashable h)⟩

theorem isNull_same {v w : Value} (h : v.same w = true) : v.isNull = w.isNull := by
  rw [Bool.eq_iff_iff, Value.isNull_iff, Value.isNull_iff]
  constructor
  · rintro rfl
    rwa [Value.null_same, Value.isNull_iff] at h
  · rintro rfl
    rwa [Value.same_null, Value.isNull_iff] at h

theorem lowerTrigger_alike {t u : Trigger} (h : t.same u = true) (n : Nat) :
    (lowerTrigger n t).Alike (lowerTrigger n u) := by
  cases t with
  | start | click =>
    cases u <;> cases h
    exact Segment.single_alike n _ .nil .nil
  | key a =>
    cases u with
    | key b => exact Segment.skip_alike _ _
    | _ => cases h
  | backdrop a =>
    cases u with
    | backdrop b => exact Segment.single_alike n _ .nil (.cons ⟨rfl, h, rfl⟩ .nil)
    | _ => cases h
  | unknown a ha =>
    cases u with
    | unknown b hb =>
      have he : ({ error := some (.unknownEvent a) } : Segment).Alike
          { error := some (.unknownEvent b) } := ⟨.nil, .none, .some (.unknownEvent h)⟩
      exact he.unlisted (Value.sameItem_of_same h)
    | _ => cases h

theorem lowerCall_alike {name name' : Value} {args args' : List Value} {duration duration' : Value}
    (hn : name.same name' = true) (ha : Value.sameItems args args' = true)
    (hd : duration.same duration' = true) (n : Nat) :
    (lowerCall n name args duration).Alike (lowerCall n name' args' duration') := by
  have other (note note' : Note) : (Segment.unlisted name
      ((Segment.single n "procedures_call" []).noted (some note))).Alike
        (.unlisted name' ((Segment.single n "procedures_call" []).noted (some note'))) := by
    have hs := (Segment.single_alike n "procedures_call" .nil .nil).noted (some note) (some note')
    exact hs.unlisted (Value.sameItem_of_same hn)
  cases name with
  | text s =>
    obtain rfl := Value.text_same_iff.1 hn
    unfold lowerCall
    split
    next =>
      exact Segment.single_alike n _ (Input.alike_one _ _ (head?_sameItem ha (int_sameItem _))) .nil
    next =>
      have hdirection := head?_sameItem ha (rfl : Value.null.sameItem .null = true)
      simp only [turnOpcode?_sameItem hdirection]
      split
      · have hamount := getElem?_sameItem ha (int_sameItem 15) 1
        exact Segment.single_alike n _ (Input.alike_one _ _ hamount) .nil
      · exact (Segment.skip_alike _ _).unlisted hdirection
    next =>
      have hmessage := Input.alike_of_same (ι := Nat) "MESSAGE" Input.textType
        (head?_sameItem ha (rfl : (Value.text "").sameItem (.text "") = true))
      simp only [isNull_same hd]
      split
      · exact Segment.single_alike n _ (.cons hmessage .nil) .nil
      · have hseconds := Input.alike_one (ι := Nat) "SECS" Input.numberType
          (Value.sameItem_of_same hd)
        exact Segment.single_alike n _ (.cons hmessage hseconds) .nil
    next =>
      exact Segment.single_alike n _ (Input.alike_one _ _ (head?_sameItem ha (int_sameItem _))) .nil
    next => exact other _ _
  | _ =>
    cases name' with
    | text => cases hn
    | _ => exact other _ _

mutual
theorem lowerStmt_alike : (s t : Stmt) → s.same t = true → ∀ n,
    (lowerStmt n s).Alike (lowerStmt n t)
  | .event a, t, h, n => by
    cases t with
    | event b => exact lowerTrigger_alike h n
    | _ => cases h
  | .repeatTimes count as, t, h, n => by
    cases t with
    | repeatTimes count' bs =>
      obtain ⟨hcount, hs⟩ := Bool.and_eq_true_iff.1 h
      exact (lowerAll_alike as bs hs n).enclose n _
        (Input.alike_one _ _ (Value.sameItem_of_same hcount))
    | _ => cases h
  | .forever as, t, h, n => by
    cases t with
    | forever bs => exact (lowerAll_alike as bs h n).enclose n _ .nil
    | _ => cases h
  | .branch c as alternate, t, h, n => by
    cases t with
    | branch d bs alternate' =>
      obtain ⟨hcondition, hs⟩ : c.same d = true ∧ Stmt.sameAll as bs = true := by
        cases alternate <;> cases alternate' <;> simp_all [Stmt.same]
      have hinput := Input.alike_one (ι := Nat) "CONDITION" Input.textType
        (Value.sameItem_of_same hcondition)
      exact ((lowerAll_alike as bs hs n).enclose n _ hinput).noted _ _
    | _ => cases alternate <;> cases h
  | .awaitUntil c, t, h, n => by
    cases t with
    | awaitUntil d =>
      exact Segment.single_alike n _ (Input.alike_one _ _ (Value.sameItem_of_same h)) .nil
    | _ => cases h
  | .call name args duration, t, h, n => by
    cases t with
    | call name' args' duration' =>
      simp only [Stmt.same, Bool.and_eq_true] at h
      exact lowerCall_alike h.1.1 h.1.2 h.2 n
    | _ => cases h
  | .empty, t, h, n => by
    cases t with
    | empty => exact ⟨.nil, .none, .none⟩
    | _ => cases h
  | .program _, t, h, n => by
    cases t with
    | program _ => exact ⟨.nil, .none, .some .nestedProgram⟩
    | _ => cases h
/-- Equal statements make chains of the same numbers. -/
theorem lowerAll_alike : (ss ts : List Stmt) → Stmt.sameAll ss ts = true → ∀ n,
    (lowerAll n ss).Alike (lowerAll n ts)
  | [], ts, h, n => by
    cases ts with
    | nil => exact ⟨.nil, rfl, rfl, .none⟩
    | cons => cases h
  | s :: ss, ts, h, n => by
    cases ts with
    | nil => cases h
    | cons t ts =>
      obtain ⟨hs, hss⟩ := Bool.and_eq_true_iff.1 h
      -- The segments are of one size, so what follows has the same numbers.
      have hsegment := lowerStmt_alike s t hs n
      have hrest := lowerAll_alike ss ts hss (n + (lowerStmt n s).size)
      rw [lowerAll, lowerAll, ← hsegment.size]
      exact hsegment.before hrest
end

-- ---------------------------------------------------------------------------
-- Scripts
-- ---------------------------------------------------------------------------

theorem placing_alike (grid : Grid) (root : Nat) {hat hat' : Block Nat} (hh : hat.Alike hat')
    {following following' : Block Nat → Draft}
    (h : ∀ b b' : Block Nat, b.Alike b' → (following b).Alike (following' b')) :
    (Draft.placing grid root hat following).Alike (.placing grid root hat' following') := by
  unfold Draft.placing
  split
  · exact ⟨.cons hh .nil, .none, rfl, .some .noColumns⟩
  · exact h _ _ (hh.moveTo _ _)

theorem Draft.Alike.withHat {d e : Draft} (h : d.Alike e) {hat hat' : Block Nat}
    (hh : hat.Alike hat') : (d.withHat hat).Alike (e.withHat hat') :=
  ⟨.cons hh h.hats, h.main, congrArg₂ List.cons hh.id h.roots, h.error⟩

theorem Draft.Alike.withNotes {d e : Draft} (h : d.Alike e) (notes notes' : List Note) :
    (d.withNotes notes).Alike (e.withNotes notes') := ⟨h.hats, h.main, h.roots, h.error⟩

section
variable {whole whole' : List Stmt}

/-- An event that starts a script, an event without one, and one of an unknown kind. -/
theorem lowerScripts_event_alike (grid : Grid) {t u : Trigger} (h : t.same u = true)
    {rest rest' : List Stmt} (n root : Nat)
    (ih : ∀ n root, (lowerScripts grid whole n root rest).Alike
      (lowerScripts grid whole' n root rest')) :
    (lowerScripts grid whole n root (.event t :: rest)).Alike
      (lowerScripts grid whole' n root (.event u :: rest')) := by
  have hsegment := lowerTrigger_alike h n
  obtain ⟨-, ho, he⟩ := hsegment
  simp only [lowerScripts]
  generalize (lowerTrigger n t).own = own, (lowerTrigger n t).error = error,
    (lowerTrigger n u).own = own', (lowerTrigger n u).error = error' at ho he ⊢
  cases he with
  | some he => exact ⟨.nil, .none, rfl, .some he⟩
  | none =>
    cases ho with
    | none => exact (ih n root).withNotes _ _
    | some hh => exact placing_alike grid root hh fun b b' hb => (ih _ _).withHat hb

theorem isEvent_same {s t : Stmt} (h : s.same t = true) : s.isEvent = t.isEvent := by
  have hn := (Stmt.holdsNaN_of_same s t h).1
  rw [Stmt.same_eq_toRecord s hn, Stmt.toRecord_same, Bool.and_eq_true, beq_iff_eq] at h
  cases s <;> cases t <;> simp_all [Stmt.typeName, Stmt.isEvent]

theorem lowerScripts_alike (grid : Grid) (hw : Stmt.sameAll whole whole' = true) (ss ts : List Stmt)
    (h : Stmt.sameAll ss ts = true) (n root : Nat) :
    (lowerScripts grid whole n root ss).Alike (lowerScripts grid whole' n root ts) := by
  induction ss generalizing ts n root with
  | nil =>
    cases ts with
    | nil => exact ⟨.nil, .none, rfl, .none⟩
    | cons => cases h
  | cons s rest ih =>
    cases ts with
    | nil => cases h
    | cons t rest' =>
      obtain ⟨hs, hss⟩ := Bool.and_eq_true_iff.1 h
      cases he : s.isEvent with
      | true =>
        obtain ⟨a, rfl⟩ := isEvent_iff.1 he
        cases t with
        | event b => exact lowerScripts_event_alike grid hs n root fun n root => ih _ hss n root
        | _ => cases hs
      | false =>
        rw [lowerScripts_main he, lowerScripts_main ((isEvent_same hs).symm.trans he)]
        have hchain := lowerAll_alike whole whole' hw (n + 1)
        exact placing_alike grid root (Block.alike_bare n _) fun b b' hb =>
          ⟨.nil, .some ⟨hb, hchain⟩, rfl, hchain.error⟩

end

-- ---------------------------------------------------------------------------
-- From numbers to ids
-- ---------------------------------------------------------------------------

section
variable (ids : List String)

theorem assignInput_alike {i j : Input Nat} (h : i.Alike j) :
    (assignInput ids i).Alike (assignInput ids j) := by
  obtain ⟨name, content⟩ := i
  obtain ⟨name', content'⟩ := j
  obtain ⟨rfl, hc⟩ := h
  cases hc with
  | shadow h => exact ⟨rfl, .shadow h⟩
  | mouth => exact ⟨rfl, .mouth⟩

theorem assignBlock_alike {b c : Block Nat} (h : b.Alike c) :
    (assignBlock ids b).Alike (assignBlock ids c) where
  id := congrArg (idOf ids) h.id
  opcode := h.opcode
  inputs := by
    simp only [assignBlock, List.forall₂_map_left_iff, List.forall₂_map_right_iff]
    exact h.inputs.imp fun _ _ => assignInput_alike ids
  fields := h.fields
  shadow := h.shadow
  parent := by simp only [assignBlock, h.id, h.parent]
  next := congrArg (Option.map (idOf ids)) h.next
  x := h.x
  y := h.y

theorem map_assignBlock_alike {bs cs : List (Block Nat)} (h : List.Forall₂ Block.Alike bs cs) :
    List.Forall₂ Block.Alike (bs.map (assignBlock ids)) (cs.map (assignBlock ids)) := by
  rw [List.forall₂_map_left_iff, List.forall₂_map_right_iff]
  exact h.imp fun _ _ => assignBlock_alike ids

theorem assignHat_alike {hat hat' : Block Nat} {c d : Chain} (hh : hat.Alike hat') (h : c.Alike d) :
    (assignHat ids hat c).Alike (assignHat ids hat' d) := by
  have hnext : (assignHat ids hat c).next = (assignHat ids hat' d).next := by
    obtain ⟨blocks, first, last, notes, error⟩ := c
    obtain ⟨blocks', first', last', notes', error'⟩ := d
    obtain ⟨-, rfl, -, he⟩ := h
    cases he <;> rfl
  have ha := assignBlock_alike ids hh
  exact ⟨ha.id, ha.opcode, ha.inputs, ha.fields, ha.shadow, ha.parent, hnext, ha.x, ha.y⟩

namespace Draft.Alike

variable {d e : Draft} (h : d.Alike e)
include h

theorem size : d.size = e.size := by
  obtain ⟨hats, main, roots, notes, error⟩ := d
  obtain ⟨hats', main', roots', notes', error'⟩ := e
  obtain ⟨hh, hm, -, -⟩ := h
  have hlen : hats.length = hats'.length := hh.length_eq
  cases hm with
  | none => simp only [Draft.size, hlen]
  | some hm => simp only [Draft.size, hlen, hm.2.blocks.length_eq]

theorem assign : List.Forall₂ Block.Alike (d.assign ids) (e.assign ids) := by
  obtain ⟨hats, main, roots, notes, error⟩ := d
  obtain ⟨hats', main', roots', notes', error'⟩ := e
  obtain ⟨hh, hm, -, -⟩ := h
  refine List.rel_append (map_assignBlock_alike ids hh) ?_
  cases hm with
  | none => exact .nil
  | some hm => exact .cons (assignHat_alike ids hm.1 hm.2) (map_assignBlock_alike ids hm.2.blocks)

end Draft.Alike

end

end Lowering

-- ---------------------------------------------------------------------------
-- Compilations
-- ---------------------------------------------------------------------------

/-- Success on both sides, or the same kind of error. -/
inductive ResultAlike : Except LoweringError Unit → Except LoweringError Unit → Prop
  | ok : ResultAlike (.ok ()) (.ok ())
  | error {e e' : LoweringError} (h : e.Alike e') : ResultAlike (.error e) (.error e')

structure Compiled.Alike (r s : Compiled Unit) : Prop where
  result : ResultAlike r.result s.result
  blocks : List.Forall₂ Block.Alike r.state.target.blocks s.state.target.blocks
  roots : r.state.roots = s.state.roots

/-- Equal programs draw as many ids, so they draw the same ones. -/
theorem compile_alike {p q : Program} (h : p.same q = true) (grid : Grid) (stageName : String)
    (source : IdSource) :
    (compile p grid stageName source).Alike (compile q grid stageName source) := by
  have hd : (lowerProgram grid 0 p).Alike (lowerProgram grid 0 q) :=
    lowerScripts_alike grid h _ _ h 0 0
  have hids : programIds p grid source = programIds q grid source := by
    rw [programIds, programIds, hd.size]
  refine ⟨?_, ?_, ?_⟩
  · have he := hd.error
    rw [compile_result, compile_result]
    generalize (lowerProgram grid 0 p).error = error, (lowerProgram grid 0 q).error = error' at he ⊢
    cases he with
    | none => exact .ok
    | some he => exact .error he
  · rw [compile_blocks, compile_blocks, hids]
    exact hd.assign _
  · rw [compile_roots, compile_roots, hids, hd.roots]

-- ---------------------------------------------------------------------------
-- Programs from records
-- ---------------------------------------------------------------------------

namespace Program

/-- The program is read from a record without repeated names. -/
def IsRead (p : Program) : Prop := ∃ d : Value, d.Distinct ∧ ofRecord? d = .ok p

theorem IsRead.distinct {p : Program} (h : p.IsRead) : p.toRecord.Distinct := by
  obtain ⟨d, hd, hp⟩ := h
  exact Stmt.distinct_of_ofRecord? d hd p.toStmt (stmt_of_ofRecord? hp)

variable {p q r : Program}

theorem same_symm (hp : p.IsRead) (hq : q.IsRead) (h : p.same q = true) : q.same p = true := by
  obtain ⟨hn, hn'⟩ := holdsNaN_of_same h
  rw [same_eq_toRecord hn] at h
  rw [same_eq_toRecord hn']
  exact Value.same_symm _ hp.distinct _ hq.distinct h

theorem same_trans (h : p.same q = true) (h' : q.same r = true) : p.same r = true := by
  obtain ⟨hn, hn'⟩ := holdsNaN_of_same h
  rw [same_eq_toRecord hn] at h ⊢
  rw [same_eq_toRecord hn'] at h'
  exact Value.same_trans _ _ _ h h'

/-- Programs without NaN are equal exactly if their records are, so equality of programs that are
read is an equivalence. It passes over what an event of another kind has as key and name, but an empty
alternate is an alternate and any duration is one. Equal programs become blocks that are alike,
or are refused alike. -/
theorem same_congruence :
    (∀ p q : Program, p.holdsNaN = false →
      (p.same q = true ↔ p.toRecord.same q.toRecord = true)) ∧
    (∀ p : Program, p.IsRead → p.holdsNaN = false → p.same p = true) ∧
    (∀ p q : Program, p.IsRead → q.IsRead → p.same q = true → q.same p = true) ∧
    (∀ p q r : Program, p.same q = true → q.same r = true → p.same r = true) ∧
    (∀ kind kind' key key' name name' : Value,
      (Trigger.ofKind kind key name).same (.ofKind kind' key' name') = true ↔
        kind.same kind' = true ∧ (kind = .text "key" → key.same key' = true) ∧
          (kind = .text "backdrop" → name.same name' = true)) ∧
    (∀ (c d : Value) (as bs alternate : List Stmt),
      (Stmt.branch c as none).same (.branch d bs (some alternate)) = false ∧
      (Stmt.branch d bs (some alternate)).same (.branch c as none) = false) ∧
    (∀ (f g duration : Value) (as bs : List Value), duration ≠ .null →
      (Stmt.call f as .null).same (.call g bs duration) = false ∧
      (Stmt.call g bs duration).same (.call f as .null) = false) ∧
    ∀ p q : Program, p.same q = true → ∀ (grid : Grid) (stageName : String) (source : IdSource),
      (compile p grid stageName source).Alike (compile q grid stageName source) := by
  refine ⟨fun p q h => by rw [same_eq_toRecord h], fun p hp h => ?_, fun _ _ => same_symm,
    fun _ _ _ => same_trans, ?_, ?_, ?_, ?_⟩
  · rw [same_self hp.distinct, h]
    rfl
  · exact fun _ _ _ _ _ _ => Stmt.ofKind_same_iff
  · exact fun _ _ _ _ _ => ⟨rfl, rfl⟩
  · intro f g duration as bs hd
    have hnull : duration.isNull = false := Bool.eq_false_iff.2 fun h => hd (Value.isNull_iff.1 h)
    simp [Stmt.same, hnull]
  · exact fun _ _ h => compile_alike h

end Program

/-- A script that waits on a click. The event has a key that no click has, if there is one. -/
def waitRecord (stray : List (String × Value)) (seconds : Value) : Value :=
  .record [("type", "Program"), ("body", .list [
    .record (("type", "Event") :: ("kind", "click") :: stray),
    .record [("type", "Call"), ("name", "wait"), ("args", .list [seconds])]])]

/-- The number 2 as a binary64 number. -/
def floatTwo : Value :=
  .number (.float (.finite false (2 * Binary64.unitsPerOne)
    ⟨2, Binary64.unitBits, by decide, by decide, by decide +kernel⟩))

def waitProgram (seconds : Value) : Program := ⟨[.event .click, .call "wait" [seconds] .null]⟩

theorem waitProgram_congruence :
    (waitRecord [("key", "a")] 2).Distinct ∧ (waitRecord [] floatTwo).Distinct ∧
    Program.ofRecord? (waitRecord [("key", "a")] 2) = .ok (waitProgram 2) ∧
    Program.ofRecord? (waitRecord [] floatTwo) = .ok (waitProgram floatTwo) ∧
    (waitProgram 2).same (waitProgram floatTwo) = true ∧
    (waitProgram floatTwo).same (waitProgram 2) = true ∧
    (compile (waitProgram 2) {} "Stage" (.ofList [])).Alike
      (compile (waitProgram floatTwo) {} "Stage" (.ofList [])) := by
  have hd : (waitRecord [("key", "a")] 2).Distinct := by
    simp [waitRecord, Value.Distinct, Value.AllDistinct, Value.FieldsDistinct]
  have hd' : (waitRecord [] floatTwo).Distinct := by
    simp [waitRecord, floatTwo, Value.Distinct, Value.AllDistinct, Value.FieldsDistinct]
  have hp : Program.ofRecord? (waitRecord [("key", "a")] 2) = .ok (waitProgram 2) := rfl
  have hq : Program.ofRecord? (waitRecord [] floatTwo) = .ok (waitProgram floatTwo) := rfl
  obtain ⟨-, -, hsymm, -, -, -, -, halike⟩ := Program.same_congruence
  have hsame : (waitProgram 2).same (waitProgram floatTwo) = true := by
    decide +kernel
  exact ⟨hd, hd', hp, hq, hsame, hsymm _ _ ⟨_, hd, hp⟩ ⟨_, hd', hq⟩ hsame, halike _ _ hsame _ _ _⟩

end Lia
