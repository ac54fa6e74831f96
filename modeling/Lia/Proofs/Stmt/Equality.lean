import Lia.Proofs.Value
import Lia.Stmt.Record

/-!
# Equal programs and equal records

Programs are compared statement by statement, each with the fields of its construct. That comes
to the same as to compare their records, fields in any order, unless a field is NaN:
`Program.same_eq_toRecord`.
-/

namespace Lia

-- ---------------------------------------------------------------------------
-- Records that begin alike
-- ---------------------------------------------------------------------------

namespace Value

theorem sameFields_cons_right {key : String} {b : Value} {as bs : List (String × Value)}
    (h : key ∉ as.map Prod.fst) : sameFields as ((key, b) :: bs) = sameFields as bs := by
  induction as with
  | nil => rfl
  | cons f as ih =>
    rw [List.map_cons, List.mem_cons, not_or] at h
    have hne : (f.1 == key) = false := beq_false_of_ne (Ne.symm h.1)
    rw [sameFields, sameFields, List.lookup_cons, hne, ih h.2]

/-- Records that begin with one name are compared there and behind. -/
@[simp] theorem same_record_cons {key : String} {as : List (String × Value)}
    (h : key ∉ as.map Prod.fst) (a b : Value) (bs : List (String × Value)) :
    (Value.record ((key, a) :: as)).same (.record ((key, b) :: bs)) =
      (a.sameItem b && (Value.record as).same (.record bs)) := by
  simp only [same, sameFields_cons, List.lookup_cons_self, Option.elim_some,
    sameFields_cons_right h, List.length_cons, Nat.add_right_cancel_iff, beq_eq_decide]
  exact Bool.and_left_comm _ _ _

@[simp] theorem list_same_list (as bs : List Value) :
    (Value.list as).same (.list bs) = sameItems as bs := rfl

theorem isNull_iff {v : Value} : v.isNull = true ↔ v = .null := by
  cases v <;> simp [isNull]

@[simp] theorem same_null (v : Value) : v.same .null = v.isNull := by
  cases v <;> rfl

@[simp] theorem null_same (v : Value) : Value.null.same v = v.isNull := by
  cases v <;> rfl

theorem text_same_iff {s : String} {v : Value} : (Value.text s).same v = true ↔ v = .text s := by
  cases v with
  | text t => simp [same, @eq_comm _ t]
  | _ => simp [same]

theorem text_same_text (s t : String) : (Value.text s).same (.text t) = (s == t) := rfl

@[simp] theorem same_record_nil : (Value.record []).same (.record []) = true := rfl

@[simp] theorem null_sameItem (v : Value) : Value.null.sameItem v = v.isNull :=
  (sameItem_eq_same rfl v).trans (null_same v)

@[simp] theorem text_sameItem (s : String) (v : Value) :
    (Value.text s).sameItem v = (Value.text s).same v := sameItem_eq_same rfl v

@[simp] theorem list_sameItem (items : List Value) (v : Value) :
    (Value.list items).sameItem v = (Value.list items).same v := sameItem_eq_same rfl v

end Value

-- ---------------------------------------------------------------------------
-- Events
-- ---------------------------------------------------------------------------

theorem unknown_same_text {kind : Value} (h : isEventKind kind = false) {s : String}
    (hs : isEventKind (.text s) = true) : kind.same (.text s) = false := by
  rw [Bool.eq_false_iff]
  intro hsame
  rw [Value.same_text_iff.1 hsame, hs] at h
  cases h

theorem text_same_unknown {kind : Value} (h : isEventKind kind = false) {s : String}
    (hs : isEventKind (.text s) = true) : (Value.text s).same kind = false := by
  rw [Bool.eq_false_iff]
  intro hsame
  rw [Value.text_same_iff.1 hsame, hs] at h
  cases h

namespace Trigger

/-- A field of the event is NaN. -/
def holdsNaN : Trigger → Bool
  | .key name | .backdrop name => name.isNaN
  | .unknown kind _ => kind.isNaN
  | _ => false

theorem isNaN_kind {t : Trigger} (h : t.holdsNaN = false) : t.kind.isNaN = false := by
  cases t with
  | unknown => exact h
  | _ => rfl

theorem holdsNaN_eq {t : Trigger} (hk : t.kind ≠ .text "key") (hb : t.kind ≠ .text "backdrop") :
    t.holdsNaN = t.kind.isNaN := by
  cases t with
  | key => exact absurd rfl hk
  | backdrop => exact absurd rfl hb
  | _ => rfl

theorem holdsNaN_of_same {t u : Trigger} (h : t.same u = true) :
    t.holdsNaN = false ∧ u.holdsNaN = false := by
  cases t with
  | start | click =>
    cases u with
    | start | click => exact ⟨rfl, rfl⟩
    | _ => cases h
  | key =>
    cases u with
    | key => exact Value.isNaN_of_same h
    | _ => cases h
  | backdrop =>
    cases u with
    | backdrop => exact Value.isNaN_of_same h
    | _ => cases h
  | unknown =>
    cases u with
    | unknown => exact Value.isNaN_of_same h
    | _ => cases h

theorem fields_same (t u : Trigger) : (Value.record t.fields).same (.record u.fields) =
    (t.kind.sameItem u.kind && (Value.record t.fields.tail).same (.record u.fields.tail)) := by
  have hnames : "kind" ∉ t.fields.tail.map Prod.fst := by cases t <;> simp [fields]
  exact Value.same_record_cons hnames t.kind u.kind u.fields.tail

theorem same_eq_fields {t : Trigger} (h : t.holdsNaN = false) (u : Trigger) :
    t.same u = (Value.record t.fields).same (.record u.fields) := by
  rw [fields_same, Value.sameItem_eq_same (isNaN_kind h)]
  cases t with
  | unknown a ha =>
    cases u with
    | unknown b hb => simp [same, kind, fields]
    | _ => simp [same, kind, unknown_same_text ha, isEventKind]
  | key a | backdrop a =>
    cases u with
    | unknown b hb => simp [same, kind, text_same_unknown hb, isEventKind]
    | _ => simp [same, kind, fields, Value.text_same_text, Value.sameItem_eq_same h]
  | _ =>
    cases u with
    | unknown b hb => simp [same, kind, text_same_unknown hb, isEventKind]
    | _ => simp [same, kind, fields, Value.text_same_text]

theorem same_kind {t u : Trigger} (h : t.same u = true) : t.kind.same u.kind = true := by
  cases t with
  | unknown =>
    cases u with
    | unknown => exact h
    | _ => cases h
  | _ => cases u <;> simp_all [same, kind, Value.text_same_text]

end Trigger

-- ---------------------------------------------------------------------------
-- Statements
-- ---------------------------------------------------------------------------

namespace Stmt

/-- The fields of a record behind the type. -/
def recordFields : Stmt → List (String × Value)
  | .event t => t.fields
  | .repeatTimes count body => [("count", count), ("body", .list (toRecords body))]
  | .forever body | .program body => [("body", .list (toRecords body))]
  | .branch condition consequent none =>
    [("condition", condition), ("consequent", .list (toRecords consequent)), ("alternate", .null)]
  | .branch condition consequent (some alternate) =>
    [("condition", condition), ("consequent", .list (toRecords consequent)),
      ("alternate", .list (toRecords alternate))]
  | .awaitUntil condition => [("condition", condition)]
  | .call name args duration =>
    ("name", name) :: ("args", .list args) :: if duration.isNull then [] else [("for", duration)]
  | .empty => []

theorem toRecord_eq (s : Stmt) :
    s.toRecord = .record (("type", .text s.typeName) :: s.recordFields) := by
  cases s with
  | branch _ _ alternate => cases alternate <;> rfl
  | _ => rfl

theorem fieldNames_nodup (s : Stmt) : ("type" :: s.recordFields.map Prod.fst).Nodup := by
  cases s with
  | event t => cases t <;> simp [recordFields, Trigger.fields]
  | branch _ _ alternate => cases alternate <;> simp [recordFields]
  | call _ _ duration => cases h : duration.isNull <;> simp [recordFields, h]
  | _ => simp [recordFields]

theorem toRecord_same (s t : Stmt) : s.toRecord.same t.toRecord =
    (s.typeName == t.typeName && (Value.record s.recordFields).same (.record t.recordFields)) := by
  have htype := (List.nodup_cons.1 s.fieldNames_nodup).1
  rw [toRecord_eq, toRecord_eq, Value.same_record_cons htype, Value.text_sameItem,
    Value.text_same_text]

theorem isNaN_toRecord (s : Stmt) : s.toRecord.isNaN = false := by
  rw [toRecord_eq]
  rfl

theorem duration_same {d : Value} (h : d.isNaN = false) (e : Value) : d.same e =
    (Value.record (if d.isNull then [] else [("for", d)])).same
      (.record (if e.isNull then [] else [("for", e)])) := by
  cases hd : d.isNull with
  | true =>
    obtain rfl := Value.isNull_iff.1 hd
    cases e <;> rfl
  | false =>
    cases he : e.isNull with
    | true =>
      obtain rfl := Value.isNull_iff.1 he
      cases d with
      | null => cases hd
      | _ => rfl
    | false => simp [Value.sameItem_eq_same h]

mutual
/-- A field of the statement or of one inside it is NaN. An argument is no field. -/
def holdsNaN : Stmt → Bool
  | .event t => t.holdsNaN
  | .repeatTimes count body => count.isNaN || anyHoldsNaN body
  | .forever body | .program body => anyHoldsNaN body
  | .branch condition consequent none => condition.isNaN || anyHoldsNaN consequent
  | .branch condition consequent (some alternate) =>
    condition.isNaN || anyHoldsNaN consequent || anyHoldsNaN alternate
  | .awaitUntil condition => condition.isNaN
  | .call name _ duration => name.isNaN || duration.isNaN
  | .empty => false
termination_by structural s => s
def anyHoldsNaN : List Stmt → Bool
  | [] => false
  | s :: ss => s.holdsNaN || anyHoldsNaN ss
termination_by structural ss => ss
end

mutual
theorem same_eq_toRecord : (s : Stmt) → s.holdsNaN = false → ∀ t : Stmt,
    s.same t = s.toRecord.same t.toRecord
  | .event a, h, t => by
    rw [toRecord_same]
    cases t with
    | event b => simp [same, typeName, recordFields, Trigger.same_eq_fields h b]
    | _ => simp [same, typeName]
  | .repeatTimes n as, h, t => by
    obtain ⟨hn, hs⟩ := Bool.or_eq_false_iff.1 h
    rw [toRecord_same]
    cases t with
    | repeatTimes m bs =>
      simp [same, typeName, recordFields, Value.sameItem_eq_same hn, sameAll_eq_toRecords as hs bs]
    | _ => simp [same, typeName]
  | .forever as, h, t => by
    rw [toRecord_same]
    cases t with
    | forever bs => simp [same, typeName, recordFields, sameAll_eq_toRecords as h bs]
    | _ => simp [same, typeName]
  | .branch c as none, h, t => by
    obtain ⟨hc, hs⟩ := Bool.or_eq_false_iff.1 h
    rw [toRecord_same]
    cases t with
    | branch d bs alternate =>
      cases alternate <;> simp [same, typeName, recordFields, Value.isNull,
        Value.sameItem_eq_same hc, sameAll_eq_toRecords as hs bs]
    | _ => simp [same, typeName]
  | .branch c as (some as'), h, t => by
    obtain ⟨h, hs'⟩ := Bool.or_eq_false_iff.1 h
    obtain ⟨hc, hs⟩ := Bool.or_eq_false_iff.1 h
    rw [toRecord_same]
    cases t with
    | branch d bs alternate =>
      cases alternate with
      | none => simp [same, typeName, recordFields, Value.isNull]
      | some bs' =>
        simp [same, typeName, recordFields, Value.sameItem_eq_same hc,
          sameAll_eq_toRecords as hs bs, sameAll_eq_toRecords as' hs' bs', Bool.and_assoc]
    | _ => simp [same, typeName]
  | .awaitUntil c, h, t => by
    rw [toRecord_same]
    cases t with
    | awaitUntil d => simp [same, typeName, recordFields, Value.sameItem_eq_same h]
    | _ => simp [same, typeName]
  | .call f as d, h, t => by
    obtain ⟨hf, hd⟩ := Bool.or_eq_false_iff.1 h
    rw [toRecord_same]
    cases t with
    | call g bs e =>
      simp [same, typeName, recordFields, Value.sameItem_eq_same hf, duration_same hd e,
        Bool.and_assoc]
    | _ => simp [same, typeName]
  | .empty, _, t => by
    rw [toRecord_same]
    cases t with
    | empty => simp [same, typeName, recordFields]
    | _ => simp [same, typeName]
  | .program as, h, t => by
    rw [toRecord_same]
    cases t with
    | program bs => simp [same, typeName, recordFields, sameAll_eq_toRecords as h bs]
    | _ => simp [same, typeName]
/-- Statements are compared as their records are. -/
theorem sameAll_eq_toRecords : (ss : List Stmt) → anyHoldsNaN ss = false → ∀ ts : List Stmt,
    sameAll ss ts = Value.sameItems (toRecords ss) (toRecords ts)
  | [], _, ts => by cases ts <;> rfl
  | s :: ss, h, ts => by
    obtain ⟨hs, hss⟩ := Bool.or_eq_false_iff.1 h
    cases ts with
    | nil => rfl
    | cons t ts =>
      rw [toRecords, toRecords, Value.sameItems_cons, Value.sameItem_eq_same s.isNaN_toRecord]
      exact congrArg₂ and (same_eq_toRecord s hs t) (sameAll_eq_toRecords ss hss ts)
end

mutual
/-- Only statements without NaN in their fields equal any. -/
theorem holdsNaN_of_same : (s t : Stmt) → s.same t = true → s.holdsNaN = false ∧ t.holdsNaN = false
  | .event _, t, h => by
    cases t with
    | event => exact Trigger.holdsNaN_of_same h
    | _ => cases h
  | .repeatTimes _ as, t, h => by
    cases t with
    | repeatTimes _ bs =>
      simp only [same, Bool.and_eq_true] at h
      have hn := Value.isNaN_of_same h.1
      have hs := anyHoldsNaN_of_same as bs h.2
      simp [holdsNaN, hn, hs]
    | _ => cases h
  | .forever as, t, h => by
    cases t with
    | forever bs => exact anyHoldsNaN_of_same as bs h
    | _ => cases h
  | .branch _ as none, t, h => by
    cases t with
    | branch _ bs alternate =>
      cases alternate with
      | some => cases h
      | none =>
        simp only [same, Bool.and_eq_true] at h
        have hc := Value.isNaN_of_same h.1
        have hs := anyHoldsNaN_of_same as bs h.2
        simp [holdsNaN, hc, hs]
    | _ => cases h
  | .branch _ as (some as'), t, h => by
    cases t with
    | branch _ bs alternate =>
      cases alternate with
      | none => cases h
      | some bs' =>
        simp only [same, Bool.and_eq_true] at h
        have hc := Value.isNaN_of_same h.1.1
        have hs := anyHoldsNaN_of_same as bs h.1.2
        have hs' := anyHoldsNaN_of_same as' bs' h.2
        simp [holdsNaN, hc, hs, hs']
    | _ => cases h
  | .awaitUntil _, t, h => by
    cases t with
    | awaitUntil => exact Value.isNaN_of_same h
    | _ => cases h
  | .call .., t, h => by
    cases t with
    | call =>
      simp only [same, Bool.and_eq_true] at h
      have hf := Value.isNaN_of_same h.1.1
      have hd := Value.isNaN_of_same h.2
      simp [holdsNaN, hf, hd]
    | _ => cases h
  | .empty, t, h => by
    cases t with
    | empty => exact ⟨rfl, rfl⟩
    | _ => cases h
  | .program as, t, h => by
    cases t with
    | program bs => exact anyHoldsNaN_of_same as bs h
    | _ => cases h
theorem anyHoldsNaN_of_same : (ss ts : List Stmt) → sameAll ss ts = true →
    anyHoldsNaN ss = false ∧ anyHoldsNaN ts = false
  | [], ts, h => by
    cases ts with
    | nil => exact ⟨rfl, rfl⟩
    | cons => cases h
  | s :: ss, ts, h => by
    cases ts with
    | nil => cases h
    | cons t ts =>
      obtain ⟨hs, hss⟩ := Bool.and_eq_true_iff.1 h
      have hs := holdsNaN_of_same s t hs
      have hss := anyHoldsNaN_of_same ss ts hss
      simp [anyHoldsNaN, hs, hss]
end

end Stmt

/-- A field of a statement is NaN, at any depth. -/
def Program.holdsNaN (p : Program) : Bool := p.toStmt.holdsNaN

namespace Program

variable {p q : Program}

theorem same_eq_toRecord (h : p.holdsNaN = false) (q : Program) :
    p.same q = p.toRecord.same q.toRecord := p.toStmt.same_eq_toRecord h q.toStmt

theorem holdsNaN_of_same (h : p.same q = true) : p.holdsNaN = false ∧ q.holdsNaN = false :=
  Stmt.holdsNaN_of_same p.toStmt q.toStmt h

/-- A program equals itself unless a field is NaN. -/
theorem same_self (hd : p.toRecord.Distinct) : p.same p = !p.holdsNaN := by
  cases h : p.holdsNaN with
  | false =>
    rw [same_eq_toRecord h, Value.same_self _ hd, toRecord, p.toStmt.isNaN_toRecord]
  | true =>
    rw [Bool.not_true, Bool.eq_false_iff]
    intro hs
    rw [(holdsNaN_of_same hs).1] at h
    cases h

end Program

end Lia
