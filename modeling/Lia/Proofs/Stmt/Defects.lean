import Mathlib.Data.List.Lex
import Lia.Proofs.Stmt.Record

/-!
# The first defect of a record

What is read of a record of a type is a short list of fields, in order, and some of them hold
records again. So each defect has a place: the ranks of fields and of items on the way to it.
Main statement: what is read is a program if its record has no defect and is one of a program,
and of several defects the one at the least place is reported (`ofRecord?_first_defect`).
-/

namespace Lia

open Record

-- ---------------------------------------------------------------------------
-- What is read of a record
-- ---------------------------------------------------------------------------

namespace Value

/-- The type that a record names, null if it names none. -/
def typeOf (v : Value) : Value := (v.get? "type").getD .null

/-- What stands in a value one after another: items, characters, or the names of fields. -/
def items? : Value → Option (List Value)
  | .list items => some items
  | .text s => some (s.toList.map fun c => .text (String.singleton c))
  | .record fields => some (fields.map fun f => .text f.1)
  | _ => none

end Value

namespace Record

/-- A field that is looked up, and what is expected there. -/
inductive Reading
  | value (name : String)
  | arguments (name : String)
  | statements (name : String)
  /-- They may be missing or null. -/
  | optionalStatements (name : String)

/-- The fields of a type in the order in which they are looked up. -/
def readings? : Value → Option (List Reading)
  | .text "Program" => some [.statements "body"]
  | .text "Event" => some [.value "kind"]
  | .text "Repeat" => some [.value "count", .statements "body"]
  | .text "LoopStatement" => some [.statements "body"]
  | .text "If" =>
    some [.optionalStatements "alternate", .value "condition", .statements "consequent"]
  | .text "AwaitUntil" => some [.value "condition"]
  | .text "Call" => some [.value "name", .arguments "args"]
  | .text "Empty" => some []
  | _ => none

namespace Reading

def name : Reading → String
  | .value name | .arguments name | .statements name | .optionalStatements name => name

/-- What is wrong with the field itself. -/
def refusal : Reading → Option Value → Option RecordError
  | .optionalStatements _, none => none
  | ρ, none => some (.missing ρ.name)
  | .value _, some _ => none
  | .optionalStatements _, some .null => none
  | ρ, some v => if v.items?.isSome then none else some (.notList ρ.name)

/-- The statements that stand in the field. -/
def inside : Reading → Option Value → List Value
  | .statements _, some v | .optionalStatements _, some v => v.items?.getD []
  | _, _ => []

end Reading

end Record

-- ---------------------------------------------------------------------------
-- Defects and their places
-- ---------------------------------------------------------------------------

namespace Value

def readings (v : Value) : List Reading := (readings? v.typeOf).getD []

/-- The statements in a field. -/
def inside (v : Value) (ρ : Reading) : List Value := ρ.inside (v.get? ρ.name)

/-- A statement stands inside a value at the end of a path: for each level the rank of a field,
and the place of an item in it. -/
inductive RecordAt : Value → List Nat → Value → Prop
  | self : RecordAt v [] v
  | item (hρ : v.readings[k]? = some ρ) (hi : (v.inside ρ)[i]? = some u) (h : RecordAt u path r) :
      RecordAt v (k :: i :: path) r

/-- What is wrong with a record itself, by the rank of the field. -/
inductive Lacks : Value → Nat → RecordError → Prop
  | notRecord (h : ∀ fields, v ≠ .record fields) : Lacks v 0 .notRecord
  | unknownType (h : readings? (typeOf (.record fields)) = none) :
      Lacks (.record fields) 0 (.unknownType (typeOf (.record fields)))
  | field (hρ : v.readings[k]? = some ρ) (h : ρ.refusal (v.get? ρ.name) = some e) : Lacks v k e

/-- A known type, and the fields of that type. -/
def Complete (v : Value) : Prop :=
  ∃ ρs, readings? v.typeOf = some ρs ∧ ∀ ρ ∈ ρs, ρ.refusal (v.get? ρ.name) = none

/-- All records inside are complete. -/
def Sound (v : Value) : Prop := ∀ path r, v.RecordAt path r → r.Complete

/-- A defect of a record inside, at the path to it and the rank of the field. -/
def DefectAt (v : Value) (place : List Nat) (e : RecordError) : Prop :=
  ∃ path r k, v.RecordAt path r ∧ r.Lacks k e ∧ place = path ++ [k]

section
variable {v u r r' : Value} {path place place' : List Nat} {k i : Nat} {ρ : Reading}
  {e e' : RecordError}

theorem readings_of_not_record (h : ∀ fields, v ≠ .record fields) : v.readings = [] := by
  cases v with
  | record fields => exact absurd rfl (h fields)
  | _ => rfl

theorem readings_of_known {ρs : List Reading} (h : readings? v.typeOf = some ρs) :
    v.readings = ρs := by
  rw [readings, h, Option.getD_some]

theorem Lacks.exists_reading {ρs : List Reading} (h : v.Lacks k e)
    (hρs : readings? v.typeOf = some ρs) :
    ∃ ρ, ρs[k]? = some ρ ∧ ρ.refusal (v.get? ρ.name) = some e := by
  cases h with
  | notRecord h =>
    cases v with
    | record fields => exact absurd rfl (h fields)
    | _ => cases hρs
  | unknownType h =>
    rw [h] at hρs
    cases hρs
  | field hρ he => exact ⟨_, readings_of_known hρs ▸ hρ, he⟩

theorem Complete.not_lacks (h : v.Complete) : ¬ v.Lacks k e := by
  obtain ⟨ρs, hρs, hfields⟩ := h
  intro he
  obtain ⟨ρ, hρ, he⟩ := he.exists_reading hρs
  rw [hfields ρ (List.mem_of_getElem? hρ)] at he
  cases he

theorem exists_lacks (h : ¬ v.Complete) : ∃ k e, v.Lacks k e := by
  cases hρs : readings? v.typeOf with
  | none =>
    cases v with
    | record fields => exact ⟨0, _, .unknownType hρs⟩
    | _ => exact ⟨0, _, .notRecord nofun⟩
  | some ρs =>
    by_contra hno
    refine h ⟨ρs, hρs, fun ρ hρ => ?_⟩
    obtain ⟨k, hk⟩ := List.mem_iff_getElem?.1 hρ
    cases he : ρ.refusal (v.get? ρ.name) with
    | none => rfl
    | some e => exact absurd ⟨k, e, .field (readings_of_known hρs ▸ hk) he⟩ hno

theorem Lacks.unique (h : v.Lacks k e) (h' : v.Lacks k e') : e = e' := by
  cases h with
  | notRecord h =>
    cases h' with
    | notRecord => rfl
    | unknownType => exact absurd rfl (h _)
    | field hρ => simp [readings_of_not_record h] at hρ
  | unknownType h =>
    cases h' with
    | notRecord h' => exact absurd rfl (h' _)
    | unknownType => rfl
    | field hρ => simp [readings, h] at hρ
  | field hρ he =>
    cases h' with
    | notRecord h' => simp [readings_of_not_record h'] at hρ
    | unknownType h' => simp [readings, h'] at hρ
    | field hρ' he' =>
      obtain rfl := Option.some.inj (hρ.symm.trans hρ')
      exact Option.some.inj (he.symm.trans he')

theorem RecordAt.unique (h : v.RecordAt path r) (h' : v.RecordAt path r') : r = r' := by
  induction h with
  | self => cases h'; rfl
  | item hρ hi _ ih =>
    cases h' with
    | item hρ' hi' h' =>
      obtain rfl := Option.some.inj (hρ.symm.trans hρ')
      obtain rfl := Option.some.inj (hi.symm.trans hi')
      exact ih h'

theorem RecordAt.eq_or_inside (h : v.RecordAt path r) :
    r = v ∨ ∃ ρ ∈ v.readings, ∃ u ∈ v.inside ρ, ∃ path', u.RecordAt path' r := by
  cases h with
  | self => exact .inl rfl
  | item hρ hi h =>
    exact .inr ⟨_, List.mem_of_getElem? hρ, _, List.mem_of_getElem? hi, _, h⟩

/-- One defect at a place. -/
theorem DefectAt.unique (h : v.DefectAt place e) (h' : v.DefectAt place e') : e = e' := by
  obtain ⟨path, r, k, hr, he, rfl⟩ := h
  obtain ⟨path', r', k', hr', he', hplace⟩ := h'
  obtain ⟨rfl, rfl⟩ := List.append_singleton_inj.1 hplace
  obtain rfl := hr.unique hr'
  exact he.unique he'

theorem sound_iff : v.Sound ↔ ∀ place e, ¬ v.DefectAt place e := by
  constructor
  · rintro h _ e ⟨path, r, k, hr, he, -⟩
    exact (h path r hr).not_lacks he
  · intro h path r hr
    by_contra hc
    obtain ⟨k, e, he⟩ := exists_lacks hc
    exact h _ e ⟨path, r, k, hr, he, rfl⟩

end

end Value

-- ---------------------------------------------------------------------------
-- Induction over what stands inside
-- ---------------------------------------------------------------------------

namespace Value

section
variable {v u : Value} {items : List Value} {ρ : Reading}

/-- Only in lists stands more than texts. -/
theorem eq_list_or_text (h : v.items? = some items) :
    v = .list items ∨ ∀ u ∈ items, ∃ s, u = .text s := by
  cases v with
  | list =>
    cases h
    exact .inl rfl
  | text | record =>
    cases h
    refine .inr fun u hu => ?_
    obtain ⟨_, -, rfl⟩ := List.mem_map.1 hu
    exact ⟨_, rfl⟩
  | _ => cases h

theorem exists_items (h : u ∈ v.inside ρ) :
    ∃ w items, v.get? ρ.name = some w ∧ w.items? = some items ∧ u ∈ items := by
  rw [inside] at h
  cases hw : v.get? ρ.name with
  | none =>
    rw [hw] at h
    cases ρ <;> cases h
  | some w =>
    have hu : u ∈ w.items?.getD [] := by
      rw [hw] at h
      cases ρ with
      | statements | optionalStatements => exact h
      | value | arguments => cases h
    cases hitems : w.items? with
    | none =>
      rw [hitems] at hu
      cases hu
    | some items =>
      rw [hitems] at hu
      exact ⟨w, items, rfl, hitems, hu⟩

end

section
variable {motive : Value → Prop}

theorem inside_induction_leaf (step : ∀ v, (∀ ρ, ∀ u ∈ v.inside ρ, motive u) → motive v) {v : Value}
    (h : ∀ fields, v ≠ .record fields) : motive v := by
  refine step v fun ρ u hu => ?_
  obtain ⟨w, -, hw, -⟩ := exists_items hu
  cases v with
  | record fields => exact absurd rfl (h fields)
  | _ => cases hw

mutual
/-- To prove something of a value, prove it from the statements in its fields. -/
theorem inside_induction (step : ∀ v, (∀ ρ, ∀ u ∈ v.inside ρ, motive u) → motive v) :
    ∀ v, motive v
  | .record fields => step _ fun ρ u hu => by
    obtain ⟨w, items, hw, hitems, hu⟩ := exists_items hu
    exact inside_induction_fields step fields _ (mem_of_lookup hw) items hitems u hu
  | .null | .flag _ | .number _ | .text _ | .list _ => inside_induction_leaf step nofun
theorem inside_induction_items (step : ∀ v, (∀ ρ, ∀ u ∈ v.inside ρ, motive u) → motive v) :
    ∀ items : List Value, ∀ u ∈ items, motive u
  | [] => List.forall_mem_nil _
  | v :: vs => List.forall_mem_cons.2 ⟨inside_induction step v, inside_induction_items step vs⟩
theorem inside_induction_fields (step : ∀ v, (∀ ρ, ∀ u ∈ v.inside ρ, motive u) → motive v) :
    ∀ fields : List (String × Value), ∀ f ∈ fields, ∀ items, f.2.items? = some items →
      ∀ u ∈ items, motive u
  | [] => List.forall_mem_nil _
  | (_, v) :: rest => by
    refine List.forall_mem_cons.2 ⟨fun items h u hu => ?_, inside_induction_fields step rest⟩
    obtain rfl | htexts := eq_list_or_text h
    · exact inside_induction_items step items u hu
    · obtain ⟨s, rfl⟩ := htexts u hu
      exact inside_induction_leaf step nofun
end

end

end Value

-- ---------------------------------------------------------------------------
-- Why reading fails
-- ---------------------------------------------------------------------------

def failure? : Except ε α → Option ε
  | .ok _ => none
  | .error e => some e

theorem failure?_bind_pure (x : Except ε α) (f : α → β) :
    failure? (x >>= fun a => pure (f a)) = failure? x := by
  cases x <;> rfl

/-- What is done first fails first, if what comes then does not depend on its result. -/
theorem failure?_bind {x : Except ε α} {f : α → Except ε β} {g : γ → Option ε} {c : γ} {cs : List γ}
    (hx : failure? x = g c) (hf : ∀ a, failure? (f a) = cs.findSome? g) :
    failure? (x >>= f) = (c :: cs).findSome? g := by
  rw [List.findSome?_cons, ← hx]
  cases x with
  | error => rfl
  | ok a => exact hf a

@[simp] theorem failure?_map (x : Except ε α) (f : α → β) : failure? (x.map f) = failure? x := by
  cases x <;> rfl

theorem failure?_ofRecords? (vs : List Value) :
    failure? (Stmt.ofRecords? vs) = vs.findSome? fun v => failure? (Stmt.ofRecord? v) := by
  induction vs with
  | nil => rfl
  | cons v vs ih =>
    rw [Stmt.ofRecords?]
    exact failure?_bind rfl fun s => (failure?_bind_pure _ _).trans ih

namespace Record

variable {fields : List (String × Value)}

/-- What reading a field comes to: what is wrong with it, or else the first failure inside. -/
def Reading.failure? (ρ : Reading) (v : Option Value) : Option RecordError :=
  (ρ.refusal v).or ((ρ.inside v).findSome? fun u => Lia.failure? (Stmt.ofRecord? u))

theorem statements_of (name : String) (v : Value) : (Field.of name v).statements =
    v.items?.elim (.error (.notList name)) Stmt.ofRecords? := by
  cases v with
  | text s =>
    change noStatements name (.text s) = Stmt.ofRecords? (s.toList.map _)
    rw [noStatements]
    split
    next hs => rw [hs]; rfl
    next hs =>
      -- Characters are no records, and one is enough.
      obtain ⟨c, cs, hcs⟩ := List.exists_cons_of_ne_nil (mt String.toList_eq_nil_iff.1 hs)
      rw [hcs]
      rfl
  | record fields =>
    cases fields <;> rfl
  | _ => rfl

theorem failure?_required (name : String) : Lia.failure? ((Stmt.ofFields fields).required name) =
    (Reading.value name).failure? (fields.lookup name) := by
  rw [required_ofFields]
  cases fields.lookup name <;> rfl

theorem failure?_values (name : String) : Lia.failure? ((Stmt.ofFields fields).values name) =
    (Reading.arguments name).failure? (fields.lookup name) := by
  rw [Fields.values, required_ofFields]
  cases fields.lookup name with
  | none => rfl
  | some v => cases v <;> rfl

theorem failure?_items (name : String) (v : Value) :
    Lia.failure? (v.items?.elim (.error (.notList name)) Stmt.ofRecords?) =
      (Reading.statements name).failure? (some v) := by
  simp only [Reading.failure?, Reading.refusal, Reading.inside, Reading.name]
  cases v.items? with
  | none => rfl
  | some items => exact failure?_ofRecords? items

theorem failure?_statements (name : String) :
    Lia.failure? ((Stmt.ofFields fields).statements name) =
      (Reading.statements name).failure? (fields.lookup name) := by
  rw [statements_ofFields]
  cases fields.lookup name with
  | none => rfl
  | some v =>
    rw [Option.elim_some, statements_of]
    exact failure?_items name v

theorem failure?_optionalStatements (name : String) :
    Lia.failure? ((Stmt.ofFields fields).optionalStatements name) =
      (Reading.optionalStatements name).failure? (fields.lookup name) := by
  rw [optionalStatements_ofFields]
  cases fields.lookup name with
  | none => rfl
  | some v =>
    cases v with
    | null => rfl
    | _ =>
      rw [Option.elim_some, if_neg (by simp [Value.isNull]), failure?_map, statements_of]
      exact failure?_items name _

theorem typeOf_record (fields : List (String × Value)) :
    (Value.record fields).typeOf = (Stmt.ofFields fields).optional "type" :=
  (optional_ofFields fields "type").symm

theorem failure?_toStmt (fields : List (String × Value)) :
    Lia.failure? (Stmt.ofFields fields).toStmt =
      match readings? (Value.record fields).typeOf with
      | none => some (.unknownType (Value.record fields).typeOf)
      | some ρs => ρs.findSome? fun ρ => ρ.failure? (fields.lookup ρ.name) := by
  rw [Fields.toStmt, typeOf_record]
  unfold readings?
  split
  next h =>
    rw [h]
    exact failure?_bind (failure?_statements _) fun _ => rfl
  next h =>
    rw [h]
    exact failure?_bind (failure?_required _) fun _ => rfl
  next h =>
    rw [h]
    exact failure?_bind (failure?_required _) fun _ =>
      failure?_bind (failure?_statements _) fun _ => rfl
  next h =>
    rw [h]
    exact failure?_bind (failure?_statements _) fun _ => rfl
  next h =>
    rw [h]
    exact failure?_bind (failure?_optionalStatements _) fun _ =>
      failure?_bind (failure?_required _) fun _ => failure?_bind (failure?_statements _) fun _ => rfl
  next h =>
    rw [h]
    exact failure?_bind (failure?_required _) fun _ => rfl
  next h =>
    rw [h]
    exact failure?_bind (failure?_required _) fun _ => failure?_bind (failure?_values _) fun _ => rfl
  next h =>
    rw [h]
    rfl
  next =>
    simp only [failure?]
    rfl

end Record

-- ---------------------------------------------------------------------------
-- The first failure is the first defect
-- ---------------------------------------------------------------------------

/-- What stands at a place, and nothing at a place before. Of two places the one with the lower
rank where they differ comes first. -/
structure First (D : List Nat → ε → Prop) (place : List Nat) (e : ε) : Prop where
  stands : D place e
  least : ∀ place' e', D place' e' → ¬ List.Lex (· < ·) place' place

/-- What is found is the first there is, and nothing only if there is none. -/
structure Finds (found : Option ε) (D : List Nat → ε → Prop) : Prop where
  none_of : found = none → ∀ place e, ¬ D place e
  first_of : ∀ e, found = some e → ∃ place, First D place e

/-- What stands somewhere in one of several, with the rank of that one before its place. -/
def Along (as : List α) (D : α → List Nat → ε → Prop) (place : List Nat) (e : ε) : Prop :=
  ∃ k a rest, as[k]? = some a ∧ D a rest e ∧ place = k :: rest

section
variable {α ε : Type} {D : α → List Nat → ε → Prop} {a : α} {as : List α} {f : α → Option ε}
  {place : List Nat} {e : ε}

theorem along_cons_iff : Along (a :: as) D place e ↔
    (∃ rest, D a rest e ∧ place = 0 :: rest) ∨
      ∃ k rest, Along as D (k :: rest) e ∧ place = (k + 1) :: rest := by
  constructor
  · rintro ⟨k, b, rest, hk, hb, rfl⟩
    cases k with
    | zero =>
      obtain rfl : a = b := Option.some.inj hk
      exact .inl ⟨rest, hb, rfl⟩
    | succ k => exact .inr ⟨k, rest, ⟨k, b, rest, hk, hb, rfl⟩, rfl⟩
  · rintro (⟨rest, ha, rfl⟩ | ⟨k, rest, ⟨_, b, _, hk, hb, h⟩, rfl⟩)
    · exact ⟨0, a, rest, rfl, ha, rfl⟩
    · cases h
      exact ⟨k + 1, b, rest, hk, hb, rfl⟩

theorem finds_nil : Finds none (Along [] D) where
  none_of := by
    rintro - _ _ ⟨_, _, _, hk, -⟩
    cases hk
  first_of := nofun

/-- Whatever the first has comes before what the others have. -/
theorem First.along_head {rest : List Nat} (h : First (D a) rest e) :
    First (Along (a :: as) D) (0 :: rest) e := by
  obtain ⟨ha, hfirst⟩ := h
  refine ⟨along_cons_iff.2 (.inl ⟨rest, ha, rfl⟩), fun place' e' hp hlt => ?_⟩
  obtain ⟨rest', h', rfl⟩ | ⟨k, rest', -, rfl⟩ := along_cons_iff.1 hp
  · obtain hlt | ⟨-, hlt⟩ := List.cons_lex_cons_iff.1 hlt
    · exact absurd hlt (Nat.lt_irrefl 0)
    · exact hfirst rest' e' h' hlt
  · obtain hlt | ⟨hk, -⟩ := List.cons_lex_cons_iff.1 hlt
    · exact absurd hlt (Nat.not_lt_zero _)
    · cases hk

theorem First.along_tail {k : Nat} {rest : List Nat} (ha : ∀ place e, ¬ D a place e)
    (h : First (Along as D) (k :: rest) e) : First (Along (a :: as) D) ((k + 1) :: rest) e := by
  obtain ⟨has, hfirst⟩ := h
  refine ⟨along_cons_iff.2 (.inr ⟨k, rest, has, rfl⟩), fun place' e' hp hlt => ?_⟩
  obtain ⟨rest', h', -⟩ | ⟨k', rest', h', rfl⟩ := along_cons_iff.1 hp
  · exact ha _ _ h'
  · refine hfirst _ e' h' (List.cons_lex_cons_iff.2 ?_)
    obtain hlt | ⟨hk, hlt⟩ := List.cons_lex_cons_iff.1 hlt
    · exact .inl (Nat.lt_of_succ_lt_succ hlt)
    · exact .inr ⟨Nat.succ.inj hk, hlt⟩

theorem Finds.congr {found : Option ε} {D D' : List Nat → ε → Prop} (h : Finds found D)
    (hD : ∀ place e, D' place e ↔ D place e) : Finds found D' := by
  obtain rfl : D' = D := funext fun place => funext fun e => propext (hD place e)
  exact h

/-- What has no place of its own comes before all the rest. -/
theorem Finds.or {own found : Option ε} {D : List Nat → ε → Prop} (h : Finds found D) :
    Finds (own.or found) fun place e => own = some e ∧ place = [] ∨ D place e := by
  cases own with
  | none => exact h.congr fun place e => by simp
  | some e =>
    refine ⟨by simp, ?_⟩
    rintro _ ⟨⟩
    exact ⟨[], .inl ⟨rfl, rfl⟩, fun _ _ _ => List.not_lex_nil⟩

/-- Searching one after another finds what is first in the first that has any. -/
theorem Finds.along (h : ∀ a ∈ as, Finds (f a) (D a)) : Finds (as.findSome? f) (Along as D) := by
  induction as with
  | nil => exact finds_nil
  | cons a as ih =>
    obtain ⟨ha, has⟩ := List.forall_mem_cons.1 h
    rw [List.findSome?_cons]
    cases hf : f a with
    | some e =>
      refine ⟨by simp, fun e' he => ?_⟩
      obtain ⟨rest, hfirst⟩ := ha.first_of e' (hf.trans he)
      exact ⟨_, hfirst.along_head⟩
    | none =>
      have hnone := ha.none_of hf
      refine ⟨fun hn place e h' => ?_, fun e he => ?_⟩
      · obtain ⟨rest', h', -⟩ | ⟨k, rest', h', -⟩ := along_cons_iff.1 h'
        · exact hnone _ _ h'
        · exact (ih has).none_of hn _ _ h'
      · obtain ⟨place, hfirst⟩ := (ih has).first_of e he
        obtain ⟨k, _, rest, -, -, rfl⟩ := hfirst.stands
        exact ⟨_, hfirst.along_tail hnone⟩

end

namespace Value

section
variable {v u r r' : Value} {path place place' : List Nat} {k i : Nat} {ρ : Reading}
  {e e' : RecordError} {ρs : List Reading}

/-- A defect of a field or of a statement in it, behind the rank of the field. -/
def DefectUnder (v : Value) (ρ : Reading) (place : List Nat) (e : RecordError) : Prop :=
  ρ.refusal (v.get? ρ.name) = some e ∧ place = [] ∨ Along (v.inside ρ) DefectAt place e

theorem defectAt_iff (hρs : readings? v.typeOf = some ρs) :
    v.DefectAt place e ↔ Along ρs v.DefectUnder place e := by
  constructor
  · rintro ⟨path, r, k, hr, he, rfl⟩
    cases hr with
    | self =>
      obtain ⟨ρ, hρ, he⟩ := he.exists_reading hρs
      exact ⟨k, ρ, [], hρ, .inl ⟨he, rfl⟩, rfl⟩
    | item hρ hi h =>
      rw [readings_of_known hρs] at hρ
      exact ⟨_, _, _, hρ, .inr ⟨_, _, _, hi, ⟨_, _, _, h, he, rfl⟩, rfl⟩, rfl⟩
  · rintro ⟨k, ρ, rest, hρ, hrest, rfl⟩
    rw [← readings_of_known hρs] at hρ
    obtain ⟨he, rfl⟩ | ⟨i, u, rest, hi, ⟨path, r, k', hr, he, rfl⟩, rfl⟩ := hrest
    · exact ⟨[], v, k, .self, .field hρ he, rfl⟩
    · exact ⟨_, r, k', .item hρ hi hr, he, rfl⟩

/-- Nothing stands before the first field. -/
theorem Lacks.first (h : v.Lacks 0 e) : First v.DefectAt [0] e := by
  refine ⟨⟨[], v, 0, .self, h, rfl⟩, ?_⟩
  rintro _ e' ⟨path, r, k, -, -, rfl⟩ hlt
  cases path <;> simp [List.cons_lex_cons_iff] at hlt

theorem first_unique (h : First v.DefectAt place e) (h' : First v.DefectAt place' e') : e = e' := by
  have hle := h'.least _ _ h.stands
  have hge := h.least _ _ h'.stands
  obtain rfl : place = place' :=
    Std.Trichotomous.trichotomous (r := List.Lex (· < ·)) _ _ hle hge
  exact h.stands.unique h'.stands

theorem not_sound_of_first (h : First v.DefectAt place e) : ¬ v.Sound := fun hsound =>
  sound_iff.1 hsound place e h.stands

theorem Lacks.finds (h : v.Lacks 0 e) : Finds (some e) v.DefectAt where
  none_of := by simp
  first_of := by
    rintro _ ⟨⟩
    exact ⟨[0], h.first⟩

theorem finds_defectUnder {fields : List (String × Value)}
    (h : ∀ u ∈ (record fields).inside ρ, Finds (failure? (Stmt.ofRecord? u)) u.DefectAt) :
    Finds (ρ.failure? (fields.lookup ρ.name)) ((record fields).DefectUnder ρ) :=
  (Finds.along h).or

/-- Reading fails with the first defect. -/
theorem finds_ofRecord? (v : Value) : Finds (failure? (Stmt.ofRecord? v)) v.DefectAt := by
  induction v using inside_induction with
  | step v ih =>
    cases v with
    | record fields =>
      rw [Stmt.ofRecord?_record, failure?_toStmt]
      cases hρs : readings? (typeOf (.record fields)) with
      | none => exact (Lacks.unknownType hρs).finds
      | some ρs =>
        have hfields : ∀ ρ ∈ ρs, Finds (ρ.failure? (fields.lookup ρ.name))
            ((record fields).DefectUnder ρ) := fun ρ _ => finds_defectUnder (ih ρ)
        exact (Finds.along hfields).congr fun place e => defectAt_iff hρs
    | _ => exact (Lacks.notRecord fun _ h => by cases h).finds

end

end Value

-- ---------------------------------------------------------------------------
-- Main statement
-- ---------------------------------------------------------------------------

theorem forall_ok_bind {x : Except ε α} {f : α → Except ε β} {P : β → Prop}
    (h : ∀ a b, f a = .ok b → P b) : ∀ b, (x >>= f) = .ok b → P b := by
  intro b hb
  obtain ⟨a, -, hf⟩ := bind_eq_ok hb
  exact h a b hf

theorem forall_ok_pure {a : α} {P : α → Prop} (h : P a) :
    ∀ b, (pure a : Except ε α) = .ok b → P b := by
  rintro _ ⟨⟩
  exact h

/-- What is read has the type that the record names. -/
theorem Record.typeOf_of_toStmt (fields : List (String × Value)) :
    ∀ s, (Stmt.ofFields fields).toStmt = .ok s →
      (Value.record fields).typeOf = .text s.typeName := by
  rw [typeOf_record]
  unfold Fields.toStmt
  split
  next ht => exact forall_ok_bind fun _ => forall_ok_pure ht
  next ht => exact forall_ok_bind fun _ => forall_ok_pure ht
  next ht => exact forall_ok_bind fun _ => forall_ok_bind fun _ => forall_ok_pure ht
  next ht => exact forall_ok_bind fun _ => forall_ok_pure ht
  next ht =>
    exact forall_ok_bind fun _ => forall_ok_bind fun _ => forall_ok_bind fun _ => forall_ok_pure ht
  next ht => exact forall_ok_bind fun _ => forall_ok_pure ht
  next ht => exact forall_ok_bind fun _ => forall_ok_bind fun _ => forall_ok_pure ht
  next ht => exact forall_ok_pure ht
  next => exact fun s h => by cases h

namespace Program

variable {v : Value}

theorem typeOf_of_ofRecord? {s : Stmt} (h : Stmt.ofRecord? v = .ok s) :
    v.typeOf = .text s.typeName := by
  cases v with
  | record fields => exact typeOf_of_toStmt fields s h
  | _ => cases h

/-- A record has a first defect, or it has none and is one of a program or of something else. -/
theorem ofRecord?_cases (v : Value) :
    (∃ place e, First v.DefectAt place e ∧ ofRecord? v = .error e) ∨
      (v.Sound ∧ v.typeOf = .text "Program" ∧ ∃ p, ofRecord? v = .ok p) ∨
      (v.Sound ∧ v.typeOf ≠ .text "Program" ∧ ofRecord? v = .error .notProgram) := by
  have hfinds := v.finds_ofRecord?
  cases hs : Stmt.ofRecord? v with
  | error e =>
    obtain ⟨place, hfirst⟩ := hfinds.first_of e (by rw [hs]; rfl)
    exact .inl ⟨place, e, hfirst, by rw [ofRecord?, hs]; rfl⟩
  | ok s =>
    have hsound := Value.sound_iff.2 (hfinds.none_of (by rw [hs]; rfl))
    have htype := typeOf_of_ofRecord? hs
    cases s with
    | program body => exact .inr (.inl ⟨hsound, htype, ⟨body⟩, by rw [ofRecord?, hs]; rfl⟩)
    | _ => exact .inr (.inr ⟨hsound, by simp [htype, Stmt.typeName], by rw [ofRecord?, hs]; rfl⟩)

theorem ofRecord?_first_defect (v : Value) :
    ((∃ p, ofRecord? v = .ok p) ↔ v.typeOf = .text "Program" ∧ v.Sound) ∧
    (∀ e, ofRecord? v = .error e ↔ (∃ place, First v.DefectAt place e) ∨
      v.Sound ∧ v.typeOf ≠ .text "Program" ∧ e = .notProgram) ∧
    RecordError.notProgram.message = "Top-level record is not a Program" := by
  refine ⟨?_, fun e => ?_, rfl⟩
  · obtain ⟨place, e, hfirst, he⟩ | ⟨hsound, htype, hp⟩ | ⟨-, htype, he⟩ := ofRecord?_cases v
    · exact iff_of_false (by simp [he]) fun h => Value.not_sound_of_first hfirst h.2
    · exact iff_of_true hp ⟨htype, hsound⟩
    · exact iff_of_false (by simp [he]) fun h => htype h.1
  · obtain ⟨place, e', hfirst, he⟩ | ⟨hsound, htype, p, hp⟩ | ⟨hsound, htype, he⟩ := ofRecord?_cases v
    · rw [he, Except.error.injEq]
      constructor
      · rintro rfl
        exact .inl ⟨place, hfirst⟩
      · rintro (⟨place', hfirst'⟩ | ⟨hsound, -⟩)
        · exact Value.first_unique hfirst hfirst'
        · exact absurd hsound (Value.not_sound_of_first hfirst)
    · refine iff_of_false (by simp [hp]) ?_
      rintro (⟨place, hfirst⟩ | ⟨-, h, -⟩)
      · exact Value.not_sound_of_first hfirst hsound
      · exact h htype
    · rw [he, Except.error.injEq]
      constructor
      · rintro rfl
        exact .inr ⟨hsound, htype, rfl⟩
      · rintro (⟨place, hfirst⟩ | ⟨-, -, rfl⟩)
        · exact absurd hsound (Value.not_sound_of_first hfirst)
        · rfl

end Program

-- The condition and the consequent are missing too, but the alternate is read first.
example : Program.ofRecord? (.record [("type", "Program"), ("body", .list [.record [("type", "If"),
    ("alternate", .list [.record [("type", "Call"), ("args", .list [])]])]])]) =
      .error (.missing "name") := rfl

/-- A call with a number for its arguments. -/
def numberCall : Value := .record [("type", "Call"), ("name", "x"), ("args", 5)]

def numberProgram : Value := .record [("type", "Program"), ("body", .list [numberCall])]

/-- All types are known and no field is missing, and yet it is not read. -/
theorem numberProgram_refused :
    (numberProgram.typeOf = .text "Program" ∧ ∀ path r, numberProgram.RecordAt path r →
      ∃ ρs, readings? r.typeOf = some ρs ∧ ∀ ρ ∈ ρs, r.get? ρ.name ≠ none) ∧
    ¬ (∃ p, Program.ofRecord? numberProgram = .ok p) ∧
    Program.ofRecord? numberProgram = .error (.notList "args") := by
  have h : Program.ofRecord? numberProgram = .error (.notList "args") := rfl
  have hprogram : readings? numberProgram.typeOf = some [.statements "body"] := rfl
  have hcall : readings? numberCall.typeOf = some [.value "name", .arguments "args"] := rfl
  refine ⟨⟨rfl, fun path r hr => ?_⟩, by simp [h], h⟩
  obtain rfl | ⟨ρ, hρ, u, hu, path', hr⟩ := hr.eq_or_inside
  · exact ⟨_, hprogram, List.forall_mem_singleton.2 (by rintro ⟨⟩)⟩
  · rw [Value.readings_of_known hprogram] at hρ
    obtain rfl := List.mem_singleton.1 hρ
    obtain rfl : u = numberCall := List.mem_singleton.1 hu
    obtain rfl | ⟨ρ', hρ', u', hu', -⟩ := hr.eq_or_inside
    · exact ⟨_, hcall, List.forall_mem_cons.2 ⟨by rintro ⟨⟩, List.forall_mem_singleton.2 (by rintro ⟨⟩)⟩⟩
    · -- There are no statements in a call.
      rw [Value.readings_of_known hcall] at hρ'
      obtain rfl | hρ' := List.mem_cons.1 hρ'
      · cases hu'
      · obtain rfl := List.mem_singleton.1 hρ'
        cases hu'

end Lia
