import Lia.Proofs.Stmt.Equality

/-!
# Records and programs

What is written as a record is read back as it was, and a record that has exactly the
fields of a written one, in any order, is written as it was read. Main statement:
`Program.record_lossless`.
-/

namespace Lia

open Record

theorem bind_eq_ok {x : Except ε α} {f : α → Except ε β} {b : β} (h : (x >>= f) = .ok b) :
    ∃ a, x = .ok a ∧ f a = .ok b := by
  cases x with
  | error => cases h
  | ok a => exact ⟨a, rfl, h⟩

-- ---------------------------------------------------------------------------
-- Fields
-- ---------------------------------------------------------------------------

namespace Record

/-- A field as it is read. -/
def Field.of (name : String) (v : Value) : Field :=
  ⟨name, v, match v with
    | .list items => Stmt.ofRecords? items
    | v => noStatements name v⟩

theorem ofFields_cons (name : String) (v : Value) (rest : List (String × Value)) :
    Stmt.ofFields ((name, v) :: rest) = Field.of name v :: Stmt.ofFields rest := by
  cases v <;> rfl

theorem find?_ofFields (fields : List (String × Value)) (name : String) :
    (Stmt.ofFields fields).find? name = (fields.lookup name).map (Field.of name) := by
  unfold Fields.find?
  induction fields with
  | nil => rfl
  | cons f fields ih =>
    obtain ⟨key, v⟩ := f
    have hname : (Field.of key v).name = key := rfl
    rw [ofFields_cons, List.find?_cons, List.lookup_cons, hname, ih]
    by_cases h : key = name
    · subst h
      simp
    · have hb : (name == key) = false := by simpa using Ne.symm h
      simp [h, hb]

section
variable (fields : List (String × Value)) (name : String)

@[simp] theorem optional_ofFields :
    (Stmt.ofFields fields).optional name = (fields.lookup name).getD .null := by
  rw [Fields.optional, find?_ofFields]
  cases fields.lookup name <;> rfl

@[simp] theorem required_ofFields : (Stmt.ofFields fields).required name =
    (fields.lookup name).elim (.error (.missing name)) .ok := by
  rw [Fields.required, find?_ofFields]
  cases fields.lookup name <;> rfl

@[simp] theorem statements_ofFields : (Stmt.ofFields fields).statements name =
    (fields.lookup name).elim (.error (.missing name)) fun v => (Field.of name v).statements := by
  rw [Fields.statements, find?_ofFields]
  cases fields.lookup name <;> rfl

@[simp] theorem optionalStatements_ofFields : (Stmt.ofFields fields).optionalStatements name =
    (fields.lookup name).elim (.ok none) fun v =>
      if v.isNull then .ok none else (Field.of name v).statements.map some := by
  rw [Fields.optionalStatements, find?_ofFields]
  cases fields.lookup name <;> rfl

end

@[simp] theorem statements_of_list (name : String) (items : List Value) :
    (Field.of name (.list items)).statements = Stmt.ofRecords? items := rfl

theorem toStmt_congr {fs gs : Fields} (h : ∀ name, fs.find? name = gs.find? name) :
    fs.toStmt = gs.toStmt := by
  simp only [Fields.toStmt, Fields.optional, Fields.required, Fields.statements,
    Fields.optionalStatements, Fields.values, h]

end Record

namespace Stmt

/-- The order of fields makes no difference to the statement. -/
theorem ofRecord?_perm {fields fields' : List (String × Value)} (hp : fields.Perm fields')
    (h : (fields.map Prod.fst).Nodup) : ofRecord? (.record fields) = ofRecord? (.record fields') :=
  toStmt_congr fun name => by simp [find?_ofFields, Value.lookup_perm hp h]

-- ---------------------------------------------------------------------------
-- Reading what is written
-- ---------------------------------------------------------------------------

theorem ofRecord?_record (fields : List (String × Value)) :
    ofRecord? (.record fields) = (Stmt.ofFields fields).toStmt := rfl

section
variable {items items' : List Value} {body alternate : List Stmt}

theorem ofRecord?_program (h : ofRecords? items = .ok body) :
    ofRecord? (.record [("type", "Program"), ("body", .list items)]) = .ok (.program body) := by
  simp [ofRecord?_record, Fields.toStmt, List.lookup_cons, h]

theorem ofRecord?_event (kind : Value) :
    ofRecord? (.record [("type", "Event"), ("kind", kind)]) =
      .ok (.event (.ofKind kind .null .null)) := by
  simp [ofRecord?_record, Fields.toStmt, List.lookup_cons]

theorem ofRecord?_key (name : Value) :
    ofRecord? (.record [("type", "Event"), ("kind", "key"), ("key", name)]) =
      .ok (.event (.key name)) := by
  simp [ofRecord?_record, Fields.toStmt, List.lookup_cons]
  rfl

theorem ofRecord?_backdrop (name : Value) :
    ofRecord? (.record [("type", "Event"), ("kind", "backdrop"), ("name", name)]) =
      .ok (.event (.backdrop name)) := by
  simp [ofRecord?_record, Fields.toStmt, List.lookup_cons]
  rfl

theorem ofRecord?_repeatTimes (count : Value) (h : ofRecords? items = .ok body) :
    ofRecord? (.record [("type", "Repeat"), ("count", count), ("body", .list items)]) =
      .ok (.repeatTimes count body) := by
  simp [ofRecord?_record, Fields.toStmt, List.lookup_cons, h]
  rfl

theorem ofRecord?_forever (h : ofRecords? items = .ok body) :
    ofRecord? (.record [("type", "LoopStatement"), ("body", .list items)]) =
      .ok (.forever body) := by
  simp [ofRecord?_record, Fields.toStmt, List.lookup_cons, h]

theorem ofRecord?_branch (condition : Value) (h : ofRecords? items = .ok body) :
    ofRecord? (.record [("type", "If"), ("condition", condition), ("consequent", .list items),
      ("alternate", .null)]) = .ok (.branch condition body none) := by
  simp [ofRecord?_record, Fields.toStmt, List.lookup_cons, Value.isNull, h]
  rfl

theorem ofRecord?_branchElse (condition : Value) (h : ofRecords? items = .ok body)
    (h' : ofRecords? items' = .ok alternate) :
    ofRecord? (.record [("type", "If"), ("condition", condition), ("consequent", .list items),
      ("alternate", .list items')]) = .ok (.branch condition body (some alternate)) := by
  simp [ofRecord?_record, Fields.toStmt, List.lookup_cons, Value.isNull, h, h']
  rfl

theorem ofRecord?_awaitUntil (condition : Value) :
    ofRecord? (.record [("type", "AwaitUntil"), ("condition", condition)]) =
      .ok (.awaitUntil condition) := by
  simp [ofRecord?_record, Fields.toStmt, List.lookup_cons]

theorem ofRecord?_call (name : Value) (args : List Value) :
    ofRecord? (.record [("type", "Call"), ("name", name), ("args", .list args)]) =
      .ok (.call name args .null) := by
  simp [ofRecord?_record, Fields.toStmt, Fields.values, List.lookup_cons]
  rfl

theorem ofRecord?_callFor (name duration : Value) (args : List Value) :
    ofRecord? (.record [("type", "Call"), ("name", name), ("args", .list args),
      ("for", duration)]) = .ok (.call name args duration) := by
  simp [ofRecord?_record, Fields.toStmt, Fields.values, List.lookup_cons]
  rfl

theorem ofRecord?_empty : ofRecord? (.record [("type", "Empty")]) = .ok .empty := rfl

end

mutual
theorem ofRecord?_toRecord : (s : Stmt) → ofRecord? s.toRecord = .ok s
  | .event t => by
    cases t with
    | start | click => rfl
    | key name => exact ofRecord?_key name
    | backdrop name => exact ofRecord?_backdrop name
    | unknown kind hk =>
      refine (ofRecord?_event kind).trans ?_
      simp [Trigger.ofKind, hk]
  | .repeatTimes count body => ofRecord?_repeatTimes count (ofRecords?_toRecords body)
  | .forever body => ofRecord?_forever (ofRecords?_toRecords body)
  | .branch condition consequent none => ofRecord?_branch condition (ofRecords?_toRecords consequent)
  | .branch condition consequent (some alternate) =>
    ofRecord?_branchElse condition (ofRecords?_toRecords consequent) (ofRecords?_toRecords alternate)
  | .awaitUntil condition => ofRecord?_awaitUntil condition
  | .call name args duration => by
    cases duration with
    | null => exact ofRecord?_call name args
    | _ => exact ofRecord?_callFor name _ args
  | .empty => ofRecord?_empty
  | .program body => ofRecord?_program (ofRecords?_toRecords body)
/-- Every statement is read back from its record as it was. -/
theorem ofRecords?_toRecords : (ss : List Stmt) → ofRecords? (toRecords ss) = .ok ss
  | [] => rfl
  | s :: ss => by
    rw [toRecords, ofRecords?, ofRecord?_toRecord s, ofRecords?_toRecords ss]
    rfl
end

end Stmt

-- ---------------------------------------------------------------------------
-- Canonical records
-- ---------------------------------------------------------------------------

namespace Value

mutual
/-- A record with the fields of its type and no others, in any order: a key or a name where
the kind has one, an alternate that may be null, and a duration only if it is not. -/
inductive Canonical : Value → Prop
  | program (hf : fields.Perm [("type", .text "Program"), ("body", .list items)])
      (hb : AllCanonical items) : Canonical (.record fields)
  | event (hf : fields.Perm [("type", .text "Event"), ("kind", kind)]) (hk : kind ≠ .text "key")
      (hb : kind ≠ .text "backdrop") : Canonical (.record fields)
  | key (hf : fields.Perm [("type", .text "Event"), ("kind", .text "key"), ("key", name)]) :
      Canonical (.record fields)
  | backdrop
      (hf : fields.Perm [("type", .text "Event"), ("kind", .text "backdrop"), ("name", name)]) :
      Canonical (.record fields)
  | repeatTimes
      (hf : fields.Perm [("type", .text "Repeat"), ("count", count), ("body", .list items)])
      (hb : AllCanonical items) : Canonical (.record fields)
  | forever (hf : fields.Perm [("type", .text "LoopStatement"), ("body", .list items)])
      (hb : AllCanonical items) : Canonical (.record fields)
  | branch (hf : fields.Perm [("type", .text "If"), ("condition", condition),
        ("consequent", .list items), ("alternate", .null)])
      (hb : AllCanonical items) : Canonical (.record fields)
  | branchElse (hf : fields.Perm [("type", .text "If"), ("condition", condition),
        ("consequent", .list items), ("alternate", .list items')])
      (hb : AllCanonical items) (ha : AllCanonical items') : Canonical (.record fields)
  | awaitUntil (hf : fields.Perm [("type", .text "AwaitUntil"), ("condition", condition)]) :
      Canonical (.record fields)
  | call (hf : fields.Perm [("type", .text "Call"), ("name", name), ("args", .list args)]) :
      Canonical (.record fields)
  | callFor (hf : fields.Perm [("type", .text "Call"), ("name", name), ("args", .list args),
        ("for", duration)]) (hd : duration ≠ .null) : Canonical (.record fields)
  | empty (hf : fields.Perm [("type", .text "Empty")]) : Canonical (.record fields)
inductive AllCanonical : List Value → Prop
  | nil : AllCanonical []
  | cons (h : Canonical v) (hs : AllCanonical vs) : AllCanonical (v :: vs)
end

end Value

namespace Stmt

theorem exists_toRecord (s : Stmt) : ∃ fields, s.toRecord = .record fields := by
  cases s with
  | branch _ _ alternate => cases alternate <;> exact ⟨_, rfl⟩
  | _ => exact ⟨_, rfl⟩

/-- The value is read as a statement whose record it is. -/
def WrittenAs (v : Value) : Prop := ∃ s, ofRecord? v = .ok s ∧ s.toRecord.same v = true

variable {fields fields' : List (String × Value)}

theorem WrittenAs.of_perm (hf : fields.Perm fields') (hd : (Value.record fields).Distinct)
    (h : (Value.record fields').Distinct → WrittenAs (.record fields')) :
    WrittenAs (.record fields) := by
  obtain ⟨hn, hv⟩ := hd
  have hn' : (fields'.map Prod.fst).Nodup := (hf.map Prod.fst).nodup_iff.1 hn
  have hv' : Value.FieldsDistinct fields' := by
    simp only [Value.fieldsDistinct_iff, ← hf.mem_iff] at hv ⊢
    exact hv
  obtain ⟨s, hs, hsame⟩ := h ⟨hn', hv'⟩
  obtain ⟨written, hw⟩ := s.exists_toRecord
  rw [hw] at hsame
  exact ⟨s, (ofRecord?_perm hf hn).trans hs, by rwa [hw, Value.same_record_perm hf hn]⟩

theorem fields_ofKind {kind : Value} (hk : kind ≠ .text "key") (hb : kind ≠ .text "backdrop")
    (key name : Value) : (Trigger.ofKind kind key name).fields = [("kind", kind)] := by
  unfold Trigger.ofKind
  split
  next => rfl
  next h =>
    simp only [Value.same_text_iff, hk, hb, if_false]
    split
    next hc => rw [Value.same_text_iff.1 hc]; rfl
    next hc =>
      rw [Value.same_text_iff] at hc
      obtain rfl : kind = .text "start" := by
        unfold isEventKind at h
        split at h <;> simp_all
      rfl

theorem toRecord_event (t : Trigger) :
    (Stmt.event t).toRecord = .record (("type", .text "Event") :: t.fields) := rfl

theorem toRecord_callFor (name : Value) (args : List Value) {duration : Value}
    (h : duration ≠ .null) : (Stmt.call name args duration).toRecord =
      .record [("type", .text "Call"), ("name", name), ("args", .list args), ("for", duration)] := by
  cases duration with
  | null => exact absurd rfl h
  | _ => rfl

mutual
theorem WrittenAs.of_canonical {v : Value} : v.Canonical → v.Distinct → WrittenAs v
  | .program hf hb, hd => .of_perm hf hd fun ⟨hn, _, hitems, _⟩ => by
    obtain ⟨ss, hss, hsame⟩ := writtenAs_all hb hitems
    exact ⟨_, ofRecord?_program hss,
      Value.same_record (.cons ⟨rfl, rfl⟩ (.cons ⟨rfl, hsame⟩ .nil)) hn⟩
  | .event hf hk hb, hd => .of_perm hf hd fun hd => by
    refine ⟨_, ofRecord?_event _, ?_⟩
    rw [toRecord_event, fields_ofKind hk hb]
    exact Value.same_self _ hd
  | .key hf, hd => .of_perm hf hd fun hd => ⟨_, ofRecord?_key _, Value.same_self _ hd⟩
  | .backdrop hf, hd => .of_perm hf hd fun hd => ⟨_, ofRecord?_backdrop _, Value.same_self _ hd⟩
  | .repeatTimes hf hb, hd => .of_perm hf hd fun ⟨hn, _, hcount, hitems, _⟩ => by
    obtain ⟨ss, hss, hsame⟩ := writtenAs_all hb hitems
    have hcount := Value.sameItem_self hcount
    exact ⟨_, ofRecord?_repeatTimes _ hss,
      Value.same_record (.cons ⟨rfl, rfl⟩ (.cons ⟨rfl, hcount⟩ (.cons ⟨rfl, hsame⟩ .nil))) hn⟩
  | .forever hf hb, hd => .of_perm hf hd fun ⟨hn, _, hitems, _⟩ => by
    obtain ⟨ss, hss, hsame⟩ := writtenAs_all hb hitems
    exact ⟨_, ofRecord?_forever hss,
      Value.same_record (.cons ⟨rfl, rfl⟩ (.cons ⟨rfl, hsame⟩ .nil)) hn⟩
  | .branch hf hb, hd => .of_perm hf hd fun ⟨hn, _, hcond, hitems, _⟩ => by
    obtain ⟨ss, hss, hsame⟩ := writtenAs_all hb hitems
    have hcond := Value.sameItem_self hcond
    exact ⟨_, ofRecord?_branch _ hss, Value.same_record
      (.cons ⟨rfl, rfl⟩ (.cons ⟨rfl, hcond⟩ (.cons ⟨rfl, hsame⟩ (.cons ⟨rfl, rfl⟩ .nil)))) hn⟩
  | .branchElse hf hb ha, hd => .of_perm hf hd fun ⟨hn, _, hcond, hitems, hitems', _⟩ => by
    obtain ⟨ss, hss, hsame⟩ := writtenAs_all hb hitems
    obtain ⟨ss', hss', hsame'⟩ := writtenAs_all ha hitems'
    have hcond := Value.sameItem_self hcond
    exact ⟨_, ofRecord?_branchElse _ hss hss', Value.same_record
      (.cons ⟨rfl, rfl⟩ (.cons ⟨rfl, hcond⟩ (.cons ⟨rfl, hsame⟩ (.cons ⟨rfl, hsame'⟩ .nil)))) hn⟩
  | .awaitUntil hf, hd => .of_perm hf hd fun hd => ⟨_, ofRecord?_awaitUntil _, Value.same_self _ hd⟩
  | .call hf, hd => .of_perm hf hd fun hd => ⟨_, ofRecord?_call _ _, Value.same_self _ hd⟩
  | .callFor hf hne, hd => .of_perm hf hd fun hd => by
    refine ⟨_, ofRecord?_callFor _ _ _, ?_⟩
    rw [toRecord_callFor _ _ hne]
    exact Value.same_self _ hd
  | .empty hf, hd => .of_perm hf hd fun hd => ⟨_, ofRecord?_empty, Value.same_self _ hd⟩
theorem writtenAs_all {vs : List Value} : Value.AllCanonical vs → Value.AllDistinct vs →
    ∃ ss, ofRecords? vs = .ok ss ∧ Value.sameItems (toRecords ss) vs = true
  | .nil, _ => ⟨[], rfl, rfl⟩
  | .cons h hs, hd => by
    obtain ⟨s, hr, hsame⟩ := WrittenAs.of_canonical h hd.1
    obtain ⟨ss, hrs, hsames⟩ := writtenAs_all hs hd.2
    refine ⟨s :: ss, by rw [ofRecords?, hr, hrs]; rfl, ?_⟩
    rw [toRecords, Value.sameItems_cons, Value.sameItem_of_same hsame, hsames]
    rfl
end

-- ---------------------------------------------------------------------------
-- What is read equals itself
-- ---------------------------------------------------------------------------

theorem toRecord_distinct {s : Stmt} (h : Value.FieldsDistinct s.recordFields) :
    s.toRecord.Distinct := by
  rw [toRecord_eq]
  exact ⟨s.fieldNames_nodup, trivial, h⟩

theorem fieldsDistinct_ofKind {kind key name : Value} (hk : kind.Distinct) (hkey : key.Distinct)
    (hname : name.Distinct) : Value.FieldsDistinct (Trigger.ofKind kind key name).fields := by
  unfold Trigger.ofKind
  split
  · exact ⟨hk, trivial⟩
  · split
    · exact ⟨trivial, hkey, trivial⟩
    · split
      · exact ⟨trivial, hname, trivial⟩
      · split <;> exact ⟨trivial, trivial⟩

theorem kind_ofKind (kind key name : Value) : (Trigger.ofKind kind key name).kind = kind := by
  by_cases hk : kind = .text "key"
  · rw [hk]
    rfl
  · by_cases hb : kind = .text "backdrop"
    · rw [hb]
      rfl
    · have h := fields_ofKind hk hb key name
      exact congrArg Prod.snd (List.cons.inj h).1

/-- Of an event, the key or the name counts only if the kind has one. -/
theorem ofKind_same_iff {kind kind' key key' name name' : Value} :
    (Trigger.ofKind kind key name).same (.ofKind kind' key' name') = true ↔
      kind.same kind' = true ∧ (kind = .text "key" → key.same key' = true) ∧
        (kind = .text "backdrop" → name.same name' = true) := by
  have hkind (h : (Trigger.ofKind kind key name).same (.ofKind kind' key' name') = true) :
      kind.same kind' = true := by
    have h := Trigger.same_kind h
    rwa [kind_ofKind, kind_ofKind] at h
  by_cases hk : kind = .text "key"
  · subst hk
    refine ⟨fun h => ⟨hkind h, fun _ => ?_, by simp⟩, fun ⟨h, hkey, _⟩ => ?_⟩
    · obtain rfl := Value.text_same_iff.1 (hkind h)
      exact h
    · obtain rfl := Value.text_same_iff.1 h
      exact hkey rfl
  by_cases hb : kind = .text "backdrop"
  · subst hb
    refine ⟨fun h => ⟨hkind h, by simp, fun _ => ?_⟩, fun ⟨h, _, hname⟩ => ?_⟩
    · obtain rfl := Value.text_same_iff.1 (hkind h)
      exact h
    · obtain rfl := Value.text_same_iff.1 h
      exact hname rfl
  refine ⟨fun h => ⟨hkind h, fun h => absurd h hk, fun h => absurd h hb⟩, fun ⟨h, _⟩ => ?_⟩
  have hk' : kind' ≠ .text "key" := fun he => hk (Value.same_text_iff.1 (he ▸ h))
  have hb' : kind' ≠ .text "backdrop" := fun he => hb (Value.same_text_iff.1 (he ▸ h))
  have hn : (Trigger.ofKind kind key name).holdsNaN = false := by
    rw [Trigger.holdsNaN_eq] <;> rw [kind_ofKind]
    exacts [(Value.isNaN_of_same h).1, hk, hb]
  rw [Trigger.same_eq_fields hn, fields_ofKind hk hb, fields_ofKind hk' hb',
    Value.same_record_cons (by simp), Value.sameItem_of_same h, Value.same_record_nil, Bool.and_self]

/-- No name is repeated in the values of the fields, nor in the statements that they give. -/
structure ReadDistinct (fields : List (String × Value)) : Prop where
  value : ∀ f ∈ fields, f.2.Distinct
  statements : ∀ f ∈ fields, ∀ name ss, (Field.of name f.2).statements = .ok ss →
    Value.AllDistinct (toRecords ss)

namespace ReadDistinct

variable {name : String} {v : Value} {vs : List Value} {ss : List Stmt} (hf : ReadDistinct fields)
include hf

theorem optional (name : String) : ((ofFields fields).optional name).Distinct := by
  rw [optional_ofFields]
  cases h : fields.lookup name with
  | none => trivial
  | some v => exact hf.value _ (Value.mem_of_lookup h)

theorem required (h : (ofFields fields).required name = .ok v) : v.Distinct := by
  rw [required_ofFields] at h
  cases hl : fields.lookup name with
  | none => simp [hl] at h
  | some w =>
    obtain rfl : w = v := by simpa [hl] using h
    exact hf.value _ (Value.mem_of_lookup hl)

theorem ofStatements (h : (ofFields fields).statements name = .ok ss) :
    Value.AllDistinct (toRecords ss) := by
  rw [statements_ofFields] at h
  cases hl : fields.lookup name with
  | none => simp [hl] at h
  | some w =>
    exact hf.statements _ (Value.mem_of_lookup hl) name ss (by simpa [hl] using h)

theorem ofOptionalStatements (h : (ofFields fields).optionalStatements name = .ok (some ss)) :
    Value.AllDistinct (toRecords ss) := by
  rw [optionalStatements_ofFields] at h
  cases hl : fields.lookup name with
  | none => simp [hl] at h
  | some w =>
    rw [hl, Option.elim_some] at h
    split at h
    · cases h
    · cases hs : (Field.of name w).statements with
      | error => simp [hs, Except.map] at h
      | ok ss' =>
        obtain rfl : ss' = ss := by simpa [hs, Except.map] using h
        exact hf.statements _ (Value.mem_of_lookup hl) name ss' hs

theorem values (h : (ofFields fields).values name = .ok vs) : Value.AllDistinct vs := by
  obtain ⟨v, hv, h⟩ := bind_eq_ok h
  have hd := hf.required hv
  split at h
  · cases h
    exact hd
  · cases h
    exact Value.allDistinct_texts _ _
  · cases h
    exact Value.allDistinct_texts _ _
  · cases h

theorem toStmt {s : Stmt} (h : (ofFields fields).toStmt = .ok s) : s.toRecord.Distinct := by
  apply toRecord_distinct
  unfold Fields.toStmt at h
  split at h
  · obtain ⟨body, hbody, h⟩ := bind_eq_ok h
    cases h
    exact ⟨hf.ofStatements hbody, trivial⟩
  · obtain ⟨kind, hkind, h⟩ := bind_eq_ok h
    cases h
    exact fieldsDistinct_ofKind (hf.required hkind) (hf.optional "key") (hf.optional "name")
  · obtain ⟨count, hcount, h⟩ := bind_eq_ok h
    obtain ⟨body, hbody, h⟩ := bind_eq_ok h
    cases h
    exact ⟨hf.required hcount, hf.ofStatements hbody, trivial⟩
  · obtain ⟨body, hbody, h⟩ := bind_eq_ok h
    cases h
    exact ⟨hf.ofStatements hbody, trivial⟩
  · obtain ⟨alternate, halternate, h⟩ := bind_eq_ok h
    obtain ⟨condition, hcondition, h⟩ := bind_eq_ok h
    obtain ⟨consequent, hconsequent, h⟩ := bind_eq_ok h
    cases h
    have hc := hf.required hcondition
    have hs := hf.ofStatements hconsequent
    cases alternate with
    | none => exact ⟨hc, hs, trivial, trivial⟩
    | some alternate => exact ⟨hc, hs, hf.ofOptionalStatements halternate, trivial⟩
  · obtain ⟨condition, hcondition, h⟩ := bind_eq_ok h
    cases h
    exact ⟨hf.required hcondition, trivial⟩
  · obtain ⟨name, hname, h⟩ := bind_eq_ok h
    obtain ⟨args, hargs, h⟩ := bind_eq_ok h
    cases h
    refine ⟨hf.required hname, hf.values hargs, ?_⟩
    split
    · trivial
    · exact ⟨hf.optional "for", trivial⟩
  · cases h
    trivial
  · cases h

end ReadDistinct

theorem statements_of_eq_ok {name : String} {v : Value} {ss : List Stmt}
    (h : (Field.of name v).statements = .ok ss) :
    ss = [] ∨ ∃ items, v = .list items ∧ ofRecords? items = .ok ss := by
  cases v with
  | list items => exact .inr ⟨items, rfl, h⟩
  | text s =>
    simp only [Field.of, noStatements] at h
    split at h <;> cases h
    exact .inl rfl
  | record fields =>
    simp only [Field.of, noStatements] at h
    split at h <;> cases h
    exact .inl rfl
  | _ => cases h

mutual
/-- What is read from a record without repeated names has one again. -/
theorem distinct_of_ofRecord? : (v : Value) → v.Distinct → ∀ s, ofRecord? v = .ok s →
    s.toRecord.Distinct
  | .record fields, hd, _, h => by
    -- A field that is no list gives no statements at all.
    refine ReadDistinct.toStmt ⟨Value.fieldsDistinct_iff.1 hd.2, fun f hf name ss hs => ?_⟩ h
    obtain rfl | ⟨items, hv, hss⟩ := statements_of_eq_ok hs
    · trivial
    · exact allDistinct_of_field fields hd.2 f hf items hv ss hss
  | .null, _, _, h | .flag _, _, _, h | .number _, _, _, h | .text _, _, _, h | .list _, _, _, h => by
    cases h
theorem allDistinct_of_ofRecords? : (vs : List Value) → Value.AllDistinct vs →
    ∀ ss, ofRecords? vs = .ok ss → Value.AllDistinct (toRecords ss)
  | [], _, _, h => by
    cases h
    trivial
  | v :: vs, hd, _, h => by
    obtain ⟨s, hs, h⟩ := bind_eq_ok h
    obtain ⟨ss, hss, h⟩ := bind_eq_ok h
    cases h
    exact ⟨distinct_of_ofRecord? v hd.1 s hs, allDistinct_of_ofRecords? vs hd.2 ss hss⟩
theorem allDistinct_of_field : (fields : List (String × Value)) → Value.FieldsDistinct fields →
    ∀ f ∈ fields, ∀ items, f.2 = .list items → ∀ ss, ofRecords? items = .ok ss →
      Value.AllDistinct (toRecords ss)
  | [], _ => nofun
  | (_, .list items) :: rest, hd => by
    refine List.forall_mem_cons.2 ⟨?_, allDistinct_of_field rest hd.2⟩
    rintro _ ⟨⟩
    exact allDistinct_of_ofRecords? items hd.1
  | (_, .null) :: rest, hd | (_, .flag _) :: rest, hd | (_, .number _) :: rest, hd
  | (_, .text _) :: rest, hd | (_, .record _) :: rest, hd =>
    List.forall_mem_cons.2 ⟨nofun, allDistinct_of_field rest hd.2⟩
end

end Stmt

-- ---------------------------------------------------------------------------
-- Programs
-- ---------------------------------------------------------------------------

namespace Program

theorem ofRecord?_toRecord (p : Program) : ofRecord? p.toRecord = .ok p := by
  rw [ofRecord?, toRecord, Stmt.ofRecord?_toRecord]
  rfl

theorem stmt_of_ofRecord? {d : Value} {t : Program} (h : ofRecord? d = .ok t) :
    Stmt.ofRecord? d = .ok t.toStmt := by
  obtain ⟨s, hs, h⟩ := bind_eq_ok h
  split at h <;> cases h
  exact hs

theorem same_self_of_ofRecord? {d : Value} {t : Program} (hd : d.Distinct)
    (h : ofRecord? d = .ok t) : t.same t = !t.holdsNaN :=
  same_self (Stmt.distinct_of_ofRecord? d hd t.toStmt (stmt_of_ofRecord? h))

/-- Every program is read back from its record as it was. What is read from a record equals
itself unless a field is NaN, and has that record again if it is a canonical one. -/
theorem record_lossless :
    (∀ p : Program, ofRecord? p.toRecord = .ok p) ∧
    ∀ (d : Value) (t : Program), d.Distinct → ofRecord? d = .ok t →
      (∃ u, ofRecord? t.toRecord = .ok u ∧ (u.same t = true ↔ t.holdsNaN = false) ∧
        u.toRecord = t.toRecord) ∧
      (d.Canonical → t.toRecord.same d = true) := by
  refine ⟨ofRecord?_toRecord, fun d t hd h => ⟨⟨t, ofRecord?_toRecord t, ?_, rfl⟩, fun hc => ?_⟩⟩
  · rw [same_self_of_ofRecord? hd h, Bool.not_eq_true']
  · obtain ⟨s, hs, hsame⟩ := Stmt.WrittenAs.of_canonical hc hd
    obtain rfl : s = t.toStmt := Except.ok.inj (hs.symm.trans (stmt_of_ofRecord? h))
    exact hsame

end Program

def pauseRecord : Value :=
  .record [("body", .list [.record [("condition", "x"), ("type", "AwaitUntil")],
    .record [("type", "Empty")]]), ("type", "Program")]

theorem pauseRecord_lossless : pauseRecord.Distinct ∧ pauseRecord.Canonical ∧
    Program.ofRecord? pauseRecord = .ok ⟨[.awaitUntil "x", .empty]⟩ ∧
    (Program.same ⟨[.awaitUntil "x", .empty]⟩ ⟨[.awaitUntil "x", .empty]⟩ = true) ∧
    (Program.toRecord ⟨[.awaitUntil "x", .empty]⟩).same pauseRecord = true := by
  have hd : pauseRecord.Distinct := by
    simp [pauseRecord, Value.Distinct, Value.AllDistinct, Value.FieldsDistinct]
  have hc : pauseRecord.Canonical :=
    .program (.swap _ _ _) (.cons (.awaitUntil (.swap _ _ _)) (.cons (.empty (.refl _)) .nil))
  have h : Program.ofRecord? pauseRecord = .ok ⟨[.awaitUntil "x", .empty]⟩ := rfl
  obtain ⟨⟨u, hu, hsame, -⟩, hcanonical⟩ := Program.record_lossless.2 _ _ hd h
  obtain rfl := Except.ok.inj hu
  exact ⟨hd, hc, h, hsame.2 rfl, hcanonical hc⟩

/-- A loop of NaN turns, which is read again but does not equal itself. -/
def endlessRecord : Value :=
  .record [("type", "Program"), ("body", .list [
    .record [("type", "Repeat"), ("count", .number (.nan 0)), ("body", .list [])]])]

theorem endlessRecord_not_same : endlessRecord.Distinct ∧
    ∃ t u, Program.ofRecord? endlessRecord = .ok t ∧ Program.ofRecord? t.toRecord = .ok u ∧
      u.same t = false := by
  refine ⟨?_, ⟨[.repeatTimes (.number (.nan 0)) []]⟩, _, rfl, rfl, rfl⟩
  simp [endlessRecord, Value.Distinct, Value.AllDistinct, Value.FieldsDistinct]

end Lia
