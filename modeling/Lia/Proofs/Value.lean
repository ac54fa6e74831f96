import Mathlib.Data.List.Nodup
import Mathlib.Data.List.Perm.Subperm
import Lia.Value

/-!
# Records without repeated names

A value is `Distinct` if no record in it has two fields of a name. Then the order of the fields
of a record makes no difference to what is found under a name (`Value.lookup_perm`), and
equality is an equivalence (`Value.same_self`, `Value.same_symm`, `Value.same_trans`), where a
NaN equals itself as an item of a list or a field of a record only.
-/

namespace Lia.Value

mutual
def Distinct : Value → Prop
  | .list items => AllDistinct items
  | .record fields => (fields.map Prod.fst).Nodup ∧ FieldsDistinct fields
  | _ => True
termination_by structural v => v
def AllDistinct : List Value → Prop
  | [] => True
  | v :: vs => v.Distinct ∧ AllDistinct vs
termination_by structural vs => vs
def FieldsDistinct : List (String × Value) → Prop
  | [] => True
  | (_, v) :: rest => v.Distinct ∧ FieldsDistinct rest
termination_by structural fields => fields
end

theorem allDistinct_texts {α : Type} (f : α → String) (as : List α) :
    AllDistinct (as.map fun a => .text (f a)) := by
  induction as with
  | nil => trivial
  | cons a as ih => exact ⟨trivial, ih⟩

theorem fieldsDistinct_iff {fields : List (String × Value)} :
    FieldsDistinct fields ↔ ∀ f ∈ fields, f.2.Distinct := by
  induction fields with
  | nil => simp [FieldsDistinct]
  | cons f fields ih => simp [FieldsDistinct, ih]

-- ---------------------------------------------------------------------------
-- Looking up
-- ---------------------------------------------------------------------------

section
variable {α : Type} {fields fields' : List (String × α)} {key : String} {v : α}

theorem mem_of_lookup (h : fields.lookup key = some v) : (key, v) ∈ fields := by
  obtain ⟨before, after, rfl, -⟩ := List.lookup_eq_some_iff.1 h
  simp

theorem lookup_eq_some_iff_mem (h : (fields.map Prod.fst).Nodup) :
    fields.lookup key = some v ↔ (key, v) ∈ fields := by
  refine ⟨mem_of_lookup, fun hm => ?_⟩
  obtain ⟨before, after, rfl⟩ := List.append_of_mem hm
  refine List.lookup_eq_some_iff.2 ⟨before, after, rfl, fun f hf => ?_⟩
  rw [bne_iff_ne]
  rintro rfl
  simp only [List.map_append, List.map_cons, List.nodup_append] at h
  exact h.2.2 f.1 (List.mem_map_of_mem hf) f.1 (by simp) rfl

theorem lookup_perm (hp : fields.Perm fields') (h : (fields.map Prod.fst).Nodup) (key : String) :
    fields.lookup key = fields'.lookup key := by
  have h' : (fields'.map Prod.fst).Nodup := (hp.map Prod.fst).nodup_iff.1 h
  ext v
  rw [lookup_eq_some_iff_mem h, lookup_eq_some_iff_mem h', hp.mem_iff]

end

-- ---------------------------------------------------------------------------
-- Numbers and flags
-- ---------------------------------------------------------------------------

/-- The number that a value is or counts as. -/
def number? : Value → Option Number
  | .flag b => some (.ofFlag b)
  | .number n => some n
  | _ => none

theorem same_iff_of_number {v w : Value} {n : Number} (h : v.number? = some n) :
    v.same w = true ↔ ∃ m, w.number? = some m ∧ n.same m = true := by
  cases v with
  | flag | number =>
    obtain rfl := Option.some.inj h
    cases w <;> simp [same, number?, Number.ofFlag_same_ofFlag]
  | _ => cases h

theorem same_symm_of_number {v w : Value} {n : Number} (hn : v.number? = some n)
    (h : v.same w = true) : w.same v = true := by
  obtain ⟨m, hm, hs⟩ := (same_iff_of_number hn).1 h
  exact (same_iff_of_number hm).2 ⟨n, hn, Number.same_symm hs⟩

theorem same_trans_of_number {u v w : Value} {n : Number} (hn : u.number? = some n)
    (h : u.same v = true) (h' : v.same w = true) : u.same w = true := by
  obtain ⟨m, hm, hs⟩ := (same_iff_of_number hn).1 h
  obtain ⟨l, hl, hs'⟩ := (same_iff_of_number hm).1 h'
  exact (same_iff_of_number hn).2 ⟨l, hl, Number.same_trans hs hs'⟩

/-- A NaN equals nothing. -/
theorem isNaN_of_same {v w : Value} (h : v.same w = true) : v.isNaN = false ∧ w.isNaN = false := by
  have hleft {v w : Value} (h : v.same w = true) : v.isNaN = false := by
    cases v with
    | number n =>
      obtain ⟨m, -, hs⟩ := (same_iff_of_number rfl).1 h
      exact (Number.same_iff.1 hs).1
    | _ => rfl
  refine ⟨hleft h, ?_⟩
  cases w with
  | number m =>
    cases v with
    | flag | number => exact hleft (same_symm_of_number rfl h)
    | _ => cases h
  | _ => rfl

-- ---------------------------------------------------------------------------
-- Items
-- ---------------------------------------------------------------------------

theorem identical_iff {v w : Value} : v.identical w = true ↔ v = w ∧ v.isNaN = true := by
  cases v with
  | number n =>
    cases n with
    | nan a =>
      cases w with
      | number m => cases m <;> simp [identical, isNaN]
      | _ => simp [identical]
    | _ => simp [identical, isNaN]
  | _ => simp [identical, isNaN]

theorem sameItem_iff {v w : Value} :
    v.sameItem w = true ↔ v = w ∧ v.isNaN = true ∨ v.same w = true := by
  rw [sameItem, Bool.or_eq_true, identical_iff]

theorem sameItem_eq_same {v : Value} (h : v.isNaN = false) (w : Value) :
    v.sameItem w = v.same w := by
  rw [Bool.eq_iff_iff, sameItem_iff, h]
  simp

theorem sameItem_eq_same_right {w : Value} (h : w.isNaN = false) (v : Value) :
    v.sameItem w = v.same w := by
  rw [Bool.eq_iff_iff, sameItem_iff, or_iff_right]
  rintro ⟨rfl, hn⟩
  rw [h] at hn
  cases hn

theorem sameItem_of_same {v w : Value} (h : v.same w = true) : v.sameItem w = true :=
  sameItem_iff.2 (.inr h)

/-- An item is found again, a NaN among them. -/
theorem sameItem_self_of_same {v : Value} (h : v.same v = !v.isNaN) : v.sameItem v = true := by
  rw [sameItem_iff, h]
  simp

theorem sameItem_symm {v w : Value} (ih : v.same w = true → w.same v = true)
    (h : v.sameItem w = true) : w.sameItem v = true := by
  obtain ⟨rfl, hn⟩ | h := sameItem_iff.1 h
  · exact sameItem_iff.2 (.inl ⟨rfl, hn⟩)
  · exact sameItem_of_same (ih h)

theorem sameItem_trans {u v w : Value} (ih : u.same v = true → v.same w = true → u.same w = true)
    (h : u.sameItem v = true) (h' : v.sameItem w = true) : u.sameItem w = true := by
  obtain ⟨rfl, -⟩ | h := sameItem_iff.1 h
  · exact h'
  · obtain ⟨rfl, -⟩ | h' := sameItem_iff.1 h'
    · exact sameItem_of_same h
    · exact sameItem_of_same (ih h h')

@[simp] theorem sameItems_cons (a b : Value) (as bs : List Value) :
    sameItems (a :: as) (b :: bs) = (a.sameItem b && sameItems as bs) := rfl

@[simp] theorem sameFields_cons (f : String × Value) (as bs : List (String × Value)) :
    sameFields (f :: as) bs =
      ((bs.lookup f.1).elim false f.2.sameItem && sameFields as bs) := by
  rw [sameFields]
  cases bs.lookup f.1 <;> rfl

-- ---------------------------------------------------------------------------
-- Equality
-- ---------------------------------------------------------------------------

theorem sameFields_congr {bs bs' : List (String × Value)} (h : ∀ key, bs.lookup key = bs'.lookup key)
    (as : List (String × Value)) : sameFields as bs = sameFields as bs' := by
  induction as with
  | nil => rfl
  | cons a as ih => simp [h, ih]

theorem same_record_perm {bs bs' : List (String × Value)} (hp : bs.Perm bs')
    (h : (bs.map Prod.fst).Nodup) (as : List (String × Value)) :
    (Value.record as).same (.record bs) = (Value.record as).same (.record bs') := by
  simp [same, hp.length_eq, sameFields_congr (lookup_perm hp h)]

def SameField (a b : String × Value) : Prop := a.1 = b.1 ∧ a.2.sameItem b.2 = true

theorem same_record {as bs : List (String × Value)} (h : List.Forall₂ SameField as bs)
    (hn : (bs.map Prod.fst).Nodup) : (Value.record as).same (.record bs) = true := by
  suffices hs : ∀ all : List (String × Value), (∀ b ∈ bs, all.lookup b.1 = some b.2) →
      sameFields as all = true by
    simpa [same, h.length_eq] using hs bs fun b hb => (lookup_eq_some_iff_mem hn).2 hb
  intro all hall
  clear hn
  induction h with
  | nil => rfl
  | @cons a b as bs hab _ ih =>
    obtain ⟨hb, hbs⟩ := List.forall_mem_cons.1 hall
    obtain ⟨hname, hv⟩ := hab
    simp [hname, hb, hv, ih hbs]

mutual
theorem same_self : (v : Value) → v.Distinct → v.same v = !v.isNaN
  | .null, _ => rfl
  | .flag _, _ | .text _, _ => by simp [same, isNaN]
  | .number n, _ => n.same_self
  | .list items, h => sameItems_self items h
  | .record fields, h => same_record (sameField_self fields h.2) h.1
theorem sameItems_self : (vs : List Value) → AllDistinct vs → sameItems vs vs = true
  | [], _ => rfl
  | v :: vs, h => by
    rw [sameItems_cons, sameItem_self_of_same (same_self v h.1), sameItems_self vs h.2]
    rfl
theorem sameField_self : (fields : List (String × Value)) → FieldsDistinct fields →
    List.Forall₂ SameField fields fields
  | [], _ => .nil
  | (_, v) :: rest, h =>
    .cons ⟨rfl, sameItem_self_of_same (same_self v h.1)⟩ (sameField_self rest h.2)
end

theorem sameItem_self {v : Value} (h : v.Distinct) : v.sameItem v = true :=
  sameItem_self_of_same (same_self v h)

-- ---------------------------------------------------------------------------
-- Equality from right to left, and in a row
-- ---------------------------------------------------------------------------

theorem sameFields_iff {as bs : List (String × Value)} : sameFields as bs = true ↔
    ∀ f ∈ as, ∃ b, bs.lookup f.1 = some b ∧ f.2.sameItem b = true := by
  induction as with
  | nil => simp [sameFields]
  | cons f as ih =>
    rw [sameFields_cons, Bool.and_eq_true, ih, List.forall_mem_cons]
    cases bs.lookup f.1 <;> simp

theorem same_record_symm {as bs : List (String × Value)} (ha : (as.map Prod.fst).Nodup)
    (hb : (bs.map Prod.fst).Nodup)
    (ih : ∀ f ∈ as, ∀ g ∈ bs, f.2.same g.2 = true → g.2.same f.2 = true)
    (h : (Value.record as).same (.record bs) = true) :
    (Value.record bs).same (.record as) = true := by
  simp only [same, Bool.and_eq_true, beq_iff_eq, sameFields_iff] at h ⊢
  obtain ⟨hl, hs⟩ := h
  have hnames : as.map Prod.fst ⊆ bs.map Prod.fst := by
    intro key hkey
    obtain ⟨f, hf, rfl⟩ := List.mem_map.1 hkey
    obtain ⟨b, hb, -⟩ := hs f hf
    exact List.mem_map.2 ⟨_, mem_of_lookup hb, rfl⟩
  -- As many names, and no name twice, so each on the right stands on the left as well.
  have hperm : (as.map Prod.fst).Perm (bs.map Prod.fst) :=
    (ha.subperm hnames).perm_of_length_le (by simp [hl])
  refine ⟨hl.symm, fun g hg => ?_⟩
  obtain ⟨f, hf, hname⟩ := List.mem_map.1 (hperm.symm.subset (List.mem_map_of_mem hg))
  obtain ⟨b, hb', hsame⟩ := hs f hf
  obtain rfl : b = g.2 := by
    rw [hname, (lookup_eq_some_iff_mem hb).2 hg] at hb'
    exact (Option.some.inj hb').symm
  exact ⟨f.2, (lookup_eq_some_iff_mem ha).2 (hname ▸ hf), sameItem_symm (ih f hf g hg) hsame⟩

theorem same_record_trans {as bs cs : List (String × Value)}
    (ih : ∀ f ∈ as, ∀ v w, f.2.same v = true → v.same w = true → f.2.same w = true)
    (h : (Value.record as).same (.record bs) = true)
    (h' : (Value.record bs).same (.record cs) = true) :
    (Value.record as).same (.record cs) = true := by
  simp only [same, Bool.and_eq_true, beq_iff_eq, sameFields_iff] at h h' ⊢
  refine ⟨h.1.trans h'.1, fun f hf => ?_⟩
  obtain ⟨b, hb, hfb⟩ := h.2 f hf
  obtain ⟨c, hc, hbc⟩ := h'.2 _ (mem_of_lookup hb)
  exact ⟨c, hc, sameItem_trans (ih f hf b c) hfb hbc⟩

mutual
theorem same_symm : (v : Value) → v.Distinct → ∀ w, w.Distinct → v.same w = true → w.same v = true
  | .null, _, w, _, h => by
    cases w with
    | null => rfl
    | _ => cases h
  | .flag a, _, w, _, h => same_symm_of_number rfl h
  | .number a, _, w, _, h => same_symm_of_number rfl h
  | .text a, _, w, _, h => by
    cases w with
    | text b => exact beq_iff_eq.2 (beq_iff_eq.1 h).symm
    | _ => cases h
  | .list as, hd, w, hd', h => by
    cases w with
    | list bs => exact sameItems_symm as hd bs hd' h
    | _ => cases h
  | .record as, hd, w, hd', h => by
    cases w with
    | record bs =>
      exact same_record_symm hd.1 hd'.1 (fun f hf g hg => same_symm_field as hd.2 f hf g.2
        (fieldsDistinct_iff.1 hd'.2 g hg)) h
    | _ => cases h
theorem sameItems_symm : (as : List Value) → AllDistinct as → ∀ bs, AllDistinct bs →
    sameItems as bs = true → sameItems bs as = true
  | [], _, bs, _, h => by
    cases bs with
    | nil => rfl
    | cons => cases h
  | a :: as, hd, bs, hd', h => by
    cases bs with
    | nil => cases h
    | cons b bs =>
      obtain ⟨hab, hs⟩ := Bool.and_eq_true_iff.1 h
      exact Bool.and_eq_true_iff.2
        ⟨sameItem_symm (same_symm a hd.1 b hd'.1) hab, sameItems_symm as hd.2 bs hd'.2 hs⟩
theorem same_symm_field : (fields : List (String × Value)) → FieldsDistinct fields →
    ∀ f ∈ fields, ∀ w : Value, w.Distinct → f.2.same w = true → w.same f.2 = true
  | [], _ => nofun
  | (_, v) :: rest, hd => List.forall_mem_cons.2 ⟨same_symm v hd.1, same_symm_field rest hd.2⟩
end

mutual
theorem same_trans : (u : Value) → ∀ v w, u.same v = true → v.same w = true → u.same w = true
  | .null, v, w, h, h' => by
    cases v with
    | null => exact h'
    | _ => cases h
  | .flag a, v, w, h, h' => same_trans_of_number rfl h h'
  | .number a, v, w, h, h' => same_trans_of_number rfl h h'
  | .text a, v, w, h, h' => by
    cases v with
    | text b =>
      obtain rfl : a = b := beq_iff_eq.1 h
      exact h'
    | _ => cases h
  | .list as, v, w, h, h' => by
    cases v with
    | list bs =>
      cases w with
      | list cs => exact sameItems_trans as bs cs h h'
      | _ => cases h'
    | _ => cases h
  | .record as, v, w, h, h' => by
    cases v with
    | record bs =>
      cases w with
      | record cs => exact same_record_trans (same_trans_field as) h h'
      | _ => cases h'
    | _ => cases h
theorem sameItems_trans : (as bs cs : List Value) →
    sameItems as bs = true → sameItems bs cs = true → sameItems as cs = true
  | [], bs, cs, h, h' => by
    cases bs with
    | nil => exact h'
    | cons => cases h
  | a :: as, bs, cs, h, h' => by
    cases bs with
    | nil => cases h
    | cons b bs =>
      cases cs with
      | nil => cases h'
      | cons c cs =>
        obtain ⟨hab, hs⟩ := Bool.and_eq_true_iff.1 h
        obtain ⟨hbc, hs'⟩ := Bool.and_eq_true_iff.1 h'
        exact Bool.and_eq_true_iff.2
          ⟨sameItem_trans (same_trans a b c) hab hbc, sameItems_trans as bs cs hs hs'⟩
theorem same_trans_field : (fields : List (String × Value)) →
    ∀ f ∈ fields, ∀ v w, f.2.same v = true → v.same w = true → f.2.same w = true
  | [] => nofun
  | (_, v) :: rest => List.forall_mem_cons.2 ⟨same_trans v, same_trans_field rest⟩
end

end Lia.Value
