import Lia.Number
import Lia.Text.Quoted

/-!
# Plain values

The one kind of dynamic data: what tokens and statements carry, what program
records are made of, and what a project document holds. `Value.same` compares
numbers as numbers, flags with them, and records by their fields in any order.
A token of a source has a text, a number or nothing for its value; lists and
records come from program records only.
-/

namespace Lia

inductive Value
  | null
  | flag (value : Bool)
  | number (value : Number)
  | text (value : String)
  | list (items : List Value)
  | record (fields : List (String × Value))
  deriving Inhabited

namespace Value

instance (n : Nat) : OfNat Value n := ⟨.number (.int n)⟩

instance : Coe String Value := ⟨.text⟩

def int (n : Int) : Value := .number (.int n)

def isNull : Value → Bool
  | .null => true
  | _ => false

/-- NaN, the one value that does not equal itself. -/
def isNaN : Value → Bool
  | .number n => n.isNaN
  | _ => false

/-- A value that can be looked up in a table. Lists and records cannot, not even in
vain. -/
def isHashable : Value → Bool
  | .list _ | .record _ => false
  | _ => true

/-- The first field of the name. -/
def get? : Value → String → Option Value
  | .record fields, key => fields.lookup key
  | _, _ => none

-- ---------------------------------------------------------------------------
-- Equality
-- ---------------------------------------------------------------------------

/-- One and the same NaN. Other values that are one object are equal anyway. -/
def identical : Value → Value → Bool
  | .number (.nan a), .number (.nan b) => a == b
  | _, _ => false

mutual
def same : Value → Value → Bool
  | .null, .null => true
  | .flag a, .flag b => a == b
  | .flag a, .number b => (Number.ofFlag a).same b
  | .number a, .flag b => a.same (.ofFlag b)
  | .number a, .number b => a.same b
  | .text a, .text b => a == b
  | .list as, .list bs => sameItems as bs
  | .record as, .record bs => as.length == bs.length && sameFields as bs
  | _, _ => false
termination_by structural a => a
/-- An item need not be equal if it is the same object. -/
def sameItems : List Value → List Value → Bool
  | [], [] => true
  | a :: as, b :: bs => (a.identical b || a.same b) && sameItems as bs
  | _, _ => false
termination_by structural as => as
/-- Every field on the left has an equal one on the right, or one with the same object. -/
def sameFields : List (String × Value) → List (String × Value) → Bool
  | [], _ => true
  | (key, a) :: as, bs =>
    (match bs.lookup key with
      | some b => a.identical b || a.same b
      | none => false) && sameFields as bs
termination_by structural as => as
end

instance : BEq Value := ⟨same⟩

/-- How items and fields are compared. -/
def sameItem (v w : Value) : Bool := v.identical w || v.same w

/-- Nothing but the text itself equals a text. -/
theorem same_text_iff {v : Value} {s : String} : v.same (.text s) = true ↔ v = .text s := by
  cases v <;> simp [same]

-- ---------------------------------------------------------------------------
-- Records
-- ---------------------------------------------------------------------------

/-- Sets a field: in its place if there is one of the name, else at the end. -/
def setField (key : String) (value : Value) : List (String × Value) → List (String × Value)
  | [] => [(key, value)]
  | (k, v) :: rest => if k = key then (k, value) :: rest else (k, v) :: setField key value rest

/-- A record from fields in order; the last of two fields of a name wins, in the
place of the first. -/
def ofFields (fields : List (String × Value)) : Value :=
  .record (fields.foldl (fun done f => setField f.1 f.2 done) [])

theorem setField_of_not_mem {key : String} {v : Value} {fields : List (String × Value)}
    (h : key ∉ fields.map Prod.fst) : setField key v fields = fields ++ [(key, v)] := by
  induction fields with
  | nil => rfl
  | cons f fields ih =>
    simp only [List.map_cons, List.mem_cons, not_or] at h
    rw [setField, if_neg (Ne.symm h.1), ih h.2]
    rfl

/-- Fields with names of their own stand as they are. -/
theorem ofFields_of_nodup {fields : List (String × Value)} (h : (fields.map Prod.fst).Nodup) :
    ofFields fields = .record fields := by
  suffices ∀ done : List (String × Value), ((done ++ fields).map Prod.fst).Nodup →
      fields.foldl (fun done f => setField f.1 f.2 done) done = done ++ fields by
    rw [ofFields, this [] h, List.nil_append]
  intro done hd
  induction fields generalizing done with
  | nil => simp
  | cons f fields ih =>
    have hf : f.1 ∉ done.map Prod.fst := by
      rw [List.map_append, List.nodup_append] at hd
      intro hm
      exact hd.2.2 _ hm f.1 (by simp) rfl
    rw [List.foldl_cons, setField_of_not_mem hf, ih (List.nodup_cons.1 h).2 _ (by simpa using hd)]
    simp

-- ---------------------------------------------------------------------------
-- How messages show a value
-- ---------------------------------------------------------------------------

mutual
/-- Text in quotes, everything else in its usual spelling. -/
def literal : Value → String
  | .null => "None"
  | .flag true => "True"
  | .flag false => "False"
  | .number n => n.text
  | .text s => Text.quoted s
  | .list items => "[" ++ ", ".intercalate (literals items) ++ "]"
  | .record fields => "\x7b" ++ ", ".intercalate (fieldLiterals fields) ++ "\x7d"
termination_by structural v => v
def literals : List Value → List String
  | [] => []
  | v :: vs => v.literal :: literals vs
termination_by structural vs => vs
def fieldLiterals : List (String × Value) → List String
  | [] => []
  | (key, v) :: rest => (Text.quoted key ++ ": " ++ v.literal) :: fieldLiterals rest
termination_by structural fields => fields
end

/-- As `literal`, but a text value stands as it is. -/
def display : Value → String
  | .text s => s
  | v => v.literal

end Value

end Lia
