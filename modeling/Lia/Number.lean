import Lia.Number.Decimal

/-!
# Numbers

A number is an integer of any size or a binary64 number, which may be NaN. The kinds
print differently and compare as exact numbers: `1` equals `1.0`, and 10^23 does not
equal the binary64 number nearest to it. A NaN equals nothing. Main statement: the
comparison is an equivalence but for NaN (`Number.same_self`, `Number.same_symm`,
`Number.same_trans`).
-/

namespace Lia

inductive Number
  | int (value : Int)
  | float (value : Binary64)
  /-- Which object it is makes no difference to what it says, but a list finds an
  item again by it. -/
  | nan (object : Nat)
  deriving DecidableEq

namespace Number

instance : Inhabited Number := ⟨.int 0⟩

instance (n : Nat) : OfNat Number n := ⟨.int n⟩

def magnitude? : Number → Option Magnitude
  | .int value => some (.finite (value * Binary64.unitsPerOne))
  | .float value => some value.magnitude
  | .nan _ => none

def isNaN (n : Number) : Bool := n.magnitude?.isNone

@[simp] theorem isNaN_int (value : Int) : (int value).isNaN = false := rfl

@[simp] theorem isNaN_float (value : Binary64) : (float value).isNaN = false := rfl

@[simp] theorem isNaN_nan (object : Nat) : (nan object).isNaN = true := rfl

/-- Equal as numbers, whatever the kinds. -/
def same (a b : Number) : Bool :=
  match a.magnitude?, b.magnitude? with
  | some x, some y => decide (x = y)
  | _, _ => false

theorem same_iff {a b : Number} :
    a.same b = true ↔ a.isNaN = false ∧ a.magnitude? = b.magnitude? := by
  unfold same isNaN
  cases a.magnitude? <;> cases b.magnitude? <;> simp

/-- Everything but a NaN equals itself. -/
@[simp] theorem same_self (a : Number) : a.same a = !a.isNaN := by
  rw [Bool.eq_iff_iff, same_iff]
  simp

theorem same_symm {a b : Number} (h : a.same b = true) : b.same a = true := by
  rw [same_iff] at h ⊢
  exact ⟨by rw [isNaN, ← h.2]; exact h.1, h.2.symm⟩

theorem same_trans {a b c : Number} (h : a.same b = true) (h' : b.same c = true) :
    a.same c = true :=
  same_iff.2 ⟨(same_iff.1 h).1, (same_iff.1 h).2.trans (same_iff.1 h').2⟩

/-- The number that a flag counts as. -/
def ofFlag : Bool → Number
  | false => 0
  | true => 1

@[simp] theorem isNaN_ofFlag (b : Bool) : (ofFlag b).isNaN = false := by cases b <;> rfl

theorem int_same_int (a b : Int) : (int a).same (.int b) = (a == b) := by
  have hone : (Binary64.unitsPerOne : Int) ≠ 0 :=
    Int.ofNat_ne_zero.2 (Nat.ne_of_gt (Nat.two_pow_pos Binary64.unitBits))
  rw [Bool.eq_iff_iff, same_iff, beq_iff_eq]
  constructor
  · rintro ⟨-, h⟩
    exact Int.eq_of_mul_eq_mul_right hone (Magnitude.finite.inj (Option.some.inj h))
  · rintro rfl
    exact ⟨rfl, rfl⟩

theorem ofFlag_same_ofFlag (a b : Bool) : (ofFlag a).same (ofFlag b) = (a == b) := by
  cases a <;> cases b <;> exact int_same_int _ _

/-- Shortest text: plain decimal for an integer. -/
def text : Number → String
  | .int value => toString value
  | .float value => value.text
  | .nan _ => "nan"

/-- Text without an exponent. -/
def plain : Number → String
  | .int value => toString value
  | .float value => value.plain
  | .nan _ => "NaN"

end Number

end Lia
