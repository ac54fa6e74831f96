import Mathlib.Data.List.TakeWhile
import Lia.Proofs.Number.Plain

/-!
# Printed numbers read once more

The number of a spelling has no sign (`Number.Unsigned.of_numberValue`). Printed, it may read
as another number: a value of 10^16 or more has lost its point and is an integer. The
text of that number is the same (`Number.Unsigned.reread`).
-/

namespace Lia

-- Powers of natural numbers are those of core, whatever else is in scope.
attribute [local instance (high)] instPowNat instNatPowNat

-- ---------------------------------------------------------------------------
-- Numbers of spellings
-- ---------------------------------------------------------------------------

/-- An integer that is not too long, or any value without a sign, infinity included. -/
inductive Number.Unsigned : Number → Prop
  | int {n : Nat} (h : n < 10 ^ maxIntegerDigits) : Number.Unsigned (.int n)
  | float {x : Binary64} (h : x.negative = false) : Number.Unsigned (.float x)

theorem toNat_sub_le_of_isDigit {c : Char} (h : c.isDigit = true) : c.toNat - '0'.toNat ≤ 9 := by
  simp only [Char.isDigit, Bool.and_eq_true, decide_eq_true_eq] at h
  have h9 : c.toNat ≤ 57 := UInt32.le_iff_toNat_le.1 h.2
  have h0 : '0'.toNat = 48 := rfl
  omega

theorem ofDigitChars_lt {w : List Char} (hw : ∀ c ∈ w, c.isDigit = true) (n : Nat) :
    Nat.ofDigitChars 10 w n < (n + 1) * 10 ^ w.length := by
  induction w generalizing n with
  | nil => simp
  | cons c w ih =>
    have hc := toNat_sub_le_of_isDigit (hw c (by simp))
    rw [Nat.ofDigitChars_cons, List.length_cons]
    calc
      _ < (10 * n + (c.toNat - '0'.toNat) + 1) * 10 ^ w.length :=
        ih (fun d hd => hw d (.tail _ hd)) _
      _ ≤ (10 * (n + 1)) * 10 ^ w.length := Nat.mul_le_mul_right _ (by omega)
      _ = (n + 1) * 10 ^ (w.length + 1) := by rw [Nat.pow_succ', ← Nat.mul_assoc, Nat.mul_comm 10]

theorem Decimal.negative_toBinary64 (d : Decimal) (negative : Bool) :
    (d.toBinary64 negative).negative = negative := by
  unfold toBinary64 Binary64.ofRatio Binary64.ofUnits
  split <;> rfl

theorem Number.Unsigned.of_numberValue {w : List Char} {n : Number} (h : numberValue w = .ok n) :
    n.Unsigned := by
  unfold numberValue at h
  split at h
  next hd =>
    split at h
    next => cases h
    next hlen =>
      cases h
      refine .int (Nat.lt_of_lt_of_le (ofDigitChars_lt (List.dropWhile_eq_nil_iff.1 hd) 0) ?_)
      rw [Nat.zero_add, Nat.one_mul]
      exact Nat.pow_le_pow_right (by decide) (Nat.not_lt.1 hlen)
  next =>
    cases h
    exact .float (Decimal.negative_toBinary64 _ _)

-- ---------------------------------------------------------------------------
-- Values from 10^16 on
-- ---------------------------------------------------------------------------

theorem lt_length_toDigits {n k : Nat} (h : 10 ^ k ≤ n) : k < (Nat.toDigits 10 n).length := by
  rcases Nat.eq_zero_or_pos k with rfl | hk
  · exact Nat.length_toDigits_pos
  · by_contra hle
    have hlt := (Nat.length_toDigits_le_iff (by decide) hk).1 (Nat.not_lt.1 hle)
    omega

theorem toDigits_mul_pow {m : Nat} (hm : 0 < m) (j : Nat) :
    Nat.toDigits 10 (m * 10 ^ j) = Nat.toDigits 10 m ++ List.replicate j '0' := by
  induction j with
  | zero => simp
  | succ j ih =>
    have hpos : 0 < m * 10 ^ j := Nat.mul_pos hm (Nat.pow_pos (by decide))
    have h := Nat.toDigits_append_toDigits (b := 10) (d := 0) (by decide) hpos (by decide)
    rw [Nat.add_zero, ih, List.append_assoc] at h
    rw [Nat.pow_succ, ← Nat.mul_assoc, Nat.mul_comm _ 10, ← h, List.replicate_succ']
    rfl

namespace Decimal

theorem unitsPerOne_pos : 0 < Binary64.unitsPerOne := Nat.two_pow_pos _

variable {d : Decimal}

/-- Digits without a point are those of an integer. -/
theorem exists_whole (hd : d.coefficient ≠ 0) (n : Nat) :
    ∃ m : Nat, whole d.digits n = Nat.toDigits 10 m := by
  obtain ⟨z, hz, hc, -⟩ := d.coefficient_eq
  generalize Nat.ofDigitChars 10 d.digits 0 = m at hc
  have hm : 0 < m := by
    refine Nat.pos_of_ne_zero ?_
    rintro rfl
    exact hd (by rw [hc, Nat.zero_mul])
  rw [hc, toDigits_mul_pow hm] at hz
  have hdigits : Nat.toDigits 10 m = d.digits := List.append_cancel_right hz
  exact ⟨m * 10 ^ (n - d.digits.length), by rw [toDigits_mul_pow hm, hdigits, whole]⟩

theorem length_whole_le {n k : Nat} (hk : 0 < k) (hc : d.coefficient < 10 ^ k) (hkn : k ≤ n)
    (he : d.exponent + k ≤ n) : (whole d.digits d.point.toNat).length ≤ n := by
  have hlen := (Nat.length_toDigits_le_iff (by decide) hk).2 hc
  obtain ⟨z, hz⟩ := d.toDigits_eq
  have hdigits := congrArg List.length hz
  rw [List.length_append, List.length_replicate] at hdigits
  rw [whole, List.length_append, List.length_replicate, point]
  omega

theorem lt_point {n k : Nat} (hc : 10 ^ k ≤ d.coefficient) (he : n ≤ d.exponent + k) :
    n < d.point := by
  have hlen := lt_length_toDigits hc
  unfold point
  omega

section
variable {units : Nat} (hu : 10 ^ (16 : Nat) * Binary64.unitsPerOne ≤ units)
include hu

theorem units_ne_zero : units ≠ 0 := by
  have hpos : 0 < 10 ^ (16 : Nat) * Binary64.unitsPerOne :=
    Nat.mul_pos (Nat.pow_pos (by decide)) unitsPerOne_pos
  omega

theorem leadingExponent_of_le : ∃ l : Nat, leadingExponent units = l ∧ 16 ≤ l ∧
    10 ^ l * Binary64.unitsPerOne ≤ units := by
  have hone := unitsPerOne_pos
  unfold leadingExponent
  generalize Binary64.unitsPerOne = one at hone hu ⊢
  have hle : one ≤ units := Nat.le_trans (Nat.le_mul_of_pos_left _ (Nat.pow_pos (by decide))) hu
  have hlen := lt_length_toDigits ((Nat.le_div_iff_mul_le hone).2 hu)
  rw [if_pos hle]
  refine ⟨(Nat.toDigits 10 (units / one)).length - 1, by omega, by omega, ?_⟩
  rw [← Nat.le_div_iff_mul_le hone]
  by_contra hlt
  have hshort := (Nat.length_toDigits_le_iff (by decide) (by omega)).2 (Nat.not_le.1 hlt)
  omega

theorem exact_lt_point : 16 < (exact units).point := by
  refine lt_point (n := 16) (k := 16 + Binary64.unitBits) ?_ ?_
  · rw [Nat.pow_add, ten_pow_unitBits, ← Nat.mul_assoc]
    exact Nat.mul_le_mul_right _ hu
  · simp only [exact]
    omega

theorem neighbour_lt_point {i : Nat} (hi : i < 17)
    (hd : d ∈ neighbours units (leadingExponent units - i)) : 16 < d.point := by
  obtain ⟨l, hl, hle, hpow⟩ := leadingExponent_of_le hu
  obtain ⟨he, hc, -⟩ := mem_neighbours hd
  have hexp : (l - i : Int).toNat + i = l := by omega
  have hneg : (-(l - i : Int)).toNat = 0 := by omega
  rw [hl] at he hc
  -- The quotient below the coefficient has a digit more than `i`.
  refine lt_point (n := 16) (k := i) (Nat.le_trans ?_ hc) (by omega)
  rw [hneg, Nat.pow_zero, Nat.mul_one,
    Nat.le_div_iff_mul_le (Nat.mul_pos unitsPerOne_pos (Nat.pow_pos (by decide))), Nat.mul_left_comm,
    ← Nat.pow_add, Nat.add_comm i, hexp, Nat.mul_comm]
  exact hpow

/-- From 10^16 on the point stands behind more than sixteen digits. -/
theorem lt_shortest_point : 16 < (shortest units).point := by
  obtain hs | ⟨-, i, hi, hd⟩ := shortest_cases (units_ne_zero hu)
  · rw [hs]
    exact exact_lt_point hu
  · exact neighbour_lt_point hu hi hd

/-- The digits of a large value are few enough to be read as an integer. -/
theorem length_whole_shortest_le (hlimit : units < unitsLimit) :
    (whole (shortest units).digits (shortest units).point.toNat).length ≤ maxIntegerDigits := by
  -- A digit for each bit is far more than there are, and still within the limit.
  have hlt : units < 10 ^ finiteBits :=
    Nat.lt_of_lt_of_le hlimit (Nat.pow_le_pow_left (by decide) _)
  obtain hs | ⟨-, i, hi, hd⟩ := shortest_cases (units_ne_zero hu)
  · rw [hs]
    have hc : (exact units).coefficient < 10 ^ (finiteBits + Binary64.unitBits) := by
      rw [Nat.pow_add]
      exact Nat.mul_lt_mul_of_lt_of_le hlt (Nat.pow_le_pow_left (by decide) _)
        (Nat.pow_pos (by decide))
    exact length_whole_le (by decide) hc (by decide) (by simp only [exact]; decide)
  · generalize shortest units = d at hd
    obtain ⟨l, hl, hle, hpow⟩ := leadingExponent_of_le hu
    obtain ⟨he, -, hc⟩ := mem_neighbours hd
    have hneg : (-(l - i : Int)).toNat = 0 := by omega
    rw [hl] at he hc
    rw [hneg, Nat.pow_zero, Nat.mul_one] at hc
    have hll : l < finiteBits := by
      refine (Nat.pow_lt_pow_iff_right (by decide : 1 < 10)).1 (Nat.lt_of_le_of_lt ?_ hlt)
      exact Nat.le_trans (Nat.le_mul_of_pos_right _ unitsPerOne_pos) hpow
    have hc : d.coefficient < 10 ^ (finiteBits + 1) := by
      have hdiv := Nat.div_le_self units (Binary64.unitsPerOne * 10 ^ (l - i : Int).toNat)
      rw [Nat.pow_succ]
      omega
    have hbits : finiteBits + (finiteBits + 1) ≤ maxIntegerDigits := by decide
    exact length_whole_le (by decide) hc (by decide) (by omega)

end

end Decimal

/-- A value of 10^16 or more is printed as an integer. -/
theorem Binary64.plain_whole {units : Nat} (h : Representable units)
    (hu : 10 ^ (16 : Nat) * unitsPerOne ≤ units) :
    ∃ m : Nat, m < 10 ^ maxIntegerDigits ∧
      (Binary64.finite false units h).plain.toList = Nat.toDigits 10 m := by
  have hp := Decimal.lt_shortest_point hu
  have hc := Decimal.shortest_coefficient_ne_zero h (Decimal.units_ne_zero hu)
  obtain ⟨m, hm⟩ := Decimal.exists_whole hc (Decimal.shortest units).point.toNat
  refine ⟨m, ?_, ?_⟩
  · have hlen := Decimal.length_whole_shortest_le hu h.lt_limit
    rw [hm] at hlen
    exact (Nat.length_toDigits_le_iff (by decide) (by decide)).1 hlen
  · rw [toList_plain, if_neg (by omega), hm]

-- ---------------------------------------------------------------------------
-- Reading once more
-- ---------------------------------------------------------------------------

namespace Number

def isInfinite : Number → Bool
  | .float (.infinite _) => true
  | _ => false

/-- Binary64 values from 10^16 on. -/
inductive IsLarge : Number → Prop
  | mk {units : Nat} {h : Representable units}
      (hu : 10 ^ (16 : Nat) * Binary64.unitsPerOne ≤ units) : IsLarge (.float (.finite false units h))

/-- The number that the plain text of a number denotes. -/
def reread (n : Number) : Number :=
  match numberValue n.plain.toList with
  | .ok m => m
  | .error _ => n

variable {n : Number}

theorem reread_eq {m : Number} (h : numberValue n.plain.toList = .ok m) : n.reread = m := by
  rw [reread, h]

theorem Writable.reread_eq (h : n.Writable) : n.reread = n := Number.reread_eq (numberValue_plain h)

/-- A large value becomes the integer of its digits. -/
theorem IsLarge.reread_eq (h : n.IsLarge) :
    ∃ m : Nat, m < 10 ^ maxIntegerDigits ∧ n.reread = .int m ∧ n.plain = (int m).plain := by
  obtain @⟨units, h, hu⟩ := h
  obtain ⟨m, hm, ht⟩ := Binary64.plain_whole h hu
  have ht : (float (.finite false units h)).plain.toList = Nat.toDigits 10 m := ht
  refine ⟨m, hm, Number.reread_eq (by rw [ht, numberValue_toDigits hm]), String.toList_inj.1 ?_⟩
  rw [ht]
  exact Nat.toList_repr.symm

theorem IsLarge.point_not_mem (h : n.IsLarge) : '.' ∉ n.plain.toList := by
  obtain ⟨m, -, -, hp⟩ := h.reread_eq
  have ht : (int m).plain.toList = Nat.toDigits 10 m := Nat.toList_repr
  rw [hp, ht]
  intro hc
  exact absurd (Nat.isDigit_of_mem_toDigits (by decide) (by decide) hc) (by decide)

theorem Unsigned.writable_or_isLarge (h : n.Unsigned) (hf : n.isInfinite = false) :
    n.Writable ∨ n.IsLarge := by
  cases h with
  | int h => exact .inl (.int h)
  | @float x hx =>
    cases x with
    | infinite => cases hf
    | finite s units h =>
      obtain rfl : s = false := hx
      rcases Nat.lt_or_ge units (10 ^ (16 : Nat) * Binary64.unitsPerOne) with hu | hu
      · exact .inl (.float hu)
      · exact .inr ⟨hu⟩

/-- What is read back can be written, with the same text. -/
theorem Unsigned.reread (h : n.Unsigned) (hf : n.isInfinite = false) :
    n.reread.Writable ∧ n.reread.plain = n.plain := by
  obtain hw | hl := h.writable_or_isLarge hf
  · rw [hw.reread_eq]
    exact ⟨hw, rfl⟩
  · obtain ⟨m, hm, hr, hp⟩ := hl.reread_eq
    rw [hr, hp]
    exact ⟨.int hm, rfl⟩

end Number

end Lia
