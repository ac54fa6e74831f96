import Lia.Proofs.Number.Reread

/-!
# Exact decimals

A value of 10^16 or more is printed as the integer that its shortest decimal is. The decimal
reads back as the value, but the integer is the value itself only if the decimal is exact
(`Number.Unsigned.same_reread_iff`).
-/

namespace Lia

-- Powers of natural numbers are those of core, whatever else is in scope.
attribute [local instance (high)] instPowNat instNatPowNat

-- ---------------------------------------------------------------------------
-- Decimals without a fraction
-- ---------------------------------------------------------------------------

namespace Decimal

variable {d : Decimal}

/-- The decimal is the number itself, not only one that rounds to it. -/
def IsExact (d : Decimal) (units : Nat) : Prop :=
  d.numerator * Binary64.unitsPerOne = units * d.denominator

instance (units : Nat) : Decidable (d.IsExact units) := inferInstanceAs (Decidable (_ = _))

/-- The zeros that end the coefficient are not among the digits. -/
theorem digits_length_le {j : Nat} (hd : d.coefficient ≠ 0) (hj : 10 ^ j ∣ d.coefficient) :
    d.digits.length + j ≤ (Nat.toDigits 10 d.coefficient).length := by
  obtain ⟨c, hc⟩ := hj
  have hpos : 0 < c := by
    refine Nat.pos_of_ne_zero ?_
    rintro rfl
    exact hd hc
  have hzeros : ∀ x ∈ List.replicate j '0', decide (x = '0') = true := by
    intro x hx
    rw [List.eq_of_mem_replicate hx]
    rfl
  have hle := (List.dropWhile_sublist (l := (Nat.toDigits 10 c).reverse) (· = '0')).length_le
  rw [List.length_reverse] at hle
  rw [digits, hc, Nat.mul_comm, toDigits_mul_pow hpos, List.reverse_append, List.reverse_replicate,
    List.dropWhile_append_of_pos hzeros, List.length_reverse, List.length_append,
    List.length_replicate]
  exact Nat.add_le_add_right hle j

/-- Digits that end at the point or before it are the digits of the whole number. -/
theorem mul_denominator_of_whole (hp : d.digits.length ≤ d.point)
    (h : whole d.digits d.point.toNat = Nat.toDigits 10 m) : m * d.denominator = d.numerator := by
  obtain ⟨z, -, hc, hpoint⟩ := d.coefficient_eq
  have hm := congrArg (fun w => Nat.ofDigitChars 10 w 0) h
  rw [whole, Nat.ofDigitChars_append, Nat.ofDigitChars_replicate_zero,
    Nat.ofDigitChars_ten_toDigits] at hm
  have hexp : d.point.toNat - d.digits.length + (-d.exponent).toNat = z + d.exponent.toNat := by omega
  calc
    _ = Nat.ofDigitChars 10 d.digits 0 *
          10 ^ (d.point.toNat - d.digits.length + (-d.exponent).toNat) := by
      rw [denominator, ← hm, Nat.pow_add, Nat.mul_comm (10 ^ _), Nat.mul_assoc]
    _ = d.numerator := by rw [numerator, hc, hexp, Nat.pow_add, Nat.mul_assoc]

section
variable {units : Nat} (hu : 10 ^ (16 : Nat) * Binary64.unitsPerOne ≤ units)
include hu

/-- Values that large have no binary fraction. -/
theorem unitsPerOne_dvd (h : Representable units) : Binary64.unitsPerOne ∣ units := by
  obtain ⟨m, k, hm, -, rfl⟩ := h
  have hk : Binary64.unitBits ≤ k := by
    by_contra hlt
    have hpow : 2 ^ k ≤ Binary64.unitsPerOne := Nat.pow_le_pow_right (by decide) (by omega)
    have hlimit : significandLimit ≤ 10 ^ (16 : Nat) := by decide
    exact absurd hu (Nat.not_le.2 (Nat.mul_lt_mul_of_lt_of_le (by omega) hpow unitsPerOne_pos))
  exact Nat.dvd_mul_left_of_dvd (Nat.pow_dvd_pow 2 hk) m

theorem digits_length_le_point (h : Representable units) :
    (shortest units).digits.length ≤ (shortest units).point := by
  have hc := shortest_coefficient_ne_zero h (units_ne_zero hu)
  obtain hs | ⟨-, i, hi, hd⟩ := shortest_cases (units_ne_zero hu)
  · rw [hs] at hc ⊢
    have hdvd : 10 ^ Binary64.unitBits ∣ (exact units).coefficient := by
      rw [ten_pow_unitBits]
      exact Nat.mul_dvd_mul_right (unitsPerOne_dvd hu h) _
    have hlen := digits_length_le hc hdvd
    have he : (exact units).exponent = -(Binary64.unitBits : Int) := rfl
    unfold point
    omega
  · obtain ⟨l, hl, hle, -⟩ := leadingExponent_of_le hu
    have he := (mem_neighbours hd).1
    have hlen := digits_length_le (j := 0) hc (Nat.one_dvd _)
    unfold point
    omega

end

end Decimal

-- ---------------------------------------------------------------------------
-- Numbers
-- ---------------------------------------------------------------------------

namespace Number

/-- The text of the number is that of the same number again. A large value needs an exact
decimal for that, and no text is that of an infinity. -/
inductive Faithful : Number → Prop
  | int (n : Int) : Faithful (.int n)
  | small {negative : Bool} {units : Nat} {h : Representable units}
      (hu : units < 10 ^ (16 : Nat) * Binary64.unitsPerOne) :
      Faithful (.float (.finite negative units h))
  | exact {negative : Bool} {units : Nat} {h : Representable units}
      (hd : (Decimal.shortest units).IsExact units) : Faithful (.float (.finite negative units h))

theorem faithful_finite_iff {negative : Bool} {units : Nat} {h : Representable units} :
    (float (.finite negative units h)).Faithful ↔
      units < 10 ^ (16 : Nat) * Binary64.unitsPerOne ∨ (Decimal.shortest units).IsExact units := by
  constructor
  · rintro (_ | hu | hd)
    · exact .inl hu
    · exact .inr hd
  · rintro (hu | hd)
    · exact .small hu
    · exact .exact hd

theorem Writable.isNaN {n : Number} (h : n.Writable) : n.isNaN = false := by
  cases h <;> rfl

theorem Writable.faithful {n : Number} (h : n.Writable) : n.Faithful := by
  cases h with
  | int => exact .int _
  | float hu => exact .small hu

/-- The integer of the digits is the value if the digits are exact. -/
theorem IsLarge.same_reread_iff {n : Number} (h : n.IsLarge) : n.reread.same n = true ↔ n.Faithful := by
  obtain ⟨m, -, hr, hplain⟩ := h.reread_eq
  obtain @⟨units, h, hu⟩ := h
  have hwhole : whole (Decimal.shortest units).digits (Decimal.shortest units).point.toNat =
      Nat.toDigits 10 m := by
    have htext : (Binary64.finite false units h).plain.toList = Nat.toDigits 10 m :=
      (congrArg String.toList hplain).trans Nat.toList_repr
    have hp := Decimal.lt_shortest_point hu
    rwa [Binary64.toList_plain, if_neg (by omega)] at htext
  have hm := Decimal.mul_denominator_of_whole (Decimal.digits_length_le_point hu h) hwhole
  have hexact : (Decimal.shortest units).IsExact units ↔ m * Binary64.unitsPerOne = units := by
    rw [Decimal.IsExact, ← hm, Nat.mul_right_comm]
    exact Nat.mul_left_inj (Nat.ne_of_gt (Decimal.denominator_pos _))
  rw [hr, same_iff, faithful_finite_iff, or_iff_right (Nat.not_lt.2 hu), hexact,
    and_iff_right (by rfl)]
  simp only [magnitude?, Binary64.magnitude, Option.some.injEq, Magnitude.finite.injEq]
  exact Int.ofNat_inj

theorem Unsigned.same_reread_iff {n : Number} (h : n.Unsigned) (hf : n.isInfinite = false) :
    n.reread.same n = true ↔ n.Faithful := by
  obtain hw | hl := h.writable_or_isLarge hf
  · rw [hw.reread_eq]
    have hself : n.same n = true := by rw [same_self, hw.isNaN]; rfl
    exact iff_of_true hself hw.faithful
  · exact hl.same_reread_iff

end Number

end Lia
