import Lia.Number
import Lia.Token.Scan

/-!
# Plain numbers read back

The plain text of a number is a spelling of that number (`Number.numberValue_plain`), for
integers that are short enough to be read and for finite values below 10^16. Two
decimals of the same value read alike, however their digits are laid out.
-/

namespace Lia

-- Powers of natural numbers are those of core, whatever else is in scope.
attribute [local instance (high)] instPowNat instNatPowNat

-- ---------------------------------------------------------------------------
-- Equal quotients
-- ---------------------------------------------------------------------------

theorem nearestEven_mul {k : Nat} (hk : 0 < k) (a b : Nat) :
    nearestEven (a * k) (b * k) = nearestEven a b := by
  have hlt (x y : Nat) : x * k < y * k ↔ x < y := Nat.mul_lt_mul_right hk
  simp only [nearestEven, Nat.mul_div_mul_right _ _ hk, Nat.mul_mod_mul_right, ← Nat.mul_assoc, hlt]

theorem roundUnits_mul {k : Nat} (hk : 0 < k) (a b : Nat) :
    roundUnits (a * k) (b * k) = roundUnits a b := by
  rw [roundUnits, roundUnits, Nat.mul_div_mul_right _ _ hk, Nat.mul_right_comm b k, nearestEven_mul hk]

theorem roundUnits_congr {a b a' b' : Nat} (hb : 0 < b) (hb' : 0 < b') (h : a * b' = a' * b) :
    roundUnits a b = roundUnits a' b' := by
  rw [← roundUnits_mul hb' a b, ← roundUnits_mul hb a' b', h, Nat.mul_comm b b']

namespace Decimal

variable {d d' : Decimal}

theorem numerator_mul (d : Decimal) {k : Nat} (hk : 0 ≤ d.exponent + k) :
    d.numerator * 10 ^ k = d.coefficient * 10 ^ (d.exponent + k).toNat * d.denominator := by
  have he : d.exponent.toNat + k = (d.exponent + k).toNat + (-d.exponent).toNat := by omega
  rw [numerator, denominator, Nat.mul_assoc, Nat.mul_assoc, ← Nat.pow_add, ← Nat.pow_add, he]

/-- Decimals of one value read alike. The values are compared at a common exponent. -/
theorem units_congr {k : Nat} (hk : 0 ≤ d.exponent + k) (hk' : 0 ≤ d'.exponent + k)
    (h : d.coefficient * 10 ^ (d.exponent + k).toNat =
      d'.coefficient * 10 ^ (d'.exponent + k).toNat) : d.units = d'.units := by
  have hcross : d.numerator * d'.denominator = d'.numerator * d.denominator := by
    have hpos : 0 < 10 ^ k := Nat.pow_pos (by decide)
    apply Nat.eq_of_mul_eq_mul_right hpos
    rw [Nat.mul_right_comm, d.numerator_mul hk, Nat.mul_right_comm d'.numerator, d'.numerator_mul hk',
      h, Nat.mul_right_comm]
  apply roundUnits_congr d.denominator_pos d'.denominator_pos
  rw [Nat.mul_right_comm, hcross, Nat.mul_right_comm]

theorem toBinary64_congr (h : d.units = d'.units) (negative : Bool) :
    d.toBinary64 negative = d'.toBinary64 negative := by
  rw [units, units] at h
  simp only [toBinary64, Binary64.ofRatio, Binary64.ofUnits, h]

-- ---------------------------------------------------------------------------
-- Digits
-- ---------------------------------------------------------------------------

theorem toDigits_eq (d : Decimal) :
    ∃ z, Nat.toDigits 10 d.coefficient = d.digits ++ List.replicate z '0' := by
  let reversed := (Nat.toDigits 10 d.coefficient).reverse
  have hz : reversed.takeWhile (· = '0') =
      List.replicate (reversed.takeWhile (· = '0')).length '0' := by
    apply List.eq_replicate_of_mem
    intro c hc
    simpa using List.all_eq_true.1 List.all_takeWhile c hc
  refine ⟨(reversed.takeWhile (· = '0')).length, ?_⟩
  have h := congrArg List.reverse (List.takeWhile_append_dropWhile (p := (· = '0')) (l := reversed))
  rw [List.reverse_append, hz, List.reverse_replicate, List.reverse_reverse] at h
  exact h.symm

theorem isDigit_of_mem_digits {c : Char} (h : c ∈ d.digits) : c.isDigit = true := by
  obtain ⟨z, hz⟩ := d.toDigits_eq
  refine Nat.isDigit_of_mem_toDigits (b := 10) (n := d.coefficient) (by decide) (by decide) ?_
  rw [hz]
  exact List.mem_append_left _ h

/-- The digits and the place of the point say which value it is. -/
theorem coefficient_eq (d : Decimal) :
    ∃ z : Nat, Nat.toDigits 10 d.coefficient = d.digits ++ List.replicate z '0' ∧
      d.coefficient = Nat.ofDigitChars 10 d.digits 0 * 10 ^ z ∧
      d.point = d.digits.length + z + d.exponent := by
  obtain ⟨z, hz⟩ := d.toDigits_eq
  refine ⟨z, hz, ?_, ?_⟩
  · have hv := Nat.ofDigitChars_ten_toDigits (n := d.coefficient)
    rw [hz, Nat.ofDigitChars_append, Nat.ofDigitChars_replicate_zero] at hv
    rw [Nat.mul_comm]
    exact hv.symm
  · simp [point, hz]

end Decimal

-- ---------------------------------------------------------------------------
-- Reading a layout
-- ---------------------------------------------------------------------------

/-- A layout has digits on both sides of the point, with zeros up to the point if need be. -/
theorem positional_eq {digits : List Char} {point : Int} (h : digits ≠ [] ∨ 0 < point) :
    ∃ (w f : List Char) (j : Nat), positional digits point = w ++ '.' :: f ∧ w ≠ [] ∧ f ≠ [] ∧
      (∀ c ∈ w ++ f, c ∈ digits ∨ c = '0') ∧
      Nat.ofDigitChars 10 (w ++ f) 0 = Nat.ofDigitChars 10 digits 0 * 10 ^ j ∧
      (j : Int) = point - digits.length + f.length := by
  unfold positional
  split
  next hp =>
    refine ⟨['0'], List.replicate (-point).toNat '0' ++ digits, 0, rfl, by simp, ?_, ?_, ?_, ?_⟩
    · obtain h | h := h
      · simp [h]
      · omega
    · intro c hc
      simp only [List.mem_append, List.mem_singleton, List.mem_replicate] at hc
      obtain h | ⟨-, h⟩ | h := hc
      · exact .inr h
      · exact .inr h
      · exact .inl h
    · rw [List.singleton_append, ← List.cons_append, ← List.replicate_succ, Nat.ofDigitChars_append,
        Nat.ofDigitChars_replicate_zero, Nat.mul_zero, Nat.pow_zero, Nat.mul_one]
    · simp only [List.length_append, List.length_replicate]
      omega
  next hp =>
    have hn : 0 < point.toNat := by omega
    by_cases hlen : point.toNat < digits.length
    · have hdrop : digits.drop point.toNat ≠ [] := by simpa using hlen
      have hpad : point.toNat - digits.length = 0 := by omega
      refine ⟨digits.take point.toNat, digits.drop point.toNat, 0, ?_, ?_, hdrop, ?_, ?_, ?_⟩
      · simp [hdrop, hpad]
      · intro ht
        have hl := congrArg List.length ht
        rw [List.length_take, List.length_nil] at hl
        omega
      · intro c hc
        rw [List.take_append_drop] at hc
        exact .inl hc
      · rw [List.take_append_drop, Nat.pow_zero, Nat.mul_one]
      · rw [List.length_drop]
        omega
    · have hdrop : digits.drop point.toNat = [] := by simpa using hlen
      have htake : digits.take point.toNat = digits := List.take_of_length_le (by omega)
      refine ⟨digits ++ List.replicate (point.toNat - digits.length) '0', ['0'],
        point.toNat - digits.length + 1, ?_, ?_, by simp, ?_, ?_, ?_⟩
      · simp [hdrop, htake]
      · intro ht
        have hl := congrArg List.length ht
        rw [List.length_append, List.length_replicate, List.length_nil] at hl
        omega
      · intro c hc
        simp only [List.mem_append, List.mem_singleton, List.mem_replicate] at hc
        obtain (h | ⟨-, h⟩) | h := hc
        · exact .inl h
        · exact .inr h
        · exact .inr h
      · rw [List.append_assoc, ← List.replicate_succ', Nat.ofDigitChars_append,
          Nat.ofDigitChars_replicate_zero, Nat.mul_comm]
      · rw [List.length_singleton]
        omega

/-- The number that digits around a point denote. -/
theorem numberValue_point {w f : List Char} (hw : ∀ c ∈ w, c.isDigit = true) :
    numberValue (w ++ '.' :: f) =
      .ok (.float ((Decimal.mk (Nat.ofDigitChars 10 (w ++ f) 0) (-f.length)).toBinary64 false)) := by
  have hdrop : (w ++ '.' :: f).dropWhile Char.isDigit = '.' :: f := by
    rw [List.dropWhile_append_of_pos hw]
    rfl
  have htake : (w ++ '.' :: f).takeWhile Char.isDigit = w := by
    rw [List.takeWhile_append_of_pos hw]
    simp
  rw [numberValue, hdrop, htake]

/-- What is printed for a decimal reads as its value. -/
theorem Decimal.numberValue_positional {d : Decimal} (h : d.digits ≠ [] ∨ 0 < d.point) :
    isNumberText (positional d.digits d.point) = true ∧
      numberValue (positional d.digits d.point) = .ok (.float (d.toBinary64 false)) := by
  obtain ⟨w, f, j, hp, hw, hf, hmem, hval, hj⟩ := positional_eq h
  obtain ⟨z, -, hz, hpoint⟩ := d.coefficient_eq
  have hdigit : ∀ c ∈ w ++ f, c.isDigit = true := by
    intro c hc
    obtain h | rfl := hmem c hc
    · exact isDigit_of_mem_digits h
    · rfl
  have hdw : ∀ c ∈ w, c.isDigit = true := fun c hc => hdigit c (List.mem_append_left _ hc)
  have hdf : ∀ c ∈ f, c.isDigit = true := fun c hc => hdigit c (List.mem_append_right _ hc)
  rw [hp]
  constructor
  · exact isNumberText_fraction hw (List.all_eq_true.2 hdw) hf (List.all_eq_true.2 hdf)
  · rw [numberValue_point hdw, hval]
    let printed : Decimal := ⟨Nat.ofDigitChars 10 d.digits 0 * 10 ^ j, -f.length⟩
    have hunits : printed.units = d.units := by
      -- At the exponent `-k` both are whole numbers.
      refine units_congr (k := f.length + (-d.exponent).toNat)
        (by simp only [printed]; omega) (by omega) ?_
      rw [hz, Nat.mul_assoc, Nat.mul_assoc, ← Nat.pow_add, ← Nat.pow_add]
      refine congrArg (fun k => Nat.ofDigitChars 10 d.digits 0 * 10 ^ k) ?_
      simp only [printed]
      omega
    rw [toBinary64_congr hunits]

-- ---------------------------------------------------------------------------
-- Values below 10^16
-- ---------------------------------------------------------------------------

namespace Decimal

/-- Where the point stands at most, by the size of the coefficient. -/
theorem point_le {d : Decimal} {n k : Nat} (hk : 0 < k) (he : d.exponent + k ≤ n)
    (hc : d.coefficient < 10 ^ k) : d.point ≤ n := by
  have hlen := (Nat.length_toDigits_le_iff (by decide) hk).2 hc
  unfold point
  omega

theorem leadingExponent_lt {units n : Nat} (hn : 0 < n) (h : units < 10 ^ n * Binary64.unitsPerOne) :
    leadingExponent units < n := by
  unfold leadingExponent
  generalize Binary64.unitsPerOne = one at h ⊢
  split
  · have hlt : units / one < 10 ^ n := Nat.div_lt_of_lt_mul (Nat.mul_comm one _ ▸ h)
    have hlen := (Nat.length_toDigits_le_iff (by decide) hn).2 hlt
    omega
  · omega

/-- The power of ten that bounds the values without a point of their own. -/
theorem representable_bound : Representable (10 ^ (16 : Nat) * Binary64.unitsPerOne) := by
  have hten : 10 ^ (16 : Nat) = 5 ^ (16 : Nat) * 2 ^ (16 : Nat) := by decide
  refine ⟨5 ^ (16 : Nat), 16 + Binary64.unitBits, by decide, by decide, ?_⟩
  rw [Binary64.unitsPerOne, Nat.pow_add, ← Nat.mul_assoc, hten]

theorem mem_neighbours {units : Nat} {exponent : Int} {d : Decimal}
    (h : d ∈ neighbours units exponent) :
    d.exponent = exponent ∧
      units * 10 ^ (-exponent).toNat / (Binary64.unitsPerOne * 10 ^ exponent.toNat) ≤
        d.coefficient ∧
      d.coefficient ≤
        units * 10 ^ (-exponent).toNat / (Binary64.unitsPerOne * 10 ^ exponent.toNat) + 1 := by
  unfold neighbours at h
  simp only at h
  split at h <;> (simp only [List.mem_cons, List.not_mem_nil, or_false] at h; obtain rfl | rfl := h) <;>
    simp

/-- The shortest decimal is a neighbour on one of seventeen digits, or all digits. -/
theorem shortest_cases {units : Nat} (hu : units ≠ 0) :
    shortest units = exact units ∨ (shortest units).units = units ∧
      ∃ i : Nat, i < 17 ∧ shortest units ∈ neighbours units (leadingExponent units - i) := by
  unfold shortest
  rw [if_neg hu]
  simp only
  cases hf : List.find? (fun d : Decimal => decide (d.units = units))
      ((List.range 17).flatMap fun i : Nat => neighbours units (leadingExponent units - i)) with
  | none => exact .inl rfl
  | some d =>
    obtain ⟨i, hlt, hi⟩ := List.mem_flatMap.1 (List.mem_of_find?_eq_some hf)
    exact .inr ⟨by simpa using List.find?_some hf, i, List.mem_range.1 hlt, hi⟩

/-- A neighbour of a value below `10 ^ n` is not beyond `10 ^ n`. -/
theorem neighbour_le {units n : Nat} {exponent : Int} {d : Decimal} (he : exponent ≤ n)
    (h : d ∈ neighbours units exponent) (hu : units < 10 ^ n * Binary64.unitsPerOne) :
    d.coefficient ≤ 10 ^ (n - exponent).toNat := by
  obtain ⟨-, -, hc⟩ := mem_neighbours h
  refine Nat.le_trans hc ?_
  have hexp : exponent.toNat + (n - exponent).toNat = n + (-exponent).toNat := by omega
  apply Nat.div_lt_of_lt_mul
  rw [Nat.mul_assoc, ← Nat.pow_add, hexp, Nat.pow_add, ← Nat.mul_assoc,
    Nat.mul_comm Binary64.unitsPerOne]
  exact (Nat.mul_lt_mul_right (Nat.pow_pos (by decide))).2 hu

theorem units_bound {d : Decimal} (he : d.exponent ≤ 16)
    (hc : d.coefficient = 10 ^ (16 - d.exponent).toNat) :
    d.units = 10 ^ (16 : Nat) * Binary64.unitsPerOne := by
  have hd : d.units = (Decimal.mk 1 16).units := by
    apply units_congr (k := (-d.exponent).toNat) (by omega) (by simp; omega)
    rw [hc, Nat.one_mul, ← Nat.pow_add]
    refine congrArg (fun k => 10 ^ k) ?_
    simp only
    omega
  have hn : (Decimal.mk 1 16).numerator = 10 ^ (16 : Nat) := by decide
  have hden : (Decimal.mk 1 16).denominator = 1 := by decide
  have hr := roundUnits_of_representable representable_bound 1 (by decide)
  rw [Nat.mul_one] at hr
  rw [hd, units, hn, hden, hr]

theorem scaled_lt {units u n k : Nat} (hk : 10 ^ k = u * 5 ^ k) (hu : units < 10 ^ n * u) :
    units * 5 ^ k < 10 ^ (n + k) := by
  rw [Nat.pow_add, hk, ← Nat.mul_assoc]
  exact (Nat.mul_lt_mul_right (Nat.pow_pos (by decide))).2 hu

theorem ten_pow_unitBits :
    10 ^ Binary64.unitBits = Binary64.unitsPerOne * 5 ^ Binary64.unitBits := by
  rw [Binary64.unitsPerOne, ← Nat.mul_pow]

theorem exact_point_le {units : Nat} (hu : units < 10 ^ (16 : Nat) * Binary64.unitsPerOne) :
    (exact units).point ≤ 16 := by
  have he : (exact units).exponent + (16 + Binary64.unitBits : Nat) ≤ (16 : Nat) := by
    simp only [exact]
    omega
  exact point_le (by omega) he (scaled_lt ten_pow_unitBits hu)

/-- Below 10^16 the point stands behind sixteen digits at most. The upper neighbour of a
value may be 10^16 itself, but that reads back as no other value. -/
theorem shortest_point_le {units : Nat} (hu : units < 10 ^ (16 : Nat) * Binary64.unitsPerOne) :
    (shortest units).point ≤ 16 := by
  by_cases hz : units = 0
  · subst hz
    decide
  obtain hs | ⟨hunits, i, -, hi⟩ := shortest_cases hz
  · rw [hs]
    exact exact_point_le hu
  · generalize shortest units = d at hunits hi ⊢
    have hl := leadingExponent_lt (by decide) hu
    have he : d.exponent ≤ 15 := by
      rw [(mem_neighbours hi).1]
      omega
    have hle : d.coefficient ≤ 10 ^ (16 - d.exponent).toNat := by
      rw [(mem_neighbours hi).1]
      exact neighbour_le (n := 16) (by omega) hi hu
    have hne : d.coefficient ≠ 10 ^ (16 - d.exponent).toNat := by
      intro hc
      have hb := units_bound (by omega) hc
      omega
    exact point_le (n := 16) (k := (16 - d.exponent).toNat) (by omega) (by omega)
      (Nat.lt_of_le_of_ne hle hne)

theorem shortest_coefficient_ne_zero {units : Nat} (h : Representable units) (hu : units ≠ 0) :
    (shortest units).coefficient ≠ 0 := by
  intro hc
  rw [← units_shortest h, Decimal.units, numerator, hc] at hu
  exact hu (by simp [roundUnits, nearestEven])

theorem shortest_layout {units : Nat} (h : Representable units) :
    (shortest units).digits ≠ [] ∨ 0 < (shortest units).point := by
  by_cases hz : units = 0
  · subst hz
    exact .inr (by decide)
  · refine .inl fun hd => shortest_coefficient_ne_zero h hz ?_
    obtain ⟨z, -, hc, -⟩ := (shortest units).coefficient_eq
    rw [hd, Nat.ofDigitChars_nil, Nat.zero_mul] at hc
    exact hc

end Decimal

-- ---------------------------------------------------------------------------
-- Numbers
-- ---------------------------------------------------------------------------

/-- A number that a source text can spell: an integer that is not too long, or a finite
value without a sign that is printed with a point. -/
inductive Number.Writable : Number → Prop
  | int {n : Nat} (h : n < 10 ^ maxIntegerDigits) : Number.Writable (.int n)
  | float {units : Nat} {h : Representable units}
      (hu : units < 10 ^ (16 : Nat) * Binary64.unitsPerOne) :
      Number.Writable (.float (.finite false units h))

theorem Binary64.toList_plain {units : Nat} (h : Representable units) :
    (Binary64.finite false units h).plain.toList =
      if (Decimal.shortest units).point ≤ 16 then
        positional (Decimal.shortest units).digits (Decimal.shortest units).point
      else whole (Decimal.shortest units).digits (Decimal.shortest units).point.toNat :=
  String.toList_ofList

theorem Binary64.plain_positional {units : Nat} (h : Representable units)
    (hu : units < 10 ^ (16 : Nat) * Binary64.unitsPerOne) :
    (Binary64.finite false units h).plain.toList =
      positional (Decimal.shortest units).digits (Decimal.shortest units).point := by
  rw [toList_plain, if_pos (Decimal.shortest_point_le hu)]

theorem numberValue_toDigits {n : Nat} (h : n < 10 ^ maxIntegerDigits) :
    numberValue (Nat.toDigits 10 n) = .ok (.int n) := by
  have hd : ∀ c ∈ Nat.toDigits 10 n, c.isDigit = true := fun c hc =>
    Nat.isDigit_of_mem_toDigits (by decide) (by decide) hc
  have hdrop : (Nat.toDigits 10 n).dropWhile Char.isDigit = [] := by
    rw [← List.append_nil (Nat.toDigits 10 n), List.dropWhile_append_of_pos hd]
    rfl
  have hlen := (Nat.length_toDigits_le_iff (n := n) (k := maxIntegerDigits) (by decide) (by decide)).2 h
  rw [numberValue, hdrop]
  simp only [if_neg (Nat.not_lt.2 hlen), Nat.ofDigitChars_ten_toDigits]

theorem Number.isNumberText_plain {n : Number} (h : n.Writable) :
    isNumberText n.plain.toList = true := by
  cases h with
  | @int n h =>
    have ht : (Number.int n).plain.toList = Nat.toDigits 10 n := Nat.toList_repr
    rw [ht]
    refine isNumberText_digits Nat.toDigits_ne_nil (List.all_eq_true.2 fun c hc => ?_)
    exact Nat.isDigit_of_mem_toDigits (by decide) (by decide) hc
  | @float units h hu =>
    have ht : (Number.float (.finite false units h)).plain.toList = _ := Binary64.plain_positional h hu
    rw [ht]
    exact (Decimal.numberValue_positional (Decimal.shortest_layout h)).1

/-- The printed number reads as itself. -/
theorem Number.numberValue_plain {n : Number} (h : n.Writable) :
    numberValue n.plain.toList = .ok n := by
  cases h with
  | @int n h =>
    have ht : (Number.int n).plain.toList = Nat.toDigits 10 n := Nat.toList_repr
    rw [ht]
    exact numberValue_toDigits h
  | @float units h hu =>
    have ht : (Number.float (.finite false units h)).plain.toList = _ := Binary64.plain_positional h hu
    rw [ht, (Decimal.numberValue_positional (Decimal.shortest_layout h)).2,
      Decimal.toBinary64_shortest h]

end Lia
