/-!
# Binary64 numbers

A finite value is a whole number of units of 2^-1074, the least positive value,
so rounding and comparing are exact integer arithmetic. `ofRatio` takes the
nearest value to a quotient, the even one of two equally near. Main statements:
rounding gives a representable number (`representable_roundUnits`) and leaves a
representable number alone (`roundUnits_of_representable`). NaN is not among them, see
`Number.nan`.
-/

namespace Lia

-- Powers of natural numbers are those of core, whatever else is in scope.
attribute [local instance (high)] instPowNat instNatPowNat

-- ---------------------------------------------------------------------------
-- Rounding a quotient
-- ---------------------------------------------------------------------------

/-- The integer nearest to `a / b`, the even one when two are equally near. -/
def nearestEven (a b : Nat) : Nat :=
  let q := a / b
  let r := a % b
  if 2 * r < b then q else if b < 2 * r then q + 1 else q + q % 2

theorem le_nearestEven (a b : Nat) : a / b ≤ nearestEven a b := by
  simp only [nearestEven]; split
  · exact Nat.le_refl _
  · split <;> omega

theorem nearestEven_le (a b : Nat) : nearestEven a b ≤ a / b + 1 := by
  simp only [nearestEven]; split
  · omega
  · split <;> omega

theorem nearestEven_of_dvd {a b : Nat} (hb : 0 < b) (h : b ∣ a) : nearestEven a b = a / b := by
  simp [nearestEven, Nat.mod_eq_zero_of_dvd h, hb]

def significandBits : Nat := 53

def significandLimit : Nat := 2 ^ significandBits

/-- How many units apart the values near `units` are. -/
def spacing (units : Nat) : Nat := 2 ^ (units.log2 + 1 - significandBits)

theorem spacing_pos (units : Nat) : 0 < spacing units := Nat.two_pow_pos _

/-- The number of units nearest to `a / b` units among those with so few significant bits. -/
def roundUnits (a b : Nat) : Nat :=
  nearestEven a (b * spacing (a / b)) * spacing (a / b)

-- ---------------------------------------------------------------------------
-- Representable numbers
-- ---------------------------------------------------------------------------

/-- Finite values are less than 2^1024, which is 2^2098 units. -/
def finiteBits : Nat := 2098

/-- A significand times a power of two, inside the finite range. -/
def Representable (units : Nat) : Prop :=
  ∃ m k : Nat, m < significandLimit ∧ k + significandBits ≤ finiteBits ∧ units = m * 2 ^ k

theorem representable_zero : Representable 0 := ⟨0, 0, by decide, by decide, by decide⟩

/-- The least number of units beyond the finite range. -/
def unitsLimit : Nat := 2 ^ finiteBits

private theorem quotient_lt (n : Nat) : n / spacing n < significandLimit := by
  rw [Nat.div_lt_iff_lt_mul (spacing_pos n), significandLimit, spacing, ← Nat.pow_add]
  exact Nat.lt_of_lt_of_le Nat.lt_log2_self (Nat.pow_le_pow_right (by decide) (by omega))

private theorem le_quotient {n : Nat} (h : significandBits ≤ n.log2) :
    significandLimit ≤ 2 * (n / spacing n) := by
  unfold significandBits at h
  have hlow : 2 ^ 52 ≤ n / spacing n := by
    rw [Nat.le_div_iff_mul_le (spacing_pos n), spacing, significandBits, ← Nat.pow_add]
    have hn : n ≠ 0 := by rintro rfl; simp at h
    refine Nat.le_trans (Nat.pow_le_pow_right (by decide) ?_) (Nat.log2_self_le hn)
    omega
  have hlimit : significandLimit = 2 * 2 ^ 52 := by decide
  omega

theorem representable_roundUnits {a b : Nat} (h : roundUnits a b < unitsLimit) :
    Representable (roundUnits a b) := by
  have hq : a / (b * spacing (a / b)) = a / b / spacing (a / b) := (Nat.div_div_eq_div_mul ..).symm
  have hle := nearestEven_le a (b * spacing (a / b))
  have hge := le_nearestEven a (b * spacing (a / b))
  have hlt := quotient_lt (a / b)
  rw [hq] at hle hge
  unfold roundUnits at h ⊢
  unfold unitsLimit at h
  generalize hm : nearestEven a (b * spacing (a / b)) = m at h hle hge ⊢
  have hlimit : significandLimit = 2 ^ 52 * 2 := by decide
  have hm53 : m ≤ significandLimit := by omega
  by_cases hk : significandBits ≤ (a / b).log2
  · have hlow := le_quotient hk
    have h52 : 2 ^ 52 ≤ m := by omega
    have hbound : (a / b).log2 + 1 - significandBits + significandBits ≤ finiteBits := by
      have h1 : 2 ^ (52 + ((a / b).log2 + 1 - significandBits)) < 2 ^ finiteBits := by
        rw [Nat.pow_add]
        exact Nat.lt_of_le_of_lt (Nat.mul_le_mul_right _ h52) h
      have h2 := (Nat.pow_lt_pow_iff_right (by decide)).1 h1
      unfold significandBits at *
      omega
    rcases Nat.lt_or_ge m significandLimit with hlt53 | hge53
    · exact ⟨m, _, hlt53, hbound, rfl⟩
    · have hm' : m = 2 ^ 52 * 2 := by omega
      have h1 : 2 ^ (53 + ((a / b).log2 + 1 - significandBits)) < 2 ^ finiteBits := by
        rw [Nat.pow_add]
        exact Nat.lt_of_le_of_lt (Nat.mul_le_mul_right _ hge53) h
      have h2 := (Nat.pow_lt_pow_iff_right (by decide)).1 h1
      refine ⟨2 ^ 52, (a / b).log2 + 1 - significandBits + 1, by decide, ?_, ?_⟩
      · unfold significandBits at *
        omega
      · rw [hm', Nat.pow_succ, Nat.mul_assoc, Nat.mul_comm 2]
        rfl
  · have hs : spacing (a / b) = 1 := by
      unfold spacing
      rw [show (a / b).log2 + 1 - significandBits = 0 by omega, Nat.pow_zero]
    rw [hs, Nat.mul_one]
    rcases Nat.lt_or_ge m significandLimit with hlt53 | hge53
    · exact ⟨m, 0, hlt53, by decide, by simp⟩
    · exact ⟨2 ^ 52, 1, by decide, by decide, by omega⟩

theorem Representable.spacing_dvd {units : Nat} (h : Representable units) :
    spacing units ∣ units := by
  obtain ⟨m, k, hm, _, rfl⟩ := h
  rcases Nat.eq_zero_or_pos m with rfl | hpos
  · simp
  · have hne : m * 2 ^ k ≠ 0 := Nat.ne_of_gt (Nat.mul_pos hpos (Nat.two_pow_pos k))
    have hlog : (m * 2 ^ k).log2 < significandBits + k := by
      rw [Nat.log2_lt hne, Nat.pow_add]
      exact (Nat.mul_lt_mul_right (Nat.two_pow_pos k)).2 hm
    exact Nat.dvd_trans (Nat.pow_dvd_pow 2 (by omega)) (Nat.dvd_mul_left ..)

/-- A number that is representable already is its own rounding. -/
theorem roundUnits_of_representable {units : Nat} (h : Representable units) (b : Nat)
    (hb : 0 < b) : roundUnits (units * b) b = units := by
  obtain ⟨c, hc⟩ := h.spacing_dvd
  have hs := spacing_pos units
  unfold roundUnits
  rw [Nat.mul_div_cancel _ hb]
  have hdvd : b * spacing units ∣ units * b := ⟨c, by
    conv => lhs; rw [hc]
    rw [Nat.mul_comm, Nat.mul_assoc]⟩
  rw [nearestEven_of_dvd (Nat.mul_pos hb hs) hdvd, Nat.mul_comm units b,
    Nat.mul_div_mul_left _ _ hb, Nat.div_mul_cancel h.spacing_dvd]

private theorem mul_two_pow_lt {m k n : Nat} (hm : m < significandLimit)
    (h : significandBits + k ≤ n) : m * 2 ^ k < 2 ^ n := by
  refine Nat.lt_of_lt_of_le ((Nat.mul_lt_mul_right (Nat.two_pow_pos k)).2 hm) ?_
  rw [significandLimit, ← Nat.pow_add]
  exact Nat.pow_le_pow_right (by decide) h

theorem Representable.lt_limit {units : Nat} (h : Representable units) : units < unitsLimit := by
  obtain ⟨m, k, hm, hk, rfl⟩ := h
  exact mul_two_pow_lt hm (by omega)

-- ---------------------------------------------------------------------------
-- Values
-- ---------------------------------------------------------------------------

/-- A finite value with a sign (zero has both), or an infinity. -/
inductive Binary64
  | finite (negative : Bool) (units : Nat) (representable : Representable units)
  | infinite (negative : Bool)
  deriving DecidableEq

namespace Binary64

/-- A unit is two to the power of minus this. -/
def unitBits : Nat := 1074

def unitsPerOne : Nat := 2 ^ unitBits

def zero : Binary64 := .finite false 0 representable_zero

instance : Inhabited Binary64 := ⟨zero⟩

def negative : Binary64 → Bool
  | .finite n _ _ | .infinite n => n

/-- The value nearest to a number of units given as a quotient; an infinity
beyond the finite range. -/
def ofUnits (negative : Bool) (a b : Nat) : Binary64 :=
  if h : roundUnits a b < unitsLimit then
    .finite negative (roundUnits a b) (representable_roundUnits h)
  else .infinite negative

def ofRatio (negative : Bool) (a b : Nat) : Binary64 := ofUnits negative (a * unitsPerOne) b

theorem ofUnits_of_representable (negative : Bool) {units : Nat} (h : Representable units)
    (b : Nat) (hb : 0 < b) : ofUnits negative (units * b) b = .finite negative units h := by
  have hr := roundUnits_of_representable h b hb
  simp [ofUnits, hr, h.lt_limit]

end Binary64

-- ---------------------------------------------------------------------------
-- Exact comparison
-- ---------------------------------------------------------------------------

/-- The exact numerical value, finite ones in units of 2^-1074. -/
inductive Magnitude
  | finite (units : Int)
  | infinite (negative : Bool)
  deriving DecidableEq

/-- Both zeros have the same magnitude. -/
def Binary64.magnitude : Binary64 → Magnitude
  | .finite false units _ => .finite units
  | .finite true units _ => .finite (-(units : Int))
  | .infinite negative => .infinite negative

end Lia
