import Lia.Number.Binary64

/-!
# Decimal text of binary64 numbers

`shortest` chooses the decimal that stands for a finite value: the fewest
digits that read back, of those the nearest, of two equally near the even one.
Main statement: what it chooses always reads back (`units_shortest`).
`Binary64.text` writes it the general way, with an exponent for large and small
values; `Binary64.plain` never uses an exponent.
-/

namespace Lia

-- Powers of natural numbers are those of core, whatever else is in scope.
attribute [local instance (high)] instPowNat instNatPowNat

/-- The number `coefficient * 10 ^ exponent`. -/
structure Decimal where
  coefficient : Nat
  exponent : Int
  deriving DecidableEq, Repr

namespace Decimal

-- ---------------------------------------------------------------------------
-- Reading
-- ---------------------------------------------------------------------------

def numerator (d : Decimal) : Nat := d.coefficient * 10 ^ d.exponent.toNat

def denominator (d : Decimal) : Nat := 10 ^ (-d.exponent).toNat

theorem denominator_pos (d : Decimal) : 0 < d.denominator := Nat.pow_pos (by decide)

def units (d : Decimal) : Nat := roundUnits (d.numerator * Binary64.unitsPerOne) d.denominator

def toBinary64 (d : Decimal) (negative : Bool) : Binary64 :=
  Binary64.ofRatio negative d.numerator d.denominator

-- ---------------------------------------------------------------------------
-- The shortest decimal
-- ---------------------------------------------------------------------------

/-- The whole expansion of a number of units, which always ends. -/
def exact (units : Nat) : Decimal := ⟨units * 5 ^ Binary64.unitBits, -Binary64.unitBits⟩

theorem units_exact {units : Nat} (h : Representable units) : (exact units).units = units := by
  have hn : (exact units).numerator = units * 5 ^ Binary64.unitBits := by
    simp [numerator, exact]
  have hd : (exact units).denominator = 5 ^ Binary64.unitBits * Binary64.unitsPerOne := by
    simp [denominator, exact, Binary64.unitsPerOne, ← Nat.mul_pow]
  rw [Decimal.units, hn, hd, Nat.mul_assoc]
  exact roundUnits_of_representable h _
    (Nat.mul_pos (Nat.pow_pos (by decide)) (Nat.two_pow_pos _))

/-- The power of ten of the first digit of a positive number of units. -/
def leadingExponent (units : Nat) : Int :=
  if Binary64.unitsPerOne ≤ units then
    ((Nat.toDigits 10 (units / Binary64.unitsPerOne)).length : Int) - 1
  else -((Nat.toDigits 10 ((Binary64.unitsPerOne - 1) / units)).length : Int)

/-- The two multiples of `10 ^ exponent` around a number of units, the nearer
one first; the even one first if they are equally near. -/
def neighbours (units : Nat) (exponent : Int) : List Decimal :=
  let num := units * 10 ^ (-exponent).toNat
  let den := Binary64.unitsPerOne * 10 ^ exponent.toNat
  let q := num / den
  let r := num % den
  if 2 * r < den ∨ (2 * r = den ∧ q % 2 = 0) then [⟨q, exponent⟩, ⟨q + 1, exponent⟩]
  else [⟨q + 1, exponent⟩, ⟨q, exponent⟩]

/-- Seventeen digits always tell a value from its neighbours, so the whole
expansion is never needed; it makes the choice total. -/
def shortest (units : Nat) : Decimal :=
  if units = 0 then ⟨0, 0⟩ else
  let candidates := (List.range 17).flatMap fun i : Nat =>
    neighbours units (leadingExponent units - i)
  (candidates.find? fun d => d.units = units).getD (exact units)

theorem units_shortest {units : Nat} (h : Representable units) :
    (shortest units).units = units := by
  unfold shortest
  split
  · subst units
    simp [Decimal.units, numerator, roundUnits, nearestEven, denominator]
  · simp only
    cases hf : List.find? (fun d : Decimal => decide (d.units = units))
        ((List.range 17).flatMap fun i : Nat => neighbours units (leadingExponent units - i)) with
    | none => exact units_exact h
    | some d => simpa using List.find?_some hf

theorem toBinary64_shortest {units : Nat} (h : Representable units) (negative : Bool) :
    (shortest units).toBinary64 negative = .finite negative units h := by
  have hu : roundUnits ((shortest units).numerator * Binary64.unitsPerOne)
      (shortest units).denominator = units := units_shortest h
  simp [toBinary64, Binary64.ofRatio, Binary64.ofUnits, hu, h.lt_limit]

-- ---------------------------------------------------------------------------
-- Digits and their layout
-- ---------------------------------------------------------------------------

/-- The digits without the zeros that end the coefficient; none for zero. -/
def digits (d : Decimal) : List Char :=
  ((Nat.toDigits 10 d.coefficient).reverse.dropWhile (· = '0')).reverse

/-- Where the decimal point stands, counted from the first digit: the number is
`0.` digits times ten to this power. -/
def point (d : Decimal) : Int := (Nat.toDigits 10 d.coefficient).length + d.exponent

end Decimal

/-- Digits around a decimal point, with at least one digit on each side. -/
def positional (digits : List Char) (point : Int) : List Char :=
  if point ≤ 0 then '0' :: '.' :: (List.replicate (-point).toNat '0' ++ digits)
  else
    let n := point.toNat
    let fraction := digits.drop n
    digits.take n ++ List.replicate (n - digits.length) '0' ++
      '.' :: (if fraction = [] then ['0'] else fraction)

/-- Digits followed by the zeros up to a decimal point that is not written. -/
def whole (digits : List Char) (point : Nat) : List Char :=
  digits ++ List.replicate (point - digits.length) '0'

/-- One digit before the point, and an exponent with a sign and two digits or
more. -/
def scientific (digits : List Char) (point : Int) : List Char :=
  let exponent := point - 1
  let size := Nat.toDigits 10 exponent.natAbs
  digits.take 1 ++ (if digits.length ≤ 1 then [] else '.' :: digits.drop 1) ++
    ['e', if exponent < 0 then '-' else '+'] ++ List.replicate (2 - size.length) '0' ++ size

/-- The values from 0.0001 on and below 10^16 are written without an exponent. -/
def isPositional (point : Int) : Bool := -4 < point && point ≤ 16

namespace Binary64

private def signed (negative : Bool) (body : List Char) : String :=
  String.ofList (if negative then '-' :: body else body)

/-- The shortest text; a value without an exponent always has a point. -/
def text : Binary64 → String
  | .finite negative units _ =>
    let d := Decimal.shortest units
    signed negative
      (if isPositional d.point then positional d.digits d.point else scientific d.digits d.point)
  | .infinite negative => signed negative "inf".toList

/-- The same digits without an exponent; a large value then has no point. -/
def plain : Binary64 → String
  | .finite negative units _ =>
    let d := Decimal.shortest units
    signed negative
      (if d.point ≤ 16 then positional d.digits d.point else whole d.digits d.point.toNat)
  | .infinite negative => signed negative "Infinity".toList

end Binary64

end Lia
