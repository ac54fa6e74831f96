/-!
# Numbers and texts as bytes

A number has a fixed width, the least byte first. A text is UTF-8.
-/

namespace Lia.Bytes

-- Powers of natural numbers are those of core, whatever else is in scope.
attribute [local instance (high)] instPowNat instNatPowNat

/-- A number in so many bytes; what does not fit is dropped. -/
def littleEndian : Nat → Nat → List UInt8
  | 0, _ => []
  | width + 1, n => UInt8.ofNat n :: littleEndian width (n / 256)

@[simp] theorem littleEndian_length (width n : Nat) : (littleEndian width n).length = width := by
  induction width generalizing n with
  | zero => rfl
  | succ width ih => simp [littleEndian, ih]

def toNat : List UInt8 → Nat
  | [] => 0
  | b :: bs => b.toNat + 256 * toNat bs

theorem toNat_littleEndian (width n : Nat) : toNat (littleEndian width n) = n % 256 ^ width := by
  induction width generalizing n with
  | zero => simp [littleEndian, toNat, Nat.mod_one]
  | succ width ih =>
    simp only [littleEndian, toNat, ih, Nat.pow_succ', UInt8.toNat_ofNat']
    exact (Nat.mod_mul ..).symm

theorem toNat_littleEndian_of_lt {width n : Nat} (h : n < 256 ^ width) :
    toNat (littleEndian width n) = n := by
  rw [toNat_littleEndian, Nat.mod_eq_of_lt h]

def ofText (s : String) : List UInt8 := s.toUTF8.data.toList

def toText? (bytes : List UInt8) : Option String := String.fromUTF8? ⟨bytes.toArray⟩

theorem fromUTF8?_toUTF8 (s : String) : String.fromUTF8? s.toUTF8 = some s := by
  simp only [String.fromUTF8?, String.toUTF8_eq_toByteArray, dif_pos s.isValidUTF8]
  rfl

@[simp] theorem toText?_ofText (s : String) : toText? (ofText s) = some s := fromUTF8?_toUTF8 s

end Lia.Bytes
