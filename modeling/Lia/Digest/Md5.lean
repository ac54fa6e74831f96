import Lia.Bytes

/-!
# MD5 digests

The digest of a list of bytes, as 32 hexadecimal digits. Asset files are named by
it.
-/

namespace Lia.Md5

open Bytes (littleEndian)

/-- The fractional part of the sine of 1, 2 and so on, in 32 bits. -/
def sines : List UInt32 := [
  0xd76aa478, 0xe8c7b756, 0x242070db, 0xc1bdceee, 0xf57c0faf, 0x4787c62a,
  0xa8304613, 0xfd469501, 0x698098d8, 0x8b44f7af, 0xffff5bb1, 0x895cd7be,
  0x6b901122, 0xfd987193, 0xa679438e, 0x49b40821, 0xf61e2562, 0xc040b340,
  0x265e5a51, 0xe9b6c7aa, 0xd62f105d, 0x02441453, 0xd8a1e681, 0xe7d3fbc8,
  0x21e1cde6, 0xc33707d6, 0xf4d50d87, 0x455a14ed, 0xa9e3e905, 0xfcefa3f8,
  0x676f02d9, 0x8d2a4c8a, 0xfffa3942, 0x8771f681, 0x6d9d6122, 0xfde5380c,
  0xa4beea44, 0x4bdecfa9, 0xf6bb4b60, 0xbebfbc70, 0x289b7ec6, 0xeaa127fa,
  0xd4ef3085, 0x04881d05, 0xd9d4d039, 0xe6db99e5, 0x1fa27cf8, 0xc4ac5665,
  0xf4292244, 0x432aff97, 0xab9423a7, 0xfc93a039, 0x655b59c3, 0x8f0ccc92,
  0xffeff47d, 0x85845dd1, 0x6fa87e4f, 0xfe2ce6e0, 0xa3014314, 0x4e0811a1,
  0xf7537e82, 0xbd3af235, 0x2ad7d2bb, 0xeb86d391]

/-- How far each of the four rounds rotates, in turn. -/
def rotations : List (List UInt32) := [
  [7, 12, 17, 22], [5, 9, 14, 20], [4, 11, 16, 23], [6, 10, 15, 21]]

structure State where
  a : UInt32
  b : UInt32
  c : UInt32
  d : UInt32

def start : State := ⟨0x67452301, 0xefcdab89, 0x98badcfe, 0x10325476⟩

def State.add (s t : State) : State := ⟨s.a + t.a, s.b + t.b, s.c + t.c, s.d + t.d⟩

private def rotateLeft (x n : UInt32) : UInt32 := (x <<< n) ||| (x >>> (32 - n))

/-- What a step mixes of the state, and which word of the chunk it takes. -/
private def mix (s : State) (i : Nat) : UInt32 × Nat :=
  match i / 16 with
  | 0 => ((s.b &&& s.c) ||| (~~~s.b &&& s.d), i)
  | 1 => ((s.d &&& s.b) ||| (~~~s.d &&& s.c), (5 * i + 1) % 16)
  | 2 => (s.b ^^^ s.c ^^^ s.d, (3 * i + 5) % 16)
  | _ => (s.c ^^^ (s.b ||| ~~~s.d), 7 * i % 16)

private def step (words : List UInt32) (s : State) (sine : UInt32 × Nat) : State :=
  let i := sine.2
  let (f, word) := mix s i
  let rotation := ((rotations[i / 16]?.getD [])[i % 4]?).getD 0
  let sum := s.a + f + sine.1 + (words[word]?).getD 0
  ⟨s.d, s.b + rotateLeft sum rotation, s.b, s.c⟩

private def chunk (s : State) (words : List UInt32) : State :=
  s.add (sines.zipIdx.foldl (step words) s)

/-- A one bit, zeros up to 56 bytes of the last chunk, and the length in bits. -/
def pad (bytes : List UInt8) : List UInt8 :=
  let zeros := (119 - bytes.length % 64) % 64
  bytes ++ 0x80 :: List.replicate zeros 0 ++ littleEndian 8 (8 * bytes.length)

private def words : List UInt8 → List UInt32
  | b0 :: b1 :: b2 :: b3 :: rest =>
    (b0.toUInt32 ||| b1.toUInt32 <<< 8 ||| b2.toUInt32 <<< 16 ||| b3.toUInt32 <<< 24) :: words rest
  | _ => []

private def chunks : List UInt32 → State → Nat → State
  | _, s, 0 => s
  | ws, s, n + 1 => chunks (ws.drop 16) (chunk s (ws.take 16)) n

private def hexByte (b : UInt8) : List Char :=
  [Nat.digitChar (b.toNat / 16), Nat.digitChar (b.toNat % 16)]

def digest (bytes : List UInt8) : String :=
  let ws := words (pad bytes)
  let s := chunks ws start (ws.length / 16)
  String.ofList ([s.a, s.b, s.c, s.d].flatMap fun word =>
    (littleEndian 4 word.toNat).flatMap hexByte)

end Lia.Md5
