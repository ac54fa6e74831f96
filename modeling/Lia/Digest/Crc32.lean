/-!
# CRC-32 checksums

The checksum of a list of bytes that archives keep beside a file: the remainder of
its bits, the least of a byte first, by a polynomial over two elements.
-/

namespace Lia.Crc32

/-- The polynomial without its leading term, the highest power in the least bit. -/
def polynomial : UInt32 := 0xEDB88320

private def shift (r : UInt32) : UInt32 :=
  if r &&& 1 = 1 then (r >>> 1) ^^^ polynomial else r >>> 1

private def update (r : UInt32) (b : UInt8) : UInt32 :=
  Nat.repeat shift 8 (r ^^^ b.toUInt32)

def digest (bytes : List UInt8) : UInt32 := ~~~ bytes.foldl update 0xFFFFFFFF

end Lia.Crc32
