import Lia.Bytes
import Lia.Digest.Crc32

/-!
# Archives

An archiver puts named files into one and gets them out again as they were; that is
all that is asked of it (`Archiver`). `Archive.encode` writes a zip archive. Deflated
data is in stored blocks, so it is as long as the file and a few bytes for every
block. Dates are the earliest that the format has.
-/

namespace Lia

structure Entry where
  name : String
  content : String

namespace Entry

/-- The most bytes of a name in an archive. -/
def maxNameSize : Nat := 0xFFFF

/-- Letters, digits and dots, and not too many of them. -/
def isPlainName (name : String) : Bool :=
  name.toList.all (fun c => c.isAlphanum || c = '.') && name.utf8ByteSize ≤ maxNameSize

def isPlain (e : Entry) : Bool := isPlainName e.name

end Entry

/-- The bytes of an archive may depend on how its data is compressed and on when it is
made. The files in it do not. -/
structure Archiver where
  pack : List Entry → ByteArray
  unpack : ByteArray → Option (List Entry)
  unpack_pack {files : List Entry} :
    files.all Entry.isPlain = true → unpack (pack files) = some files

namespace Archive

open Bytes (littleEndian)

-- ---------------------------------------------------------------------------
-- Data
-- ---------------------------------------------------------------------------

/-- The most bytes that a stored block can hold. -/
def blockLimit : Nat := 0xFFFF

/-- A block that holds bytes as they are, behind its length and the complement of it. -/
def block (last : Bool) (bytes : List UInt8) : List UInt8 :=
  (if last then 1 else 0) ::
    (littleEndian 2 bytes.length ++ littleEndian 2 (blockLimit - bytes.length) ++ bytes)

def deflate (bytes : List UInt8) : List UInt8 :=
  if bytes.length ≤ blockLimit then block true bytes
  else block false (bytes.take blockLimit) ++ deflate (bytes.drop blockLimit)
termination_by bytes.length
decreasing_by
  rw [List.length_drop]
  have : 0 < blockLimit := by decide
  omega

-- ---------------------------------------------------------------------------
-- Records
-- ---------------------------------------------------------------------------

/-- The first of January 1980, midnight. -/
def noTime : List UInt8 := littleEndian 2 0 ++ littleEndian 2 0x21

/-- The name is UTF-8. -/
def flags : Nat := 0x800

/-- Every file is deflated. -/
def method : Nat := 8

def fileSignature : Nat := 0x04034B50

def listingSignature : Nat := 0x02014B50

def endSignature : Nat := 0x06054B50

/-- What the header of a file says first, and its entry in the listing as well. -/
def description (e : Entry) : List UInt8 :=
  let bytes := Bytes.ofText e.content
  littleEndian 2 20 ++ littleEndian 2 flags ++ littleEndian 2 method ++ noTime ++
    littleEndian 4 (Crc32.digest bytes).toNat ++ littleEndian 4 (deflate bytes).length ++
    littleEndian 4 bytes.length

/-- How long the name is, and what else there is behind it. -/
def nameSize (e : Entry) : List UInt8 :=
  littleEndian 2 (Bytes.ofText e.name).length ++ littleEndian 2 0

def header (e : Entry) : List UInt8 :=
  littleEndian 4 fileSignature ++ description e ++ nameSize e ++ Bytes.ofText e.name

def record (e : Entry) : List UInt8 := header e ++ deflate (Bytes.ofText e.content)

/-- The entry in the listing for a file at an offset, which its owner may read and
write. -/
def listed (e : Entry) (offset : Nat) : List UInt8 :=
  littleEndian 4 listingSignature ++ littleEndian 2 0x0314 ++ description e ++ nameSize e ++
    littleEndian 2 0 ++ littleEndian 2 0 ++ littleEndian 2 0 ++ littleEndian 4 (0o600 <<< 16) ++
    littleEndian 4 offset ++ Bytes.ofText e.name

/-- The listing of files that stand one after another from an offset on. -/
def listing (offset : Nat) : List Entry → List UInt8
  | [] => []
  | e :: es => listed e offset ++ listing (offset + (record e).length) es

def encode (files : List Entry) : List UInt8 :=
  let records := files.flatMap record
  let listing := listing 0 files
  records ++ (listing ++
    (littleEndian 4 endSignature ++ littleEndian 2 0 ++ littleEndian 2 0 ++
      littleEndian 2 files.length ++ littleEndian 2 files.length ++
      littleEndian 4 listing.length ++ littleEndian 4 records.length ++ littleEndian 2 0))

def pack (files : List Entry) : ByteArray := ⟨(encode files).toArray⟩

end Archive

end Lia
