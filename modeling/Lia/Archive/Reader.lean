import Lia.Archive

/-!
# Reading archives

What a zip archive holds, from its first byte on: the files that stand one after
another, up to the listing. Only data in stored blocks is read, and no checksum is
compared.
-/

namespace Lia.Archive

/-- Reads from the front of bytes and leaves the rest. -/
abbrev Reader := StateT (List UInt8) Option

namespace Reader

def take (n : Nat) : Reader (List UInt8) := fun bytes =>
  if n ≤ bytes.length then some (bytes.splitAt n) else none

def number (width : Nat) : Reader Nat := do return Bytes.toNat (← take width)

def text (bytes : List UInt8) : Reader String := fun rest =>
  (Bytes.toText? bytes).map fun s => (s, rest)

/-- The data of blocks up to the last one. -/
def inflate (bytes : List UInt8) : Option (List UInt8 × List UInt8) :=
  match bytes with
  | last :: size0 :: size1 :: _ :: _ :: bytes =>
    let size := Bytes.toNat [size0, size1]
    if bytes.length < size then none
    else if last = 1 then some (bytes.splitAt size)
    else do
      let (more, rest) ← inflate (bytes.drop size)
      return (bytes.take size ++ more, rest)
  | _ => none
termination_by bytes.length
decreasing_by
  rw [List.length_drop]
  simp only [List.length_cons]
  omega

def file : Reader Entry := do
  let _ ← take 26
  let size ← number 2
  let _ ← take 2
  let name ← text (← take size)
  let content ← text (← inflate)
  return ⟨name, content⟩

end Reader

def decode (bytes : List UInt8) : Option (List Entry) :=
  if bytes.take 4 = Bytes.littleEndian 4 fileSignature then
    match Reader.file bytes with
    | some (e, rest) => if rest.length < bytes.length then (decode rest).map (e :: ·) else none
    | none => none
  else some []
termination_by bytes.length

def unpack (archive : ByteArray) : Option (List Entry) := decode archive.data.toList

end Lia.Archive
