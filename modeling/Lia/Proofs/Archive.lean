import Lia.Archive.Reader

/-!
# Archives keep files

What is written into a zip archive is read out of it again: names and contents, in order
(`Archive.unpack_pack`). Lengths in headers are kept to their width, but deflated data ends by
itself, so only the length of a name matters.
-/

namespace Lia.Archive

-- Powers of natural numbers are those of core, whatever else is in scope.
attribute [local instance (high)] instPowNat instNatPowNat

open Bytes (littleEndian)

-- ---------------------------------------------------------------------------
-- Reading
-- ---------------------------------------------------------------------------

/-- Bytes are read as a value, whatever stands behind them. -/
def Reader.Reads (r : Reader α) (bytes : List UInt8) (a : α) : Prop :=
  ∀ rest, r (bytes ++ rest) = some (a, rest)

namespace Reader

theorem Reads.bind {r : Reader α} {f : α → Reader β} (h : r.Reads bytes a)
    (h' : (f a).Reads bytes' b) : (r >>= f).Reads (bytes ++ bytes') b := by
  intro rest
  rw [List.append_assoc]
  simp only [Bind.bind, StateT.bind, h (bytes' ++ rest)]
  exact h' rest

theorem Reads.pure (a : α) : Reads (pure a) [] a := fun _ => rfl

theorem take_reads {n : Nat} {bytes : List UInt8} (h : bytes.length = n) :
    (take n).Reads bytes bytes := by
  intro rest
  subst h
  simp [take]

theorem number_reads {width n : Nat} (h : n < 256 ^ width) :
    (number width).Reads (littleEndian width n) n := by
  have hread := (take_reads (Bytes.littleEndian_length width n)).bind
    (f := fun bytes => Pure.pure (Bytes.toNat bytes)) (.pure _)
  rwa [List.append_nil, Bytes.toNat_littleEndian_of_lt h] at hread

theorem text_reads (s : String) : (text (Bytes.ofText s)).Reads [] s := by
  intro rest
  rw [text, Bytes.toText?_ofText]
  rfl

end Reader

-- ---------------------------------------------------------------------------
-- Data
-- ---------------------------------------------------------------------------

/-- A length within its limit fits into two bytes. -/
theorem size_lt {n : Nat} (h : n ≤ blockLimit) : n < 0x10000 := Nat.lt_succ_of_le h

theorem inflate_block {bytes : List UInt8} (h : bytes.length ≤ blockLimit) (last : Bool)
    (rest : List UInt8) : Reader.inflate (block last bytes ++ rest) =
      if last then some (bytes, rest)
      else (Reader.inflate rest).map fun r => (bytes ++ r.1, r.2) := by
  have hsize : Bytes.toNat (littleEndian 2 bytes.length) = bytes.length :=
    Bytes.toNat_littleEndian_of_lt (size_lt h)
  have hlt : ¬ (bytes ++ rest).length < bytes.length := by simp
  simp only [littleEndian] at hsize
  rw [block]
  simp only [littleEndian, List.cons_append, List.nil_append, Reader.inflate, hsize, if_neg hlt]
  cases last with
  | true => simp
  | false =>
    simp only [Bool.false_eq_true, if_false, List.drop_left, List.take_left]
    cases Reader.inflate rest <;> rfl

theorem inflate_reads (bytes : List UInt8) :
    Reader.Reads Reader.inflate (deflate bytes) bytes := by
  intro rest
  induction bytes using deflate.induct with
  | case1 bytes h => rw [deflate, if_pos h, inflate_block h, if_pos rfl]
  | case2 bytes h ih =>
    have hlength : (bytes.take blockLimit).length ≤ blockLimit := List.length_take_le _ _
    rw [deflate, if_neg h, List.append_assoc, inflate_block hlength, ih]
    simp

-- ---------------------------------------------------------------------------
-- Files
-- ---------------------------------------------------------------------------

theorem description_length (e : Entry) : (description e).length = 22 := by
  simp [description, noTime]

theorem file_reads {e : Entry} (h : (Bytes.ofText e.name).length ≤ Entry.maxNameSize) :
    Reader.file.Reads (record e) e := by
  have hfront : (littleEndian 4 fileSignature ++ description e).length = 26 := by
    simp [description_length]
  have hrecord : record e = (littleEndian 4 fileSignature ++ description e) ++
      (littleEndian 2 (Bytes.ofText e.name).length ++ (littleEndian 2 0 ++
        (Bytes.ofText e.name ++ ([] ++ (deflate (Bytes.ofText e.content) ++ ([] ++ [])))))) := by
    simp [record, header, nameSize]
  rw [hrecord]
  exact (Reader.take_reads hfront).bind ((Reader.number_reads (size_lt h)).bind
    ((Reader.take_reads (Bytes.littleEndian_length 2 0)).bind ((Reader.take_reads rfl).bind
      ((Reader.text_reads e.name).bind ((inflate_reads _).bind
        ((Reader.text_reads e.content).bind (.pure e)))))))

/-- What is not a file ends the files. -/
theorem decode_of_ne {bytes : List UInt8} (h : bytes.take 4 ≠ littleEndian 4 fileSignature) :
    decode bytes = some [] := by
  rw [decode, if_neg h]

theorem decode_record {e : Entry} (h : (Bytes.ofText e.name).length ≤ Entry.maxNameSize)
    (rest : List UInt8) : decode (record e ++ rest) = (decode rest).map (e :: ·) := by
  have hfront : (record e ++ rest).take 4 = littleEndian 4 fileSignature := by
    simp [record, header]
  have hlength : rest.length < (record e ++ rest).length := by
    simp [record, header]
    omega
  rw [decode, if_pos hfront, file_reads h rest]
  simp only
  rw [if_pos hlength]

theorem decode_records {files : List Entry}
    (h : ∀ e ∈ files, (Bytes.ofText e.name).length ≤ Entry.maxNameSize) (rest : List UInt8) :
    decode (files.flatMap record ++ rest) = (decode rest).map (files ++ ·) := by
  induction files with
  | nil => simp
  | cons e files ih =>
    obtain ⟨he, hes⟩ := List.forall_mem_cons.1 h
    rw [List.flatMap_cons, List.append_assoc, decode_record he, ih hes, Option.map_map]
    rfl

-- ---------------------------------------------------------------------------
-- Archives
-- ---------------------------------------------------------------------------

theorem decode_encode {files : List Entry}
    (h : ∀ e ∈ files, (Bytes.ofText e.name).length ≤ Entry.maxNameSize) :
    decode (encode files) = some files := by
  rw [encode, decode_records h, decode_of_ne]
  · simp
  · cases files <;> simp [listing, listed, littleEndian, fileSignature, listingSignature, endSignature]

theorem unpack_pack {files : List Entry} (h : files.all Entry.isPlain = true) :
    unpack (pack files) = some files := by
  rw [unpack, pack, List.toList_toArray]
  refine decode_encode fun e he => ?_
  have hplain := List.all_eq_true.1 h e he
  rw [Entry.isPlain, Entry.isPlainName, Bool.and_eq_true] at hplain
  exact of_decide_eq_true hplain.2

end Lia.Archive

namespace Lia

/-- The archiver that deflates into stored blocks. -/
def Archive.storing : Archiver := ⟨Archive.pack, Archive.unpack, Archive.unpack_pack⟩

end Lia
