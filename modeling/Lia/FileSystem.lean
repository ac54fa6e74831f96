/-!
# File systems

What a run asks of the system it runs on: to read a file by its name, and to write one.
`FileSystem.Files` is what it relies on. How names lead to files is left to the system;
in a single folder every name leads to a file of its own (`FileSystem.folder`).
-/

namespace Lia

inductive FileError
  /-- There is no name at all, not even an empty one. -/
  | unnamed
  | system (reason : String)
  deriving DecidableEq

def FileError.message : FileError → String
  | .unnamed => "no file name"
  | .system reason => reason

structure FileSystem (σ : Type) where
  read : σ → String → Except FileError ByteArray
  /-- A write that fails may leave something behind. -/
  write : σ → String → ByteArray → Except FileError Unit × σ

/-- The files behind the names. Several names may stand for one file, and a name stands for
none if what it leads to keeps nothing, like a device. -/
structure FileSystem.Files (fs : FileSystem σ) where
  File : Type
  /-- The file that a name stands for, whether it is there or would be made. -/
  file? : σ → String → Option File
  content? : σ → File → Option ByteArray
  content?_of_read {s : σ} {name : String} {f : File} {bytes : ByteArray} :
    fs.read s name = .ok bytes → file? s name = some f → content? s f = some bytes
  content?_write {s : σ} {name : String} {f : File} {bytes : ByteArray} :
    (fs.write s name bytes).1 = .ok () → file? s name = some f →
      content? (fs.write s name bytes).2 f = some bytes
  /-- Whether it fails or not, a write leaves all other files as they are. -/
  content?_write_of_ne {s : σ} {name : String} {f : File} {bytes : ByteArray} :
    file? s name ≠ some f → content? (fs.write s name bytes).2 f = content? s f

-- ---------------------------------------------------------------------------
-- A folder
-- ---------------------------------------------------------------------------

/-- The files of a folder by their names. -/
abbrev Folder := List (String × ByteArray)

def Folder.write (files : Folder) (name : String) (bytes : ByteArray) : Folder :=
  (name, bytes) :: files.filter (·.1 ≠ name)

theorem Folder.lookup_write_of_ne {files : Folder} {name other : String} {bytes : ByteArray}
    (h : name ≠ other) : (files.write name bytes).lookup other = files.lookup other := by
  have hne {file : String} (hf : file = name) : (other == file) = false :=
    beq_false_of_ne (hf ▸ Ne.symm h)
  rw [write, List.lookup_cons, hne rfl]
  induction files with
  | nil => rfl
  | cons f files ih =>
    by_cases hf : f.1 = name
    · rw [List.filter_cons_of_neg (by simpa using hf), List.lookup_cons, hne hf]
      exact ih
    · rw [List.filter_cons_of_pos (by simpa using hf), List.lookup_cons, List.lookup_cons]
      cases other == f.1
      · exact ih
      · rfl

namespace FileSystem

def folder : FileSystem Folder where
  read files name :=
    match files.lookup name with
    | some bytes => .ok bytes
    | none => .error (.system "no such file")
  write files name bytes := (.ok (), files.write name bytes)

theorem folder_read {files : Folder} {name : String} {bytes : ByteArray} :
    folder.read files name = .ok bytes ↔ files.lookup name = some bytes := by
  simp only [folder]
  cases files.lookup name <;> simp

def Files.folder : FileSystem.folder.Files where
  File := String
  file? _ name := some name
  content? files name := files.lookup name
  content?_of_read hr hf := by
    cases hf
    exact folder_read.1 hr
  content?_write _ hf := by
    cases hf
    exact List.lookup_cons_self
  content?_write_of_ne hf := Folder.lookup_write_of_ne fun h => hf (congrArg some h)

end FileSystem

end Lia
