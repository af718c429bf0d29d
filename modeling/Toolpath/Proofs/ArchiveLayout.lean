import Toolpath.Archive
import Toolpath.Proofs.Checksums

/-! # Archivers that keep to the layout

An archiver is taken to write texts in UTF-8, and to lay out files whose names differ and whose
numbers fit the bytes they are written in (`Archive.Fits`).  The layout leaves time stamps,
versions, flags and attributes open; checksums it does not, each is the cyclic redundancy check of
its file (`Archive.IsLaidOut`).  `Archiver.IsStandard` says all this, and `Archiver.plain` is such
an archiver (`Archiver.isStandard_plain`).
-/
namespace Toolpath

namespace Archive

/-! ## Lengths -/

/-- How many bytes files take behind their local headers. -/
def storedLength (files : List File) : ℕ :=
  (files.map fun file => 30 + (utf8 file.name).length + file.data.length).sum

/-- How many bytes the directory of some files takes. -/
def directoryLength (files : List File) : ℕ :=
  (files.map fun file => 46 + (utf8 file.name).length).sum

theorem length_stored (record : Record) : record.stored.length =
    30 + (utf8 record.file.name).length + record.file.data.length := by
  simp only [Record.stored, Record.header, List.length_append, length_littleEndian]

theorem length_listed (record : Record) (offset : ℕ) :
    (record.listed offset).length = 46 + (utf8 record.file.name).length := by
  simp only [Record.listed, Record.header, List.length_append, length_littleEndian]

theorem length_flatMap_stored (records : List Record) :
    (records.flatMap Record.stored).length = storedLength (records.map Record.file) := by
  simp only [List.length_flatMap, storedLength, List.map_map, Function.comp_def, length_stored]

theorem length_directory (records : List Record) (offset : ℕ) :
    (directory offset records).length = directoryLength (records.map Record.file) := by
  induction records generalizing offset with
  | nil => rfl
  | cons record records ih =>
    rw [directory, List.length_append, length_listed, ih]
    rfl

/-! ## What is laid out -/

/-- Files that can be archived: no two have one name, and no number is too large for its bytes. -/
structure Fits (files : List File) : Prop where
  nodup : (files.map File.name).Nodup
  name : ∀ file ∈ files, (utf8 file.name).length < 256 ^ 2
  count : files.length < 256 ^ 2
  stored : storedLength files < 256 ^ 4
  directory : directoryLength files < 256 ^ 4

/-- Bytes that are an archive of some files, in order. -/
def IsLaidOut (files : List File) (bytes : Bytes) : Prop :=
  ∃ records : List Record, records.map Record.file = files ∧
    (∀ record ∈ records, IsCrc32 record.file.data record.checksum.toNat) ∧ layOut records = bytes

end Archive

namespace Archiver
open Archive

/-- An archiver that writes texts in UTF-8 and keeps to the layout. -/
structure IsStandard (archiver : Archiver) : Prop where
  encode_eq (text : String) : archiver.encode text = utf8 text
  isLaidOut_zip {files : List File} (h : Fits files) : IsLaidOut files (archiver.zip files)

theorem isStandard_plain (stamp : UInt32) : (plain stamp).IsStandard where
  encode_eq _ := rfl
  isLaidOut_zip {files} _ := by
    refine ⟨files.map (Record.plain stamp), ?_, ?_, rfl⟩
    · rw [List.map_map]
      exact List.map_id files
    · exact List.forall_mem_map.mpr fun file _ => isCrc32_crc32 file.data

end Archiver
end Toolpath
