import Toolpath.Proofs.ArchiveLayout
import Toolpath.Proofs.ProgramTexts

/-! # Archives read back

An archive is read from its end.  The last bytes say where the directory begins, how long it is and
how many entries it has; the directory says where each entry lies; and at that place the entry
stands behind a header of its own.  `Archive.read?` goes by these places alone, and of what is laid
out it finds every file (`Archive.read?_layOut`), as long as every number fits the bytes that it is
written in.  So whatever standard archiver makes the archive of a compilation, its program and its
manifest are read back from it (`Compilation.read?_exportArchive`).
-/
namespace Toolpath

/-! ## Readers -/

/-- The number that some bytes stand for, the lowest of them first. -/
def ofLittleEndian : Bytes → Nat
  | [] => 0
  | byte :: rest => byte.toNat + 256 * ofLittleEndian rest

theorem ofLittleEndian_littleEndian {count n : Nat} (h : n < 256 ^ count) :
    ofLittleEndian (littleEndian count n) = n := by
  induction count generalizing n with
  | zero =>
    rw [pow_zero] at h
    rw [littleEndian, ofLittleEndian]
    omega
  | succ count ih =>
    have hrest : n / 256 < 256 ^ count := by
      rw [pow_succ] at h
      exact Nat.div_lt_of_lt_mul (by rwa [Nat.mul_comm])
    rw [littleEndian, ofLittleEndian, ih hrest, UInt8.toNat_ofNat']
    exact Nat.mod_add_div n 256

/-- What takes bytes from the front of a sequence, unless it fails. -/
abbrev Reader : Type → Type := StateT Bytes Option

/-- As many bytes as are asked for. -/
def bytes? (count : Nat) : Reader Bytes := fun bytes =>
  if count ≤ bytes.length then some (bytes.take count, bytes.drop count) else none

/-- A number of so many bytes. -/
def number? (count : Nat) : Reader Nat := ofLittleEndian <$> bytes? count

/-- The four bytes in front of a record. -/
def mark? (mark : Nat) : Reader Unit := do
  let found ← number? 4
  if found = mark then pure () else failure

/-- A reader takes some bytes for a value, whatever stands behind them. -/
def Takes {α : Type} (reader : Reader α) (bytes : Bytes) (value : α) : Prop :=
  ∀ rest, reader.run (bytes ++ rest) = some (value, rest)

namespace Takes
variable {α β : Type} {reader : Reader α} {next : α → Reader β} {front behind : Bytes} {x : α}
  {y : β}

theorem pure (x : α) : Takes (Pure.pure x) [] x := fun _ => rfl

theorem bind (hfirst : Takes reader front x) (hnext : Takes (next x) behind y) :
    Takes (reader >>= next) (front ++ behind) y := by
  intro rest
  rw [StateT.run_bind, List.append_assoc, hfirst (behind ++ rest)]
  exact hnext rest

/-- The last part of a record. -/
theorem bind_pure {f : α → β} (h : Takes reader front x) :
    Takes (reader >>= fun value => Pure.pure (f value)) front (f x) := by
  have hpure : Takes (reader >>= fun value => Pure.pure (f value)) (front ++ []) (f x) :=
    h.bind (.pure (f x))
  rwa [List.append_nil] at hpure

/-- Nothing is left of bytes that are taken in full. -/
theorem run_eq (h : Takes reader front x) : reader.run front = some (x, []) := by
  have hrun := h []
  rwa [List.append_nil] at hrun

theorem bytes {chunk : Bytes} {count : Nat} (h : chunk.length = count) :
    Takes (bytes? count) chunk chunk := by
  intro rest
  have hrun : (bytes? count).run (chunk ++ rest) = if count ≤ (chunk ++ rest).length then
      some ((chunk ++ rest).take count, (chunk ++ rest).drop count) else none := rfl
  have hle : chunk.length ≤ (chunk ++ rest).length := by
    rw [List.length_append]
    exact Nat.le_add_right _ _
  rw [hrun, ← h, if_pos hle, List.take_left, List.drop_left]

theorem number (count n : Nat) (h : n < 256 ^ count) :
    Takes (number? count) (littleEndian count n) n := by
  have hbytes : Takes (number? count) (littleEndian count n)
      (ofLittleEndian (littleEndian count n)) :=
    (Takes.bytes (length_littleEndian count n)).bind_pure
  rwa [ofLittleEndian_littleEndian h] at hbytes

/-- A value that is only taken where a condition holds. -/
theorem guarded {p : Prop} [Decidable p] (h : p) (x : α) :
    Takes (if p then Pure.pure x else failure) [] x := by
  rw [if_pos h]
  exact .pure x

theorem mark (mark : Nat) (h : mark < 256 ^ 4) : Takes (mark? mark) (littleEndian 4 mark) () := by
  have hread : Takes (mark? mark) (littleEndian 4 mark ++ []) () :=
    (Takes.number 4 mark h).bind (.guarded rfl ())
  rwa [List.append_nil] at hread

end Takes

namespace Archive

/-! ## Records -/

/-- The fields that the two headers of a file share. -/
structure Header where
  version : Nat
  flags : Nat
  stamp : Nat
  checksum : Nat
  storedSize : Nat
  size : Nat
  nameLength : Nat
  extraLength : Nat
  deriving DecidableEq

/-- A header is only read where the data are neither compressed nor altered. -/
def header? : Reader Header := do
  let version ← number? 2
  let flags ← number? 2
  let method ← number? 2
  let stamp ← number? 4
  let checksum ← number? 4
  let storedSize ← number? 4
  let size ← number? 4
  let nameLength ← number? 2
  let extraLength ← number? 2
  if method = 0 ∧ flags &&& alteringFlags.toNat = 0 then
    return { version, flags, stamp, checksum, storedSize, size, nameLength, extraLength }
  else failure

/-- An entry of the directory. -/
structure Listing where
  header : Header
  offset : Nat
  name : Bytes
  deriving DecidableEq

/-- An entry of the directory.  Who laid it out, the number of the disk and the attributes
do not matter here, nor do an extra field and a comment. -/
def listing? : Reader Listing := do
  mark? 0x02014B50
  let _ ← number? 2
  let header ← header?
  let commentLength ← number? 2
  let _ ← number? 2
  let _ ← number? 2
  let _ ← number? 4
  let offset ← number? 4
  let name ← bytes? header.nameLength
  let _ ← bytes? header.extraLength
  let _ ← bytes? commentLength
  return { header, offset, name }

def listings? : Nat → Reader (List Listing)
  | 0 => pure []
  | count + 1 => do
    let listing ← listing?
    let others ← listings? count
    return listing :: others

/-- A file where it is stored. -/
structure Stored where
  header : Header
  name : Bytes
  data : Bytes
  deriving DecidableEq

def stored? : Reader Stored := do
  mark? 0x04034B50
  let header ← header?
  let name ← bytes? header.nameLength
  let _ ← bytes? header.extraLength
  let data ← bytes? header.storedSize
  return { header, name, data }

/-- What ends an archive. -/
structure Ending where
  count : Nat
  size : Nat
  offset : Nat
  deriving DecidableEq

def ending? : Reader Ending := do
  mark? 0x06054B50
  let _ ← number? 2
  let _ ← number? 2
  let _ ← number? 2
  let count ← number? 2
  let size ← number? 4
  let offset ← number? 4
  let commentLength ← number? 2
  let _ ← bytes? commentLength
  return { count, size, offset }

/-- The bytes that the end of an archive takes without a comment. -/
def endingLength : Nat := 22

/-- What an archive says of a file in its directory, and what it has stored. -/
structure Member where
  listing : Listing
  stored : Stored
  deriving DecidableEq

/-- The file that is stored where the directory says. -/
def member? (bytes : Bytes) (listing : Listing) : Option Member :=
  (stored?.run (bytes.drop listing.offset)).map fun found => { listing, stored := found.1 }

/-- The members of an archive.  The directory has to be as long as the end of the archive says. -/
def read? (bytes : Bytes) : Option (List Member) := do
  let (ending, []) ← ending?.run (bytes.drop (bytes.length - endingLength)) | none
  let (listings, []) ← (listings? ending.count).run
    ((bytes.drop ending.offset).take ending.size) | none
  listings.mapM (member? bytes)

/-! ## What is laid out -/

/-- A header of a file as it is read. -/
def Record.fields (record : Record) (stamp : UInt32) : Header where
  version := record.version.toNat
  flags := record.flags.toNat
  stamp := stamp.toNat
  checksum := record.checksum.toNat
  storedSize := record.file.data.length
  size := record.file.data.length
  nameLength := (utf8 record.file.name).length
  extraLength := 0

/-- A file as it is read. -/
def Record.member (record : Record) (offset : Nat) : Member where
  listing :=
    { header := record.fields record.listedStamp, offset, name := utf8 record.file.name }
  stored :=
    { header := record.fields record.storedStamp, name := utf8 record.file.name,
      data := record.file.data }

/-- Files as they are read, the first of which lies at an offset. -/
def members (offset : Nat) : List Record → List Member
  | [] => []
  | record :: rest => record.member offset :: members (offset + record.stored.length) rest

/-- A file whose lengths fit the header. -/
structure Record.Fits (record : Record) : Prop where
  name : (utf8 record.file.name).length < 256 ^ 2
  data : record.file.data.length < 256 ^ 4

theorem takes_header {record : Record} (h : record.Fits) (stamp : UInt32) :
    Takes header? (record.header stamp) (record.fields stamp) := by
  have hversion : record.version.toNat < 256 ^ 2 := UInt16.toNat_lt _
  have hflags : record.flags.toNat < 256 ^ 2 := UInt16.toNat_lt _
  have hstamp : stamp.toNat < 256 ^ 4 := UInt32.toNat_lt _
  have hchecksum : record.checksum.toNat < 256 ^ 4 := UInt32.toNat_lt _
  have hunaltered : record.flags.toNat &&& alteringFlags.toNat = 0 := by
    rw [← UInt16.toNat_and, record.unaltered]
    rfl
  have hread : Takes header? _ (record.fields stamp) :=
    (Takes.number 2 _ hversion).bind <|
    (Takes.number 2 _ hflags).bind <|
    (Takes.number 2 0 (by decide)).bind <|
    (Takes.number 4 _ hstamp).bind <|
    (Takes.number 4 _ hchecksum).bind <|
    (Takes.number 4 _ h.data).bind <|
    (Takes.number 4 _ h.data).bind <|
    (Takes.number 2 _ h.name).bind <|
    (Takes.number 2 0 (by decide)).bind <|
    .guarded ⟨rfl, hunaltered⟩ _
  simpa only [Record.header, List.append_assoc, List.append_nil] using hread

/-- An entry of the directory is taken for what was laid out there. -/
theorem takes_listing {record : Record} (h : record.Fits) (offset : Nat)
    (hoffset : offset < 256 ^ 4) :
    Takes listing? (record.listed offset) (record.member offset).listing := by
  have hcreator : record.creator.toNat < 256 ^ 2 := UInt16.toNat_lt _
  have hinternal : record.internalAttributes.toNat < 256 ^ 2 := UInt16.toNat_lt _
  have hexternal : record.externalAttributes.toNat < 256 ^ 4 := UInt32.toNat_lt _
  have hread : Takes listing? _ (record.member offset).listing :=
    (Takes.mark 0x02014B50 (by decide)).bind <|
    (Takes.number 2 _ hcreator).bind <|
    (takes_header h record.listedStamp).bind <|
    (Takes.number 2 0 (by decide)).bind <|
    (Takes.number 2 0 (by decide)).bind <|
    (Takes.number 2 _ hinternal).bind <|
    (Takes.number 4 _ hexternal).bind <|
    (Takes.number 4 offset hoffset).bind <|
    (Takes.bytes rfl).bind <|
    (Takes.bytes List.length_nil).bind <|
    (Takes.bytes List.length_nil).bind_pure
  simpa only [Record.listed, List.append_assoc, List.append_nil] using hread

/-- A stored file is taken for what was put in. -/
theorem takes_stored {record : Record} (h : record.Fits) (offset : Nat) :
    Takes stored? record.stored (record.member offset).stored := by
  have hread : Takes stored? _ (record.member offset).stored :=
    (Takes.mark 0x04034B50 (by decide)).bind <|
    (takes_header h record.storedStamp).bind <|
    (Takes.bytes rfl).bind <|
    (Takes.bytes List.length_nil).bind <|
    (Takes.bytes rfl).bind_pure
  simpa only [Record.stored, List.append_assoc, List.append_nil, List.nil_append] using hread

theorem takes_ending {count size offset : Nat} (hcount : count < 256 ^ 2) (hsize : size < 256 ^ 4)
    (hoffset : offset < 256 ^ 4) :
    Takes ending? (ending count size offset) { count, size, offset } := by
  have hread : Takes ending? _ { count, size, offset } :=
    (Takes.mark 0x06054B50 (by decide)).bind <|
    (Takes.number 2 0 (by decide)).bind <|
    (Takes.number 2 0 (by decide)).bind <|
    (Takes.number 2 count hcount).bind <|
    (Takes.number 2 count hcount).bind <|
    (Takes.number 4 size hsize).bind <|
    (Takes.number 4 offset hoffset).bind <|
    (Takes.number 2 0 (by decide)).bind <|
    (Takes.bytes List.length_nil).bind_pure
  simpa only [ending, List.append_assoc, List.append_nil] using hread

theorem length_ending (count size offset : Nat) :
    (ending count size offset).length = endingLength := by
  simp only [ending, List.length_append, length_littleEndian, endingLength]

/-! ## Whole archives -/

theorem length_data_le {files : List File} {file : File} (h : file ∈ files) :
    file.data.length ≤ storedLength files := by
  obtain ⟨front, behind, rfl⟩ := List.append_of_mem h
  rw [storedLength, List.map_append, List.map_cons, List.sum_append, List.sum_cons]
  omega

/-- Where all that is stored fits, so does every file. -/
theorem Fits.record {records : List Record} (h : Fits (records.map Record.file)) :
    ∀ record ∈ records, record.Fits := by
  intro record hrecord
  have hfile := List.mem_map_of_mem (f := Record.file) hrecord
  exact ⟨h.name _ hfile, (length_data_le hfile).trans_lt h.stored⟩

/-- The directory is taken entry by entry: each file has the offset at which it is stored. -/
theorem takes_listings {records : List Record} (h : ∀ record ∈ records, record.Fits) (offset : Nat)
    (hoffset : offset + (records.flatMap Record.stored).length < 256 ^ 4) :
    Takes (listings? records.length) (directory offset records)
      ((members offset records).map Member.listing) := by
  induction records generalizing offset with
  | nil => exact .pure []
  | cons record records ih =>
    rw [List.flatMap_cons, List.length_append] at hoffset
    have hfirst := takes_listing (h record List.mem_cons_self) offset (by omega)
    have hothers := ih (fun other hother => h other (List.mem_cons_of_mem _ hother))
      (offset + record.stored.length) (by omega)
    exact hfirst.bind hothers.bind_pure

/-- Every file is found behind all those that are stored in front of it. -/
theorem mapM_member? {records : List Record} (h : ∀ record ∈ records, record.Fits)
    (front behind : Bytes) :
    ((members front.length records).map Member.listing).mapM
        (member? (front ++ (records.flatMap Record.stored ++ behind))) =
      some (members front.length records) := by
  induction records generalizing front with
  | nil => rfl
  | cons record records ih =>
    -- for the others this file is one more that is stored in front of them
    have hothers := ih (fun other hother => h other (List.mem_cons_of_mem _ hother))
      (front ++ record.stored)
    rw [List.length_append, List.append_assoc] at hothers
    have hfirst : member? (front ++ (record.stored ++ (records.flatMap Record.stored ++ behind)))
        (record.member front.length).listing = some (record.member front.length) := by
      have hdrop : (record.member front.length).listing.offset = front.length := rfl
      rw [member?, hdrop, List.drop_left, takes_stored (h record List.mem_cons_self) front.length]
      rfl
    rw [members, List.map_cons, List.mapM_cons, List.flatMap_cons, List.append_assoc, hfirst,
      hothers]
    rfl

/-- **An archive is read as what was put in**: its files in order, each at its place. -/
theorem read?_layOut {records : List Record} (h : Fits (records.map Record.file)) :
    read? (layOut records) = some (members 0 records) := by
  have hrecords := h.record
  have hcount : records.length < 256 ^ 2 := by
    have hfiles := h.count
    rwa [List.length_map] at hfiles
  have hstored : (records.flatMap Record.stored).length < 256 ^ 4 := by
    rw [length_flatMap_stored]
    exact h.stored
  have hdirectory : (directory 0 records).length < 256 ^ 4 := by
    rw [length_directory]
    exact h.directory
  have hlength : (layOut records).length - endingLength =
      (records.flatMap Record.stored ++ directory 0 records).length := by
    rw [layOut, List.length_append, length_ending, Nat.add_sub_cancel]
  have hending := (takes_ending hcount hdirectory hstored).run_eq
  have hlistings := (takes_listings hrecords 0 (by rwa [Nat.zero_add])).run_eq
  have hmembers := mapM_member? hrecords [] (directory 0 records ++
    ending records.length (directory 0 records).length (records.flatMap Record.stored).length)
  -- the end of the archive tells where the directory is, the directory where the files are
  rw [read?, hlength, layOut, List.drop_left, hending]
  dsimp only [bind, Option.bind_some]
  rw [List.append_assoc, List.drop_left, List.take_left, hlistings]
  exact hmembers

/-- What a header records of a file is so. -/
structure Header.Describes (header : Header) (file : File) : Prop where
  checksum : IsCrc32 file.data header.checksum
  storedSize : header.storedSize = file.data.length
  size : header.size = file.data.length
  nameLength : header.nameLength = (utf8 file.name).length

/-- A member of an archive is a file at an offset, and both headers describe it. -/
structure Member.Holds (member : Member) (offset : Nat) (file : File) : Prop where
  offset : member.listing.offset = offset
  listed : member.listing.header.Describes file
  stored : member.stored.header.Describes file
  listedName : member.listing.name = utf8 file.name
  storedName : member.stored.name = utf8 file.name
  data : member.stored.data = file.data

/-- Members of an archive are some files in order, the first of them at an offset and each of the
others behind the one before it. -/
inductive HoldFrom : Nat → List Member → List File → Prop
  | nil (offset : Nat) : HoldFrom offset [] []
  | cons {offset : Nat} {member : Member} {members : List Member} {file : File} {files : List File}
      (h : member.Holds offset file)
      (hrest : HoldFrom (offset + (30 + (utf8 file.name).length + file.data.length)) members
        files) :
      HoldFrom offset (member :: members) (file :: files)

theorem HoldFrom.eq_nil {offset : Nat} {members : List Member} (h : HoldFrom offset members []) :
    members = [] := by
  cases h
  rfl

theorem HoldFrom.exists_cons {offset : Nat} {members : List Member} {file : File}
    {files : List File} (h : HoldFrom offset members (file :: files)) :
    ∃ member rest, members = member :: rest ∧ member.Holds offset file ∧
      HoldFrom (offset + (30 + (utf8 file.name).length + file.data.length)) rest files := by
  cases h with
  | cons h hrest => exact ⟨_, _, rfl, h, hrest⟩

theorem holdFrom_members {records : List Record} (offset : Nat)
    (h : ∀ record ∈ records, IsCrc32 record.file.data record.checksum.toNat) :
    HoldFrom offset (members offset records) (records.map Record.file) := by
  induction records generalizing offset with
  | nil => exact .nil offset
  | cons record records ih =>
    obtain ⟨hchecksum, hrest⟩ := List.forall_mem_cons.mp h
    have hmembers := ih (offset + record.stored.length) hrest
    rw [length_stored] at hmembers
    have hdescribes (stamp : UInt32) : (record.fields stamp).Describes record.file :=
      ⟨hchecksum, rfl, rfl, rfl⟩
    rw [members, length_stored]
    exact .cons ⟨rfl, hdescribes _, hdescribes _, rfl, rfl, rfl⟩ hmembers

/-- **What a standard archiver makes** of files that fit is read as these files. -/
theorem exists_read?_zip {archiver : Archiver} (h : archiver.IsStandard) {files : List File}
    (hfits : Fits files) :
    ∃ members, read? (archiver.zip files) = some members ∧ HoldFrom 0 members files := by
  obtain ⟨records, rfl, hchecksum, hbytes⟩ := h.isLaidOut_zip hfits
  rw [← hbytes]
  exact ⟨members 0 records, read?_layOut hfits, holdFrom_members 0 hchecksum⟩

/-! ## Texts -/

/-- The text of some bytes, if they are one. -/
def text? (bytes : Bytes) : Option String := String.fromUTF8? bytes.toByteArray

theorem text?_utf8 (text : String) : text? (utf8 text) = some text := by
  have hlist : (utf8 text).toByteArray.data.toList = text.toUTF8.data.toList :=
    List.toList_data_toByteArray
  have hbytes : (utf8 text).toByteArray = text.toUTF8 := ByteArray.ext (Array.toList_inj.mp hlist)
  rw [text?, hbytes, String.fromUTF8?, String.toUTF8_eq_toByteArray, dif_pos text.isValidUTF8]
  rfl

theorem utf8_inj {text other : String} (h : utf8 text = utf8 other) : text = other := by
  have htext := text?_utf8 text
  rw [h, text?_utf8] at htext
  exact (Option.some.inj htext).symm

end Archive

namespace Compilation
open Archive

/-- The name of the program in an archive. -/
def programName (name : Option String) : String := safeName (name.getD defaultName) ++ ".gcode"

/-- The name of the manifest in an archive. -/
def manifestName : String := "diagnostics.json"

theorem programName_ne_manifestName (name : Option String) : programName name ≠ manifestName := by
  intro heq
  have hlast := congrArg (fun text => text.toList.getLast?) heq
  simp [programName, manifestName] at hlast

theorem files_eq (compilation : Compilation) (encode : String → Bytes) (name : Option String) :
    compilation.files encode name =
      [{ name := programName name, data := encode (programText compilation.lines) },
        { name := manifestName, data := encode compilation.manifestText }] :=
  rfl

theorem storedLength_files (compilation : Compilation) (encode : String → Bytes)
    (name : Option String) : storedLength (compilation.files encode name) =
      30 + (utf8 (programName name)).length + (encode (programText compilation.lines)).length +
        (30 + (utf8 manifestName).length + (encode compilation.manifestText).length) := by
  rw [files_eq]
  rfl

theorem length_manifestName : (utf8 manifestName).length = 16 := by
  decide +kernel

/-- The files of a compilation fit as soon as the name of the program can be written and the
directory begins below `2 ^ 32`. -/
theorem fits_files {compilation : Compilation} {name : Option String}
    (hname : (utf8 (programName name)).length ≤ 65535)
    (hoffset : storedLength (compilation.files utf8 name) < 2 ^ 32) :
    Fits (compilation.files utf8 name) := by
  rw [files_eq] at hoffset ⊢
  have hmanifest := length_manifestName
  have hcount : 2 < 256 ^ 2 := by decide
  refine ⟨?_, ?_, hcount, hoffset, ?_⟩
  · simpa using programName_ne_manifestName name
  · simp only [List.forall_mem_cons, List.not_mem_nil, false_imp_iff, implies_true, and_true]
    omega
  · simp only [directoryLength, List.map_cons, List.map_nil, List.sum_cons, List.sum_nil]
    omega

/-- **The archive of a compilation**, whatever standard archiver makes it, is read as the program
and the manifest.  Each lies where the directory says, both of its headers have its sizes and its
checksum, and its bytes are the text in UTF-8.  The text of the program is cut into its lines again
unless the caller's lines hold line feeds. -/
theorem read?_exportArchive {geometry : List Value} {value : Value} {ownHeader : List String}
    {compilation : Compilation} (h : (compile geometry value ownHeader).result = .ok compilation)
    {archiver : Archiver} (harchiver : archiver.IsStandard) (name : Option String)
    (hname : (utf8 (programName name)).length ≤ 65535)
    (hoffset : storedLength (compilation.files utf8 name) < 2 ^ 32) :
    ∃ program manifest : Member,
      read? (compilation.exportArchive archiver name) = some [program, manifest] ∧
      program.Holds 0
        { name := programName name, data := utf8 (programText compilation.lines) } ∧
      manifest.Holds
        (30 + (utf8 (programName name)).length + (utf8 (programText compilation.lines)).length)
        { name := manifestName, data := utf8 compilation.manifestText } ∧
      program.listing.name ≠ manifest.listing.name ∧
      text? program.stored.data = some (programText compilation.lines) ∧
      text? manifest.stored.data = some compilation.manifestText ∧
      ((∀ line ∈ ownHeader, '\n' ∉ line.toList) →
        (programText compilation.lines).toList.splitOn '\n' =
          compilation.lines.map String.toList ++ [[]]) := by
  have hencode : archiver.encode = utf8 := funext harchiver.encode_eq
  obtain ⟨members, hread, hheld⟩ := exists_read?_zip harchiver (fits_files hname hoffset)
  rw [files_eq] at hheld
  obtain ⟨program, rest, rfl, hprogram, hrest⟩ := hheld.exists_cons
  obtain ⟨manifest, rest, rfl, hmanifest, hnone⟩ := hrest.exists_cons
  obtain rfl := hnone.eq_nil
  rw [Nat.zero_add] at hmanifest
  have hnames : program.listing.name ≠ manifest.listing.name := by
    rw [hprogram.listedName, hmanifest.listedName]
    exact fun heq => programName_ne_manifestName name (utf8_inj heq)
  refine ⟨program, manifest, ?_, hprogram, hmanifest, hnames, ?_, ?_, fun hown => ?_⟩
  · rw [exportArchive, hencode, hread]
  · rw [hprogram.data, text?_utf8]
  · rw [hmanifest.data, text?_utf8]
  · exact splitOn_programText (newline_notMem_of_compile h hown)

/-! ### An archive with other letters

The name of the archive has a slash, a blank and letters that are not kept, and such letters stand
in the caller's line too. -/

/-- The geometry of the archive. -/
def archivedGeometry : List Value :=
  [.list [.list [.number 1, .number 2, .number 3], .list [.number 40, .number (-7), .number 0.5]]]

/-- What the archive is made of. -/
def archived : Compilation := jobProfile.compilation ["; größe"] [[⟨1, 2, 3⟩, ⟨40, -7, 0.5⟩]]

theorem compile_archived :
    (compile archivedGeometry jobSettings ["; größe"]).result = .ok archived := by
  have hpaths : Path.ofValues archivedGeometry = [[⟨1, 2, 3⟩, ⟨40, -7, 0.5⟩]] := by
    decide +kernel
  have hfinite : Instruction.firstNotFinite?
      (jobProfile.program ["; größe"] [[⟨1, 2, 3⟩, ⟨40, -7, 0.5⟩]]) = none := by
    decide +kernel
  exact result_compile_of_profile ofValue_jobSettings hpaths hfinite

theorem programName_archived : programName (some "größe/teil 1") = "gr_e_teil_1.gcode" := by
  decide +kernel

/-- The time at which the archive is made. -/
def archivedStamp : UInt32 := 0x58215083

theorem read?_exportArchive_archived :
    ∃ program manifest : Member,
      read? (archived.exportArchive (.plain archivedStamp) (some "größe/teil 1")) =
        some [program, manifest] ∧
      program.Holds 0 { name := "gr_e_teil_1.gcode", data := utf8 (programText archived.lines) } ∧
      manifest.Holds
        (30 + (utf8 "gr_e_teil_1.gcode").length + (utf8 (programText archived.lines)).length)
        { name := manifestName, data := utf8 archived.manifestText } ∧
      program.listing.name ≠ manifest.listing.name ∧
      text? program.stored.data = some (programText archived.lines) ∧
      text? manifest.stored.data = some archived.manifestText ∧
      (programText archived.lines).toList.splitOn '\n' =
        archived.lines.map String.toList ++ [[]] := by
  have hname : (utf8 (programName (some "größe/teil 1"))).length = 17 := by
    rw [programName_archived]
    decide +kernel
  have hcontents : (utf8 (programText archived.lines)).length +
      (utf8 archived.manifestText).length < 2 ^ 31 := by
    decide +kernel
  have hoffset : storedLength (archived.files utf8 (some "größe/teil 1")) < 2 ^ 32 := by
    rw [storedLength_files, hname, length_manifestName]
    omega
  obtain ⟨program, manifest, hread, hprogram, hmanifest, hne, htext, hmanifestText, hlines⟩ :=
    read?_exportArchive compile_archived (Archiver.isStandard_plain archivedStamp)
      (some "größe/teil 1") (by rw [hname]; decide) hoffset
  rw [programName_archived] at hprogram hmanifest
  exact ⟨program, manifest, hread, hprogram, hmanifest, hne, htext, hmanifestText,
    hlines (by decide)⟩

end Compilation
end Toolpath
