import Toolpath.Checksum

/-! # The layout of archives

An archive of files that are not compressed has a local header and the data of each file, then a
directory that repeats the headers with their offsets, then the directory's own place and size
(`Archive.layOut`).  Numbers are written with their lowest byte first.  Who lays out an archive
chooses some fields of the headers (`Archive.Record`).
-/
namespace Toolpath

abbrev Bytes := List UInt8

/-- The bytes of a text. -/
def utf8 (text : String) : Bytes := text.toUTF8.data.toList

/-- The lowest `count` bytes of a number, lowest first. -/
def littleEndian : Nat → Nat → Bytes
  | 0, _ => []
  | count + 1, n => UInt8.ofNat n :: littleEndian count (n / 256)

@[simp] theorem length_littleEndian (count n : Nat) : (littleEndian count n).length = count := by
  induction count generalizing n with
  | zero => rfl
  | succ count ih => simp [littleEndian, ih]

namespace Archive

/-- A file in an archive. -/
structure File where
  name : String
  data : Bytes
  deriving DecidableEq

/-- The flags of a file whose data do not simply follow its header: that they are encrypted, in
either way, that their sizes come behind them, that they are a patch, that headers are masked. -/
def alteringFlags : UInt16 := 0x2069

/-- A file with what is chosen where it is laid out: who did it, what is needed to read it, flags, a
time stamp for each of the two headers, the checksum and attributes. -/
structure Record where
  file : File
  creator : UInt16
  version : UInt16
  flags : UInt16
  storedStamp : UInt32
  listedStamp : UInt32
  checksum : UInt32
  internalAttributes : UInt16
  externalAttributes : UInt32
  unaltered : flags &&& alteringFlags = 0

/-- The fields that the two headers of a file share: version, flags, method, time stamp, checksum,
both sizes, and the lengths of the name and of the extra field. -/
def Record.header (record : Record) (stamp : UInt32) : Bytes :=
  littleEndian 2 record.version.toNat ++ littleEndian 2 record.flags.toNat ++ littleEndian 2 0 ++
    littleEndian 4 stamp.toNat ++ littleEndian 4 record.checksum.toNat ++
    littleEndian 4 record.file.data.length ++ littleEndian 4 record.file.data.length ++
    littleEndian 2 (utf8 record.file.name).length ++ littleEndian 2 0

/-- A file behind its local header. -/
def Record.stored (record : Record) : Bytes :=
  littleEndian 4 0x04034B50 ++ record.header record.storedStamp ++ utf8 record.file.name ++
    record.file.data

/-- A file in the directory, with the offset of its local header: who laid it out, the shared
fields, no comment, no disk number, attributes. -/
def Record.listed (record : Record) (offset : Nat) : Bytes :=
  littleEndian 4 0x02014B50 ++ littleEndian 2 record.creator.toNat ++
    record.header record.listedStamp ++ littleEndian 2 0 ++ littleEndian 2 0 ++
    littleEndian 2 record.internalAttributes.toNat ++
    littleEndian 4 record.externalAttributes.toNat ++ littleEndian 4 offset ++
    utf8 record.file.name

/-- The directory of some files, the first of which lies at an offset. -/
def directory (offset : Nat) : List Record → Bytes
  | [] => []
  | record :: rest => record.listed offset ++ directory (offset + record.stored.length) rest

/-- What ends an archive: how many files the directory has, how long it is and where it begins. -/
def ending (count size offset : Nat) : Bytes :=
  littleEndian 4 0x06054B50 ++ littleEndian 2 0 ++ littleEndian 2 0 ++ littleEndian 2 count ++
    littleEndian 2 count ++ littleEndian 4 size ++ littleEndian 4 offset ++ littleEndian 2 0

/-- The bytes of an archive. -/
def layOut (records : List Record) : Bytes :=
  let stored := records.flatMap Record.stored
  let listed := directory 0 records
  stored ++ listed ++ ending records.length listed.length stored.length

/-- The version of the layout without compression. -/
def layoutVersion : UInt16 := 20

/-- A file laid out at a time, with its checksum and nothing else. -/
def Record.plain (stamp : UInt32) (file : File) : Record where
  file := file
  creator := layoutVersion
  version := layoutVersion
  flags := 0
  storedStamp := stamp
  listedStamp := stamp
  checksum := crc32 file.data
  internalAttributes := 0
  externalAttributes := 0
  unaltered := by decide

end Archive
end Toolpath
