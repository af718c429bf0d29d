import Toolpath.Archive.Layout
import Toolpath.Manifest

/-! # Exporting programs

A program as one text, and as an archive that holds the text beside its diagnostics manifest.  How a
text becomes bytes and how files become an archive is up to an `Archiver`: here is said what it is
given (`Compilation.files`), and what it makes is handed on (`Compilation.exportArchive`).
-/
namespace Toolpath

/-- The lines of a program, each ended by a line feed. -/
def programText (lines : List String) : String :=
  if lines.isEmpty then "" else String.intercalate "\n" lines ++ "\n"

namespace Archive

/-- A named text that goes into an archive. -/
structure Entry where
  name : String
  content : String
  deriving DecidableEq

/-- The characters an entry's name keeps. -/
def isNameChar (c : Char) : Bool := c.isAlphanum || c == '.' || c == '_' || c == '-'

/-- A name with one underscore for every run of other characters. -/
def joinRuns : List Char → List Char
  | [] => []
  | c :: rest =>
    if isNameChar c then c :: joinRuns rest
    else match rest with
      | next :: _ => if isNameChar next then '_' :: joinRuns rest else joinRuns rest
      | [] => ['_']

/-- The name of an entry whose name is not usable. -/
def defaultName : String := "program"

/-- A name that is safe for a file: no character but letters, digits, points, underscores and
hyphens, and no point in front. -/
def safeName (name : String) : String :=
  let kept := (joinRuns name.toList).dropWhile (· == '.')
  if kept.isEmpty then defaultName else String.ofList kept

end Archive

/-- What makes archives: it turns a text into bytes, and files into one archive. -/
structure Archiver where
  encode : String → Bytes
  zip : List Archive.File → Bytes

/-- The archiver that does no more than it has to, at a time. -/
def Archiver.plain (stamp : UInt32) : Archiver where
  encode := utf8
  zip files := Archive.layOut (files.map (Archive.Record.plain stamp))

namespace Compilation

/-- The texts that are archived of a compilation. -/
def archiveEntries (compilation : Compilation) (name : String) : List Archive.Entry :=
  [{ name := Archive.safeName name ++ ".gcode", content := programText compilation.lines },
    { name := "diagnostics.json", content := compilation.manifestText }]

/-- The files that an archiver is given. -/
def files (compilation : Compilation) (encode : String → Bytes) (name : Option String) :
    List Archive.File :=
  (compilation.archiveEntries (name.getD Archive.defaultName)).map fun entry =>
    { name := entry.name, data := encode entry.content }

/-- The archive of a compilation. -/
def exportArchive (compilation : Compilation) (archiver : Archiver) (name : Option String) :
    Bytes :=
  archiver.zip (compilation.files archiver.encode name)

/-- The archive of a compilation in plain form and without a time. -/
def archive (compilation : Compilation) (name : String) : Bytes :=
  compilation.exportArchive (.plain 0) (some name)

end Compilation
end Toolpath
