import StackText.Entries
import StackText.Scanner

/-!
# Input files

A command reads a named file or the standard input. Opening a file can fail, and a
directory can be opened but not read; both are told in the words of the operating
system. A `Folder` is a directory of plain files given as data.
-/
namespace StackText.CommandLine

/-- A file that could not be opened, with the reason. -/
structure OpenError where
  file : String
  reason : String
  deriving DecidableEq, Repr

def OpenError.message (e : OpenError) : String :=
  "Failed to read file '" ++ e.file ++ "': " ++ e.reason

/-- What the operating system calls a failure, with the number it gives to it. -/
def systemText (text : String) (number : Nat) : String :=
  text ++ " (os error " ++ toString number ++ ")"

def noSuchFile : String := systemText "No such file or directory" 2

def notADirectory : String := systemText "Not a directory" 20

/-- Reading a directory fails. -/
def directorySource : Source := [.failed ⟨.named "IsADirectory", systemText "Is a directory" 21⟩]

/-- A directory of plain files by their names. -/
structure Folder where
  files : Entries String Bytes

/-- Where a path has led so far. -/
inductive Place where
  | folder
  | file (content : Bytes)
  /-- A directory outside, of which nothing is known. -/
  | outside

namespace Folder

/-- Follows one part of a path. An empty part and a dot stay where they are, which
has to be a directory. -/
def step (folder : Folder) (place : Place) (part : String) : Except String Place :=
  match place with
  | .file _ => .error notADirectory
  | .folder =>
      if part = "" ∨ part = "." then .ok .folder
      else if part = ".." then .ok .outside
      else match folder.files.lookup part with
        | some content => .ok (.file content)
        | none => .error noSuchFile
  | .outside => if part = "" ∨ part = "." ∨ part = ".." then .ok .outside else .error noSuchFile

/-- The parts of a path between its slashes. -/
def parts : List Char → List (List Char)
  | [] => [[]]
  | '/' :: rest => [] :: parts rest
  | c :: rest =>
      match parts rest with
      | [] => [[c]]
      | first :: more => (c :: first) :: more

/-- Opens the file at a path. -/
def openFile (folder : Folder) (path : String) : Except OpenError Source :=
  let start := if path.startsWith "/" then Place.outside else Place.folder
  match ((parts path.toList).map String.ofList).foldlM folder.step start with
  | .ok (.file content) => .ok (.ofBytes content)
  | .ok _ => .ok directorySource
  | .error reason => .error ⟨path, reason⟩

end Folder
end StackText.CommandLine
