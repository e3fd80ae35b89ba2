import StackText.CommandLine.Perform

/-!
# The program

The thin layer around `CommandLine.outcome`: it reads the input that a request asks
for, writes what is to be written, and ends with the exit code.
-/
namespace StackText.CommandLine

/-- A failure of the operating system in its own words. -/
def systemReason : IO.Error → String
  | .noFileOrDirectory .. => noSuchFile
  | .inappropriateType _ number details => systemText details number.toNat
  | .permissionDenied _ number details => systemText details number.toNat
  | .invalidArgument _ number details => systemText details number.toNat
  | .resourceExhausted _ number details => systemText details number.toNat
  | e => toString e

/-- Everything that can be read, and the failure that ends it if one does. -/
partial def readAll (handle : IO.FS.Stream) : IO Source := do
  let rec go (chunks : Array ReadEvent) : IO Source := do
    match ← (handle.read 65536).toBaseIO with
    | .error e =>
        return (chunks.push (.failed ⟨.named "Other", systemReason e⟩)).toList
    | .ok bytes =>
        if bytes.isEmpty then return chunks.toList
        else go (chunks.push (.chunk bytes.toList))
  go #[]

/-- Opens and reads the input of a command. -/
def readInput : Option String → IO (Except OpenError Source)
  | none => do return .ok (← readAll (← IO.getStdin))
  | some path => do
      match ← (IO.FS.Handle.mk path .read).toBaseIO with
      | .error e => return .error ⟨path, systemReason e⟩
      | .ok handle => return .ok (← readAll (.ofHandle handle))

/-- The input that a command line asks for; nothing is read where none is asked for. -/
def requestedInput (args : List String) : IO (Except OpenError Source) :=
  match Request.ofArguments args with
  | .ok (.run _ command) =>
      match command.input? with
      | some file => readInput file
      | none => return .ok []
  | _ => return .ok []

end StackText.CommandLine

open StackText.CommandLine in
def main (args : List String) : IO UInt32 := do
  let input ← requestedInput args
  let o := outcome args fun _ => input
  (← IO.getStdout).write ⟨o.out.toArray⟩
  (← IO.getStderr).putStr o.err
  return o.code.toUInt32
