import CommandGrammar.Command.Run

set_option autoImplicit false
set_option relaxedAutoImplicit false

namespace CommandGrammar.Command

/-- The refusal with a number of the system; some operations give the number with a minus sign. -/
def Refusal.ofCode? (code : UInt32) : Option Refusal :=
  match if code.toNat < 0x80000000 then code.toNat else 0x100000000 - code.toNat with
  | 2 => some .missing
  | 17 => some .alreadyThere
  | 20 => some .notDirectory
  | 21 => some .isDirectory
  | _ => none

def refusal? : IO.Error → Option Refusal
  | .noFileOrDirectory _ code _ => Refusal.ofCode? code
  | .alreadyExists _ code _ => Refusal.ofCode? code
  | .inappropriateType _ code _ => Refusal.ofCode? code
  | _ => none

/-- Runs an operation on a path; an error that has no name of its own is thrown on. -/
def onPath {α : Type} (path : Path) (operation : IO α) : IO (Except FileError α) := do
  if path.hasNull then return .error .nullCharacter
  try
    return .ok (← operation)
  catch e =>
    match refusal? e with
    | some refusal => return .error (.refused refusal path)
    | none => throw e

/-- Whether a path leads to a directory: the system refuses to read it as one. -/
def isDirectoryOnDisk (path : Path) : IO Bool := do
  match ← onPath path (IO.FS.readBinFile path.toString) with
  | .error (.refused .isDirectory _) => return true
  | _ => return false

def ensureDirectoryOnDisk (path : Path) : IO (Except FileError Unit) := do
  match ← onPath path (IO.FS.createDir path.toString) with
  | .ok () => return .ok ()
  | .error e => return if ← isDirectoryOnDisk path then .ok () else .error e

def printReport (report : Report) : IO Unit := do
  for line in report.output do IO.println line
  for line in report.errors do IO.eprintln line

def disk : Host IO where
  read path := return (← onPath path (IO.FS.readBinFile path.toString)).map ByteArray.toList
  makeDirectories path := ensureAbove ensureDirectoryOnDisk path.root path.names.reverse
  write path octets := onPath path (IO.FS.writeBinFile path.toString ⟨octets.toArray⟩)
  print := printReport

def runOnDisk (request : Request) : IO UInt32 := do
  match ← disk.run request with
  | .exit code => return UInt32.ofNat code
  | .failed e =>
    IO.eprintln e.message
    return 1

end CommandGrammar.Command

def main (arguments : List String) : IO UInt32 := do
  match CommandGrammar.Command.readArguments arguments with
  | .ok request => CommandGrammar.Command.runOnDisk request
  | .error stop =>
    match stop.message? with
    | some message =>
      IO.eprintln message
      return 2
    | none =>
      IO.println "usage: cmdspecc [-h] (check | build) file [option ...]"
      return 0
