import CommandGrammar.Command.Arguments
import CommandGrammar.Compilation
import CommandGrammar.Header.Files

/-!
What the commands do.

Both commands compile the grammar file and report its failure in the same way. `check` then prints
one line; `build` writes the header files into a directory, which is made if it is missing. All
headers are written out in memory before the first file is touched.

A command is prepared from the content of the grammar file alone; what is left to do then is to
finish or to install files.
-/

set_option autoImplicit false
set_option relaxedAutoImplicit false

namespace CommandGrammar.Command

open Text

structure Report where
  output : List String := []
  errors : List String := []
  deriving DecidableEq, Repr

/-- The lines about a stage. Warnings are always shown, all else only on demand. -/
def noteLines (debug : Bool) : Note → List String
  | .warned w => ["[WARN] " ++ w.message]
  | note =>
    let line := match note with
      | .joined lines => "logical lines ready | lines=" ++ decimal lines
      | .read states rules =>
        "model ready | states=" ++ decimal states ++ " rules=" ++ decimal rules
      | .warned w => w.message
      | .checked => "model validated"
      | .resolved calls => "call table built | calls=" ++ decimal calls
      | .built states rows =>
        "IR ready | states=" ++ decimal states ++ " (incl. " ++ callState ++ ") rows="
          ++ decimal rows
    if debug then ["[DEBUG] " ++ line] else []

def failureLines (e : Failure) : List String :=
  match e.fault? with
  | some _ => ["[SYNTAX ERROR]", e.message]
  | none => ["[ERROR] " ++ e.className ++ " " ++ e.message]

def dumpLines (c : Compilation) : List String :=
  let states := c.tables.states.map fun state => state ++ "=" ++ c.tables.stateIdText state
  ["", "[MODEL]", c.resolved.display, "", "[STATES]", "  " ++ ", ".intercalate states, "",
    "[CALLS]", NumberedCall.displayAll c.calls]

def failureCode : Nat := 2

/-- What a command does after its grammar has been compiled: finish with an exit code, or install
header files. -/
inductive Continuation where
  | finish (exitCode : Nat)
  | install (files : List Header.File)
  deriving DecidableEq, Repr

/-- The report on a compilation and what is left to do: `next` says what a compilation leads to. -/
def prepareWith {α : Type} (debug : Bool) (compiled : Logged Note Failure (Compilation × α))
    (next : Compilation → α → List String × Continuation) : Report × Continuation :=
  let notes := compiled.log.flatMap (noteLines debug)
  match compiled.result with
  | .error e => (⟨[], notes ++ failureLines e⟩, .finish failureCode)
  | .ok (c, a) =>
    let (output, continuation) := next c a
    (⟨output, notes ++ if debug then dumpLines c else []⟩, continuation)

def summary (c : Compilation) : String :=
  "[CHECK OK] states=" ++ decimal c.tables.declaredStates.length ++ " rules="
    ++ decimal c.tables.rowCount ++ " calls=" ++ decimal c.calls.length

def prepareCheck (settings : Settings) (octets : Except FileError (List UInt8)) :
    Report × Continuation :=
  let compiled : Logged Note Failure (Compilation × Unit) := do
    let c ← Compilation.ofFile {} octets
    return (c, ())
  prepareWith settings.debug compiled fun c _ => ([summary c], .finish 0)

def prepareBuild (settings : Settings) (octets : Except FileError (List UInt8)) :
    Report × Continuation :=
  let compiled : Logged Note Failure (Compilation × List Header.File) := do
    let c ← Compilation.ofFile settings.convention octets
    let files ← .ofExcept ((Header.files settings.headerOptions c.tables).mapError .write)
    return (c, files)
  prepareWith settings.debug compiled fun _ files => ([], .install files)

def prepare (request : Request) (octets : Except FileError (List UInt8)) : Report × Continuation :=
  match request.command with
  | .check => prepareCheck request.settings octets
  | .build => prepareBuild request.settings octets

def installedReport (debug : Bool) (path : Path) (file : Header.File) : Report where
  output := ["[EMIT] " ++ path.toString]
  errors :=
    if debug then ["[DEBUG] " ++ file.name ++ " bytes=" ++ decimal file.text.length] else []

def Report.append (a b : Report) : Report :=
  ⟨a.output ++ b.output, a.errors ++ b.errors⟩

instance : Append Report := ⟨Report.append⟩

/-- How a run ends: with an exit code, or with a failure to write the files. -/
inductive Ending where
  | exit (code : Nat)
  | failed (e : FileError)
  deriving DecidableEq, Repr

def Settings.directory (s : Settings) : Except FileError Path :=
  match s.output with
  | some output => .ok (Path.ofString output)
  | none => .error .noPath

def headerPath (directory : Path) (header : Header.File) : Path :=
  directory ++ Path.ofString header.name

/-- What a run asks of the machine. -/
structure Host (m : Type → Type) where
  read : Path → m (Except FileError (List UInt8))
  makeDirectories : Path → m (Except FileError Unit)
  write : Path → List UInt8 → m (Except FileError Unit)
  print : Report → m Unit

namespace Host

variable {m : Type → Type} [Monad m] (host : Host m)

/-- Writes files into a directory that exists, and stops at the first failure. -/
def installFiles (debug : Bool) (directory : Path) : List Header.File → m Ending
  | [] => return .exit 0
  | file :: files => do
    let path := headerPath directory file
    match ← host.write path (Utf8.encode file.text.toList) with
    | .error e => return .failed e
    | .ok () =>
      host.print (installedReport debug path file)
      installFiles debug directory files

def install (settings : Settings) (files : List Header.File) : m Ending := do
  match settings.directory with
  | .error e => return .failed e
  | .ok directory =>
    match ← host.makeDirectories directory with
    | .error e => return .failed e
    | .ok () => host.installFiles settings.debug directory files

def proceed (settings : Settings) : Report × Continuation → m Ending
  | (report, .finish code) => do
    host.print report
    return .exit code
  | (report, .install files) => do
    host.print report
    host.install settings files

def run (request : Request) : m Ending := do
  let octets ← host.read (Path.ofString request.file)
  host.proceed request.settings (prepare request octets)

end Host

structure RunState where
  report : Report := {}
  tree : FileTree
  deriving DecidableEq

def onFiles {α : Type} (step : StateM FileTree α) : StateM RunState α := fun s =>
  let (a, tree) := step s.tree
  (a, { s with tree })

def onTree : Host (StateM RunState) where
  read path := onFiles fun tree => (tree.read path, tree)
  makeDirectories path := onFiles (FileTree.makeDirectories path)
  write path octets := onFiles (FileTree.changing (·.write path octets))
  print report := modify fun s => { s with report := s.report ++ report }

structure Outcome where
  report : Report
  ending : Ending
  tree : FileTree
  deriving DecidableEq

def run (request : Request) (tree : FileTree) : Outcome :=
  let (ending, left) := onTree.run request { tree }
  ⟨left.report, ending, left.tree⟩

end CommandGrammar.Command
