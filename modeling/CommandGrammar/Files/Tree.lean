import CommandGrammar.Files.Path
import CommandGrammar.OrderedMap
import CommandGrammar.Text.Utf8

/-!
Trees of files and directories.

A tree holds a node for each location, the list of names from the root. A path leads to a location
name by name; every location passed on the way must be a directory, and `..` goes back to the
directory above. Making several directories may fail half way, so it gives the tree that is left
in either case.
-/

set_option autoImplicit false
set_option relaxedAutoImplicit false

namespace CommandGrammar

open Text

inductive Refusal where
  | missing
  | alreadyThere
  | notDirectory
  | isDirectory
  deriving DecidableEq, Repr

/-- A failed operation on a path. A null character in the path is found before the path is used;
there may also be no path to use. -/
inductive FileError where
  | refused (refusal : Refusal) (path : Path)
  | nullCharacter
  | noPath
  deriving DecidableEq, Repr

def Refusal.text : Refusal → String
  | missing => "[Errno 2] No such file or directory"
  | alreadyThere => "[Errno 17] File exists"
  | notDirectory => "[Errno 20] Not a directory"
  | isDirectory => "[Errno 21] Is a directory"

def FileError.message : FileError → String
  | refused refusal path => refusal.text ++ ": " ++ quoted path.toString
  | nullCharacter => "embedded null byte"
  | noPath => "expected str, bytes or os.PathLike object, not list"

/-- Makes a directory and the directories above it that are missing, from the path with its names in
reverse. By `ensure` one directory is made, which may have been there before. -/
def ensureAbove {m : Type → Type} [Monad m] (ensure : Path → m (Except FileError Unit))
    (root : String) : List String → m (Except FileError Unit)
  | [] => ensure ⟨root, []⟩
  | name :: above => do
    let path : Path := ⟨root, (name :: above).reverse⟩
    match ← ensure path with
    | .error (.refused .missing _) =>
      match ← ensureAbove ensure root above with
      | .ok () => ensure path
      | .error e => return .error e
    | result => return result

inductive Node where
  | file (octets : List UInt8)
  | directory
  deriving DecidableEq, Repr

/-- A location: the names that lead to it from the root. -/
abbrev Location := List String

structure FileTree where
  nodes : OrderedMap Location Node
  workingDirectory : Location
  deriving DecidableEq

namespace FileTree

/-- The node at a location. The root is always a directory. -/
def node? (t : FileTree) (location : Location) : Option Node :=
  if location.isEmpty then some .directory else t.nodes.get? location

/-- Goes on from a location by names; the locations passed must be directories, the last need not
exist. -/
def walk (t : FileTree) (location : Location) : List String → Except Refusal Location
  | [] => .ok location
  | name :: names =>
    match t.node? location with
    | none => .error .missing
    | some (.file _) => .error .notDirectory
    | some .directory =>
      t.walk (if name = ".." then location.dropLast else location ++ [name]) names

def locate (t : FileTree) (path : Path) : Except Refusal Location :=
  t.walk (if path.root = "" then t.workingDirectory else []) path.names

def isDirectory (t : FileTree) (path : Path) : Bool :=
  match t.locate path with
  | .ok location => t.node? location == some .directory
  | .error _ => false

def read (t : FileTree) (path : Path) : Except FileError (List UInt8) :=
  if path.hasNull then .error .nullCharacter
  else
    match t.locate path with
    | .error refusal => .error (.refused refusal path)
    | .ok location =>
      match t.node? location with
      | none => .error (.refused .missing path)
      | some .directory => .error (.refused .isDirectory path)
      | some (.file octets) => .ok octets

def setNode (t : FileTree) (location : Location) (node : Node) : FileTree :=
  { t with nodes := t.nodes.insert location node }

def makeDirectory (t : FileTree) (path : Path) : Except FileError FileTree :=
  if path.hasNull then .error .nullCharacter
  else
    match t.locate path with
    | .error refusal => .error (.refused refusal path)
    | .ok location =>
      match t.node? location with
      | none => .ok (t.setNode location .directory)
      | some _ => .error (.refused .alreadyThere path)

def write (t : FileTree) (path : Path) (octets : List UInt8) : Except FileError FileTree :=
  if path.hasNull then .error .nullCharacter
  else
    match t.locate path with
    | .error refusal => .error (.refused refusal path)
    | .ok location =>
      match t.node? location with
      | some .directory => .error (.refused .isDirectory path)
      | _ => .ok (t.setNode location (.file octets))

def ensureDirectory (t : FileTree) (path : Path) : Except FileError FileTree :=
  match t.makeDirectory path with
  | .ok made => .ok made
  | .error e => if t.isDirectory path then .ok t else .error e

/-- An operation as a step that leaves the tree as it was when it fails. -/
def changing (operation : FileTree → Except FileError FileTree) :
    StateM FileTree (Except FileError Unit) := fun t =>
  match operation t with
  | .ok changed => (.ok (), changed)
  | .error e => (.error e, t)

def makeDirectories (path : Path) : StateM FileTree (Except FileError Unit) :=
  ensureAbove (fun above => changing (·.ensureDirectory above)) path.root path.names.reverse

end FileTree

end CommandGrammar
