import CommandGrammar.Text.Quoted

/-!
Paths of files.

A path is a root and the names below it. Empty names and `.` are dropped when a path is read, so
the path of the working directory has no names and is written `.`; the name `..` is kept, since
what it leads to depends on the directories that exist. One slash or more than two at the start
are the root `/`, and exactly two are a root of their own.
-/

set_option autoImplicit false
set_option relaxedAutoImplicit false

namespace CommandGrammar

/-- A root, empty for a path from the working directory, and the names below it. -/
structure Path where
  root : String
  names : List String
  deriving DecidableEq, Repr

namespace Path

/-- The root that a number of slashes at the start stands for. -/
def rootOf : Nat → String
  | 0 => ""
  | 2 => "//"
  | _ => "/"

def ofString (text : String) : Path where
  root := rootOf (text.toList.takeWhile (· == '/')).length
  names := ((text.toList.splitOn '/').map String.ofList).filter fun name =>
    name != "" && name != "."

def toString (p : Path) : String :=
  if p.root = "" && p.names.isEmpty then "." else p.root ++ "/".intercalate p.names

/-- The path that is read from the first; a path with a root is not. -/
def append (p q : Path) : Path :=
  if q.root = "" then { p with names := p.names ++ q.names } else q

instance : Append Path := ⟨append⟩

def hasNull (p : Path) : Bool :=
  p.names.any fun name => name.toList.contains '\x00'

end Path

end CommandGrammar
