import CommandGrammar.Files.Tree

set_option autoImplicit false
set_option relaxedAutoImplicit false

namespace CommandGrammar.FileTree

/-- The tree with a directory for each of the names below a location, where there is nothing yet. -/
def placeDirectories (t : FileTree) (location : Location) : List String → FileTree
  | [] => t
  | name :: names =>
    let below := location ++ [name]
    let t := if (t.node? below).isSome then t else t.setNode below .directory
    t.placeDirectories below names

def ofWorkingDirectory (location : Location) : FileTree :=
  placeDirectories ⟨∅, location⟩ [] location

/-- The tree with a node below the working directory, and with the directories on the way to it. -/
def place (t : FileTree) (names : List String) (node : Node) : FileTree :=
  (t.placeDirectories t.workingDirectory names.dropLast).setNode (t.workingDirectory ++ names) node

/-- The locations below the working directory, as names from there, with their nodes. -/
def below (t : FileTree) : List (List String × Node) :=
  t.nodes.entries.filterMap fun (location, node) =>
    match List.isPrefixOf? t.workingDirectory location with
    | some (name :: names) => some (name :: names, node)
    | _ => none

def isEmptyDirectory (t : FileTree) (names : List String) : Bool :=
  !t.below.any fun entry => names.isPrefixOf entry.1 && entry.1 != names

def change? (t before : FileTree) (names : List String) :
    Node → Option (String × Option (List UInt8))
  | .directory =>
    if t.isEmptyDirectory names then some ("/".intercalate names ++ "/", none) else none
  | .file octets =>
    if before.node? (t.workingDirectory ++ names) = some (.file octets) then none
    else some ("/".intercalate names, some octets)

/-- The files that are new or different from those of an earlier tree, and all empty directories,
in the order of their paths. A directory is listed with a slash at its end and without content. -/
def changesSince (t before : FileTree) : List (String × Option (List UInt8)) :=
  (t.below.filterMap fun (names, node) => t.change? before names node).mergeSort
    fun a b => a.1 ≤ b.1

end CommandGrammar.FileTree
