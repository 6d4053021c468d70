import CommandGrammar.Text.Digit
import CommandGrammar.Text.Quoted

/-!
The options of the command line, and how an argument is recognised as one.

A long option may be shortened as long as no other option begins the same way, and takes a value
after an equality sign. The rest of an argument that begins with a short option is attached to it,
without an equality sign right after the option. A negative number and an argument with a space in
it are not options, and everything after the argument `--` is an operand.
-/

set_option autoImplicit false
set_option relaxedAutoImplicit false

namespace CommandGrammar.Command

open Text

inductive Switch where
  | help
  | debug
  | output
  | namePrefix
  | context
  | accessor
  | testMacro
  deriving DecidableEq, Repr

inductive Arity where
  | none
  | one
  | many
  deriving DecidableEq, Repr

def Switch.spellings : Switch → List String
  | help => ["-h", "--help"]
  | debug => ["-D", "--debug"]
  | output => ["-o", "--output"]
  | namePrefix => ["--prefix"]
  | context => ["--context"]
  | accessor => ["--accessor"]
  | testMacro => ["--test-macro"]

def Switch.arity : Switch → Arity
  | help => .none
  | debug => .none
  | context => .many
  | _ => .one

def Switch.label (s : Switch) : String := "/".intercalate s.spellings

/-- An option as it is written in an argument, with the text attached to it there. -/
structure Use where
  switch : Switch
  spelling : String
  attached : Option (List Char)
  deriving DecidableEq, Repr

inductive Mark where
  | operand
  | separator
  | unknown
  | use (u : Use)
  deriving DecidableEq, Repr

def isLong (spelling : String) : Bool :=
  List.isPrefixOf ['-', '-'] spelling.toList

def Switch.find? (switches : List Switch) (spelling : String) : Option Switch :=
  switches.find? fun s => s.spellings.contains spelling

def cutEquals (argument : List Char) : List Char × Option (List Char) :=
  match argument.dropWhile (· != '=') with
  | [] => (argument, none)
  | _ :: attached => (argument.takeWhile (· != '='), some attached)

/-- The options that a long argument may stand for: all that begin with it, up to the equality
sign. -/
def longUses (switches : List Switch) (argument : List Char) : List Use :=
  let (start, attached) := cutEquals argument
  switches.flatMap fun s =>
    (s.spellings.filter fun spelling => start.isPrefixOf spelling.toList).map fun spelling =>
      ⟨s, spelling, attached⟩

/-- The option that a short argument begins with; the rest of the argument is attached to it. -/
def shortUses (switches : List Switch) (argument : List Char) : List Use :=
  let spelling := String.ofList (argument.take 2)
  match Switch.find? switches spelling with
  | some s => [⟨s, spelling, some (argument.drop 2)⟩]
  | none => []

/-- The option that an argument names in full, alone or before an equality sign. -/
def exactUse? (switches : List Switch) (argument : List Char) : Option Use :=
  match Switch.find? switches (String.ofList argument) with
  | some s => some ⟨s, String.ofList argument, none⟩
  | none =>
    match cutEquals argument with
    | (_, none) => none
    | (start, attached) =>
      (Switch.find? switches (String.ofList start)).map fun s =>
        ⟨s, String.ofList start, attached⟩

/-- Digits, at least one of them; a line feed may follow. -/
def isDigits (cs : List Char) : Bool :=
  match cs.dropWhile isDecimalDigit with
  | [] => !cs.isEmpty
  | rest => rest == ['\n'] && cs.length > 1

/-- A hyphen before digits, or before a decimal fraction whose whole part may be missing. -/
def isNegativeNumber : List Char → Bool
  | '-' :: cs =>
    isDigits cs ||
      match cs.dropWhile isDecimalDigit with
      | '.' :: fraction => isDigits fraction
      | _ => false
  | _ => false

/-- What an argument is to a command with the given options, or the options that it cannot be
told apart from. -/
def classify (switches : List Switch) (argument : String) : Except (List Use) Mark :=
  match argument.toList with
  | '-' :: c :: cs =>
    let text := '-' :: c :: cs
    match exactUse? switches text with
    | some u => .ok (.use u)
    | none =>
      match if c = '-' then longUses switches text else shortUses switches text with
      | [u] => .ok (.use u)
      | [] =>
        if isNegativeNumber text || text.contains ' ' then .ok .operand else .ok .unknown
      | uses => .error uses
  | _ => .ok .operand

structure Marked where
  text : String
  mark : Mark
  deriving DecidableEq, Repr

structure Ambiguity where
  argument : String
  uses : List Use
  deriving DecidableEq, Repr

/-- Marks all arguments; after the first `--` there are operands only. -/
def markAll (switches : List Switch) : List String → Except Ambiguity (List Marked)
  | [] => .ok []
  | "--" :: arguments => .ok (⟨"--", .separator⟩ :: arguments.map (⟨·, .operand⟩))
  | argument :: arguments =>
    match classify switches argument with
    | .error uses => .error ⟨argument, uses⟩
    | .ok mark => (markAll switches arguments).map (⟨argument, mark⟩ :: ·)

end CommandGrammar.Command
