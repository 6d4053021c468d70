import CommandGrammar.Call.Template
import CommandGrammar.Command.Switch
import CommandGrammar.Header.Calls

/-!
The arguments of the command line.

The first operand is the command; the arguments after it are its own. A command has one operand,
the grammar file, which may stand anywhere among the options. Arguments with no use are collected
and reported together at the end, those before the command first.
-/

set_option autoImplicit false
set_option relaxedAutoImplicit false

namespace CommandGrammar.Command

open Text

inductive Subcommand where
  | check
  | build
  deriving DecidableEq, Repr

def Subcommand.name : Subcommand → String
  | check => "check"
  | build => "build"

def subcommands : List (String × Subcommand) :=
  [Subcommand.check, Subcommand.build].map fun command => (command.name, command)

def Subcommand.switches : Subcommand → List Switch
  | check => [.help, .debug]
  | build => [.help, .output, .namePrefix, .context, .accessor, .testMacro, .debug]

/-- The options given to a command. There is no output directory if that option is given without a
value. -/
structure Settings where
  debug : Bool := false
  output : Option String := some "."
  namePrefix : String := "GENERATED_"
  context : Option (List String) := none
  accessor : Option String := none
  testMacro : String := "TEST_PARSER"
  deriving DecidableEq, Repr

namespace Settings

def noValue : String := "[]"

/-- The settings with the values of an option; a later use of the option replaces an earlier one. -/
def set (s : Settings) : Switch → List String → Settings
  | .help, _ => s
  | .debug, _ => { s with debug := true }
  | .output, values => { s with output := values.head? }
  | .namePrefix, values => { s with namePrefix := values.headD noValue }
  | .context, values => { s with context := some values }
  | .accessor, values => { s with accessor := values.head? }
  | .testMacro, values => { s with testMacro := values.headD noValue }

/-- The convention for calls. An empty accessor counts as none. -/
def convention (s : Settings) : Convention :=
  let standard : Convention := {}
  { context := s.context.getD standard.context
    accessor := match s.accessor with
      | none => standard.accessor
      | some name => if name = "" then standard.accessor else name }

def headerOptions (s : Settings) : Header.Options :=
  ⟨s.namePrefix, s.testMacro⟩

end Settings

inductive Misuse where
  | missing (operand : String)
  | unknownCommand (name : String)
  | ambiguous (a : Ambiguity)
  | valueMissing (switch : Switch)
  | valueIgnored (switch : Switch) (value : String)
  | unrecognized (arguments : List String)
  deriving DecidableEq, Repr

def Misuse.message : Misuse → String
  | missing operand => "the following arguments are required: " ++ operand
  | unknownCommand name =>
    "argument cmd: invalid choice: " ++ quoted name ++ " (choose from "
      ++ ", ".intercalate (subcommands.map fun entry => quoted entry.1) ++ ")"
  | ambiguous a =>
    "ambiguous option: " ++ a.argument ++ " could match "
      ++ ", ".intercalate (a.uses.map Use.spelling)
  | valueMissing switch => "argument " ++ switch.label ++ ": expected one argument"
  | valueIgnored switch value =>
    "argument " ++ switch.label ++ ": ignored explicit argument " ++ quoted value
  | unrecognized arguments => "unrecognized arguments: " ++ " ".intercalate arguments

/-- Why no command is run: help is asked for, or the command line is wrong. A misuse is reported
by the program or by the command. -/
inductive Stop where
  | help (command : Option Subcommand)
  | misuse (command : Option Subcommand) (m : Misuse)
  deriving DecidableEq, Repr

def Stop.message? : Stop → Option String
  | help _ => none
  | misuse command m =>
    let name := match command with
      | none => ""
      | some command => " " ++ command.name
    some ("cmdspecc" ++ name ++ ": error: " ++ m.message)

structure Progress where
  settings : Settings := {}
  file : Option String := none
  unused : List String := []
  deriving DecidableEq, Repr

/-- What the next operand is: nothing special, or one more value of an option. A separator right
after the file belongs to the file. -/
inductive Expecting where
  | anything
  | afterFile
  | values (switch : Switch) (soFar : List String)
  deriving DecidableEq, Repr

inductive ArgumentError where
  | help
  | misuse (m : Misuse)
  deriving DecidableEq, Repr

/-- The options joined in one argument: those without values in front, then the last one with the
text attached to it. -/
structure Cluster where
  flags : List Switch
  last : Switch
  attached : Option (List Char)
  deriving DecidableEq, Repr

/-- Reads the text after a short option: the value of the option if it takes one, and otherwise
further short options. -/
def readCluster (switches : List Switch) (switch : Switch) : List Char → Except Misuse Cluster
  | [] => .ok ⟨[], switch, none⟩
  | c :: rest =>
    if switch.arity = .none then
      match Switch.find? switches (String.ofList ['-', c]) with
      | none => .error (.valueIgnored switch (String.ofList (c :: rest)))
      | some following =>
        (readCluster switches following rest).map fun cluster =>
          { cluster with flags := switch :: cluster.flags }
    else .ok ⟨[], switch, some (c :: rest)⟩

/-- The options that an argument stands for. Only a short option without a value can be joined with
others, and not if the text attached to it is empty. -/
def Use.cluster (u : Use) (switches : List Switch) : Except Misuse Cluster :=
  match u.attached with
  | none => .ok ⟨[], u.switch, none⟩
  | some text =>
    if u.switch.arity ≠ .none then .ok ⟨[], u.switch, some text⟩
    else if isLong u.spelling || text.isEmpty then
      .error (.valueIgnored u.switch (String.ofList text))
    else readCluster switches u.switch text

/-- The values that an attached text gives. The separator is dropped there too, and then the option
has no value. -/
def attachedValues (text : List Char) : List String :=
  if text = ['-', '-'] then [] else [String.ofList text]

def Progress.take (p : Progress) (switch : Switch) (values : List String) :
    Except ArgumentError Progress :=
  match switch with
  | .help => .error .help
  | switch => .ok { p with settings := p.settings.set switch values }

/-- Takes the options of an argument in their order; the values belong to the last one. -/
def Progress.takeCluster (p : Progress) (cluster : Cluster) (values : List String) :
    Except ArgumentError Progress := do
  let p ← cluster.flags.foldlM (fun p flag => p.take flag []) p
  p.take cluster.last values

/-- Reads the arguments after a separator, which are all operands. The separator has a use if the
file comes right before or right after it. -/
def Progress.readOperands (p : Progress) (afterFile : Bool) (operands : List String) : Progress :=
  match p.file, operands with
  | none, file :: surplus => { p with file := some file, unused := p.unused ++ surplus }
  | _, _ =>
    { p with unused := p.unused ++ if afterFile then operands else "--" :: operands }

/-- Reads the marked arguments of a command. The options joined in one argument are taken once the
last of them has its values. -/
def readMarked (switches : List Switch) :
    Progress → Expecting → List Marked → Except ArgumentError Progress
  | p, _, [] => .ok p
  | p, expecting, ⟨text, mark⟩ :: rest =>
    match mark with
    | .operand =>
      match expecting, p.file with
      | .values switch soFar, _ => do
        let values := soFar ++ [text]
        readMarked switches (← p.take switch values) (.values switch values) rest
      | _, none => readMarked switches { p with file := some text } .afterFile rest
      | _, some _ => readMarked switches { p with unused := p.unused ++ [text] } .anything rest
    | .unknown => readMarked switches { p with unused := p.unused ++ [text] } .anything rest
    | .separator =>
      .ok (p.readOperands (expecting = .afterFile) (rest.map Marked.text))
    | .use u => do
      let cluster ← (u.cluster switches).mapError .misuse
      match cluster.attached, cluster.last.arity, rest with
      | some attached, _, rest =>
        readMarked switches (← p.takeCluster cluster (attachedValues attached)) .anything rest
      | none, .none, rest => readMarked switches (← p.takeCluster cluster []) .anything rest
      | none, .many, rest =>
        readMarked switches (← p.takeCluster cluster []) (.values cluster.last []) rest
      | none, .one, ⟨value, .operand⟩ :: rest =>
        readMarked switches (← p.takeCluster cluster [value]) .anything rest
      | none, .one, _ => .error (.misuse (.valueMissing cluster.last))

structure Request where
  command : Subcommand
  file : String
  settings : Settings
  deriving DecidableEq, Repr

def readCommand (command : Subcommand) (unused arguments : List String) : Except Stop Request := do
  let marked ← (markAll command.switches arguments).mapError fun a =>
    .misuse (some command) (.ambiguous a)
  let p ← (readMarked command.switches {} .anything marked).mapError fun
    | .help => .help (some command)
    | .misuse m => .misuse (some command) m
  match p.file with
  | none => .error (.misuse (some command) (.missing "file"))
  | some file =>
    match unused ++ p.unused with
    | [] => .ok ⟨command, file, p.settings⟩
    | unused => .error (.misuse none (.unrecognized unused))

def findCommand (unused : List String) : List Marked → Except Stop Request
  | [] => .error (.misuse none (.missing "cmd"))
  | ⟨text, mark⟩ :: rest =>
    match mark with
    | .operand =>
      match subcommands.lookup text with
      | some command => readCommand command unused (rest.map Marked.text)
      | none => .error (.misuse none (.unknownCommand text))
    | .separator =>
      .error (.misuse none (if rest.isEmpty then .missing "cmd" else .unknownCommand text))
    | .unknown => findCommand (unused ++ [text]) rest
    | .use u =>
      match u.cluster [.help] with
      | .error m => .error (.misuse none m)
      | .ok _ => .error (.help none)

def readArguments (arguments : List String) : Except Stop Request := do
  let marked ← (markAll [.help] arguments).mapError fun a => .misuse none (.ambiguous a)
  findCommand [] marked

end CommandGrammar.Command
