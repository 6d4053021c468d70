import CommandGrammar.Header.Files
import CommandGrammar.Proofs.Header.Reader

set_option autoImplicit false
set_option relaxedAutoImplicit false

namespace CommandGrammar.Header

open Text

/-- A row as the headers tell it, with the token as a grammar writes it. -/
structure RowEntry where
  token : String
  identifier : String
  nextState : String
  callId : Int
  deriving DecidableEq, Repr

structure CallEntry where
  id : Int
  invocation : String
  format : String
  arguments : String
  returnState : String
  deriving DecidableEq, Repr

structure Contents where
  states : List (String × Int)
  tables : List (String × List RowEntry)
  index : List (String × Int)
  calls : List CallEntry
  deriving DecidableEq, Repr

def enumerator? (line : List Char) : Option (String × Int) := do
  let rest ← after? "    " line
  let (name, rest) ← wordBefore? isStateChar " = " rest
  let id ← (before? "," rest).bind number?
  return (String.ofList name, id)

def enums? (lines : List (List Char)) : Option (List (String × Int)) :=
  (inside? ["typedef enum \x7b".toList] ["\x7d cmdp_state;".toList] lines).bind
    (·.mapM enumerator?)

/-- The token that a pattern stands for: a literal gets its closing apostrophe back. -/
def restored (pattern : List Char) : String :=
  String.ofList (if pattern.head? = some '\'' then pattern ++ ['\''] else pattern)

def row? (line : List Char) : Option RowEntry := do
  let rest ← after? "    \x7b \"" line
  let (pattern, rest) ← literal? rest
  let rest ← after? ", \"" rest
  let (identifier, rest) ← literal? rest
  let rest ← after? ", " rest
  let (next, rest) ← wordBefore? isStateChar ", \x7b " rest
  let id ← (before? " \x7d \x7d," rest).bind number?
  return ⟨restored pattern, String.ofList identifier, String.ofList next, id⟩

def array? : List (List Char) → Option (String × List RowEntry)
  | [] => none
  | opening :: lines => do
    let rest ← after? "cmdp_token tokens_" opening
    let (name, rest) ← wordBefore? isStateChar "[" rest
    let count ← (before? "] = \x7b" rest).bind number?
    let rows ← lines.mapM row?
    if count = rows.length then some (String.ofList name, rows) else none

def indexRow? (line : List Char) : Option (String × Int) := do
  let rest ← after? "    \x7b tokens_" line
  let (name, rest) ← wordBefore? isStateChar ", " rest
  let count ← (before? " \x7d," rest).bind number?
  return (String.ofList name, count)

def index? : List (List Char) → Option (List (String × Int))
  | [] => none
  | opening :: lines => do
    let count ← (between? "cmdp_token_ptr tokens[" "] = \x7b" opening).bind number?
    let entries ← lines.mapM indexRow?
    if count = entries.length then some entries else none

/-- The rows of each state, and the index: the last of the blocks that are closed by a line of
their own. -/
def tokens? (lines : List (List Char)) :
    Option (List (String × List RowEntry) × List (String × Int)) := do
  let blocks := ended "\x7d;".toList lines
  let tables ← blocks.dropLast.mapM array?
  let index ← blocks.getLast?.bind index?
  return (tables, index)

def arguments? (text : List Char) : Option (List Char) :=
  if text = ");".toList then some [] else between? ", " ");" text

/-- The line of a debug message: its format, without the line feed at the end, and the arguments
of the call. -/
def print? (line : List Char) : Option (String × String) := do
  let rest ← after? "            printf(\"" line
  let (shown, rest) ← literal? rest
  let format ← before? "\n" shown
  let arguments ← arguments? rest
  return (String.ofList format, String.ofList arguments)

def case? (options : Options) (label condition real other debug closing state leave : List Char) :
    Option CallEntry := do
  let id ← (between? "        case " ":" label).bind number?
  let invocation ← between? "            " ";" real
  let (format, arguments) ← print? debug
  let returnState ← between? "            state = " ";" state
  if [condition, other, closing, leave] =
      ["#ifndef " ++ options.testMacro, "#else", "#endif", "            break;"].map String.toList
  then some ⟨id, String.ofList invocation, format, arguments, String.ofList returnState⟩
  else none

def cases? (options : Options) : List (List Char) → Option (List CallEntry)
  | [] => some []
  | label :: condition :: real :: other :: debug :: closing :: state :: leave :: lines => do
    let call ← case? options label condition real other debug closing state leave
    let calls ← cases? options lines
    return call :: calls
  | _ => none

def calls? (options : Options) (lines : List (List Char)) : Option (List CallEntry) :=
  (inside? ((dispatchOpening options).map String.toList) (dispatchClosing.map String.toList)
    lines).bind (cases? options)

def decode (options : Options) (enums calls tokens : String) : Option Contents := do
  let states ← enums? (ended '\n' enums.toList)
  let calls ← calls? options (ended '\n' calls.toList)
  let (tables, index) ← tokens? (ended '\n' tokens.toList)
  return ⟨states, tables, index, calls⟩

end CommandGrammar.Header
