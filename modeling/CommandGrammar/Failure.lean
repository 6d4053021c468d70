import CommandGrammar.Files.Tree
import CommandGrammar.Grammar.Check
import CommandGrammar.Tables.Build
import CommandGrammar.Tables.Consistency

set_option autoImplicit false
set_option relaxedAutoImplicit false

namespace CommandGrammar

open Text

inductive Failure where
  | read (f : Fault)
  | check (e : CheckError)
  | resolve (e : NotInvocation)
  | build (e : BuildError)
  | write (e : Inconsistency)
  | decode (e : Utf8.Fault)
  | file (e : FileError)
  deriving DecidableEq, Repr

def Refusal.className : Refusal → String
  | missing => "FileNotFoundError"
  | alreadyThere => "FileExistsError"
  | notDirectory => "NotADirectoryError"
  | isDirectory => "IsADirectoryError"

namespace Failure

def fault? : Failure → Option Fault
  | read f => some f
  | check (.fault f) => some f
  | _ => none

def className : Failure → String
  | read _ => "SyntaxError"
  | check (.fault _) => "SyntaxError"
  | check (.unknownLine _) => "KeyError"
  | resolve _ => "ValueError"
  | build _ => "ValueError"
  | write (.unnumberedState _) => "KeyError"
  | write _ => "ValueError"
  | decode _ => "UnicodeDecodeError"
  | file (.refused refusal _) => refusal.className
  | file .nullCharacter => "ValueError"
  | file .noPath => "TypeError"

def message : Failure → String
  | read f => f.diagnostic.render
  | check (.fault f) => f.diagnostic.render
  | check (.unknownLine state) => quoted state
  | resolve e => e.message
  | build e => e.message
  | write e => e.message
  | decode e => e.message
  | file e => e.message

end Failure

end CommandGrammar
