import CommandGrammar.Header.Literal
import CommandGrammar.Tables.Consistency

set_option autoImplicit false
set_option relaxedAutoImplicit false

namespace CommandGrammar.Header

open Text

/-- The names that the headers are written with: what the names of the files and of the dispatch
function begin with, and the macro of the debug build. -/
structure Options where
  namePrefix : String := "GENERATED_"
  testMacro : String := "TEST_PARSER"
  deriving DecidableEq, Repr

def Options.callFunction (options : Options) : String := options.namePrefix ++ "call"

def printStatement (call : NumberedCall) : String :=
  let arguments := if call.arguments = "" then "" else ", " ++ call.arguments
  "            printf(\"" ++ escape call.format ++ "\\n\"" ++ arguments ++ ");"

def caseLines (options : Options) (call : NumberedCall) : List String := [
  "        case " ++ decimal call.id ++ ":",
  "#ifndef " ++ options.testMacro,
  "            " ++ call.invocation ++ ";",
  "#else",
  printStatement call,
  "#endif",
  "            state = " ++ call.returnState ++ ";",
  "            break;"]

def dispatchOpening (options : Options) : List String := [
  "static void " ++ options.callFunction
    ++ "(const int call_identifier, struct CommandResult *result) \x7b",
  "    switch (call_identifier) \x7b"]

/-- The lines after the cases: a number without a case is reported at run time. -/
def dispatchClosing : List String := [
  "        default:",
  "            printf(\"BUG in the parser. state = %d\\n\", call_identifier);",
  "    \x7d",
  "\x7d"]

def callLines (options : Options) (t : ParserTables) : List String :=
  dispatchOpening options ++ t.calls.flatMap (caseLines options) ++ dispatchClosing

def calls (options : Options) (t : ParserTables) : Except Inconsistency String := do
  t.check
  return endLines (callLines options t)

end CommandGrammar.Header
