import CommandGrammar.Call.Table
import CommandGrammar.Failure
import CommandGrammar.Grammar.Check
import CommandGrammar.Grammar.Display
import CommandGrammar.Grammar.Reader
import CommandGrammar.Header.Files
import CommandGrammar.Logged
import CommandGrammar.Source
import CommandGrammar.Tables.Build

set_option autoImplicit false
set_option relaxedAutoImplicit false

namespace CommandGrammar

open Text

namespace Survey

def modelLines (g : Grammar) : List String := [
  "", "[MODEL]", g.display, "",
  "States: " ++ decimal g.states.entries.length ++ "  Rules: " ++ decimal g.ruleCount]

def callLines (calls : List NumberedCall) : List String :=
  ["", "[CALLS]", NumberedCall.displayAll calls]

def stateLines (t : ParserTables) : List String :=
  ["", "[STATES]"] ++ t.states.map fun state => alignRight 20 state ++ " = " ++ t.stateIdText state

def rowLine (row : TableRow) : String :=
  "  " ++ alignRight 20 (quoted row.pattern) ++ " " ++ alignRight 12 (quoted row.identifier)
    ++ " -> " ++ row.nextState ++ " [" ++ decimal row.callId ++ "]"

def tokenLines (t : ParserTables) : List String :=
  ["", "[TOKENS]"] ++ t.tables.flatMap fun (state, rows) =>
    (state ++ " (" ++ decimal rows.length ++ ")") :: rows.map rowLine

def previewLength : Nat := 12

def fileLines (file : Header.File) : List String :=
  let lines := displayLines file.text
  ["--- " ++ file.name ++ " (" ++ decimal file.text.length ++ " bytes) ---"]
    ++ lines.take previewLength
    ++ if lines.length > previewLength then ["... (snip) ..."] else []

def previewLines (files : List Header.File) : List String :=
  ["", "[Emit C Preview]"] ++ files.flatMap fileLines

def lines (octets : List UInt8) : Logged String Failure Unit := do
  let source ← .ofExcept ((Source.text octets).mapError .decode)
  let grammar ← .ofExcept ((Grammar.read source).mapError .read)
  let warnings ← .ofExcept (grammar.check.mapError .check)
  .tell (warnings.map fun w => "[WARN] " ++ w.message)
  .tell (modelLines grammar)
  let (resolved, calls) ← .ofExcept ((grammar.resolve {}).mapError .resolve)
  .tell (callLines calls)
  let tables ← .ofExcept ((ParserTables.build resolved calls).mapError .build)
  .tell (stateLines tables ++ tokenLines tables)
  let files ← .ofExcept ((Header.files {} tables).mapError .write)
  .tell (previewLines files)

/-- The text of a survey and the failure that ended it, unless that is a fault in the grammar. -/
def run (octets : List UInt8) : String × Option Failure :=
  let survey := lines octets
  match survey.result with
  | .ok () => (endLines survey.log, none)
  | .error e =>
    match e.fault? with
    | some _ => (endLines (survey.log ++ [e.message]), none)
    | none => (endLines survey.log, some e)

end Survey

end CommandGrammar
