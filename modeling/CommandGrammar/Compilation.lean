import CommandGrammar.Failure
import CommandGrammar.Grammar.Reader
import CommandGrammar.Logged
import CommandGrammar.Source

/-!
Compiling a grammar file.

The stages follow one another: decoding, joining, reading, checking, numbering the calls, building
the tables. Each stage leaves a note when it is done, so that a compilation that fails still tells
how far it got.
-/

set_option autoImplicit false
set_option relaxedAutoImplicit false

namespace CommandGrammar

structure Compilation where
  grammar : Grammar
  resolved : Grammar
  calls : List NumberedCall
  tables : ParserTables
  deriving DecidableEq

inductive Note where
  | joined (lines : Nat)
  | read (states rules : Nat)
  | warned (warning : Warning)
  | checked
  | resolved (calls : Nat)
  | built (states rows : Nat)
  deriving DecidableEq, Repr

namespace Compilation

def ofLines (conv : Convention) (texts : List String) : Logged Note Failure Compilation := do
  let lines ← .ofExcept ((JoinedLine.join texts).mapError .read)
  .tell [.joined lines.length]
  let grammar ← .ofExcept ((Grammar.ofLines lines).mapError .read)
  .tell [.read grammar.states.entries.length grammar.ruleCount]
  let warnings ← .ofExcept (grammar.check.mapError .check)
  .tell (warnings.map .warned ++ [.checked])
  let (resolved, calls) ← .ofExcept ((grammar.resolve conv).mapError .resolve)
  .tell [.resolved calls.length]
  let tables ← .ofExcept ((ParserTables.build resolved calls).mapError .build)
  .tell [.built tables.states.length tables.rowCount]
  return { grammar, resolved, calls, tables }

def ofFile (conv : Convention) (octets : Except FileError (List UInt8)) :
    Logged Note Failure Compilation := do
  let octets ← .ofExcept (octets.mapError .file)
  let texts ← .ofExcept ((Source.lines octets).mapError .decode)
  ofLines conv texts

end Compilation

end CommandGrammar
