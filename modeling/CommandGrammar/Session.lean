import CommandGrammar.Grammar.Reader
import CommandGrammar.Tables.Build

/-!
Editing sessions.

A session holds a working grammar, a resolved grammar with its call table, and parser tables.
Grammars, calls and tables are edited independently, so they may come to disagree; building and
checking the tables is what finds it.

After `adopt` the working and the resolved grammar are one, and an edit of either is seen in both,
until one of them is replaced.
-/

set_option autoImplicit false
set_option relaxedAutoImplicit false

namespace CommandGrammar

inductive Side where
  | working
  | resolved
  deriving DecidableEq, Repr

/-- What is being edited. The resolved grammar is absent while it is one with the working
grammar. -/
structure Session where
  grammar : Grammar
  separate : Option Grammar
  calls : List NumberedCall
  tables : ParserTables
  deriving DecidableEq

namespace Session

def initial : Session := ⟨∅, some ∅, [], .initial⟩

def model (s : Session) : Side → Grammar
  | .working => s.grammar
  | .resolved => s.separate.getD s.grammar

/-- Edits the grammar on a side, and with it the other if they are one. -/
def edit (s : Session) (side : Side) (f : Grammar → Grammar) : Session :=
  match side, s.separate with
  | .resolved, some g => { s with separate := some (f g) }
  | _, _ => { s with grammar := f s.grammar }

def replace (s : Session) (g : Grammar) : Session :=
  { s with grammar := g, separate := some (s.model .resolved) }

def read (s : Session) (source : String) : Except Fault Session := do
  let g ← Grammar.read source
  return s.replace g

def resolve (s : Session) (side : Side) (conv : Convention) : Except NotInvocation Session := do
  let (g, calls) ← (s.model side).resolve conv
  return { s with separate := some g, calls }

def adopt (s : Session) : Session :=
  { s with grammar := s.model .resolved, separate := none }

def dropCall (s : Session) (index : Nat) : Session :=
  { s with calls := s.calls.eraseIdx index }

/-- Builds the tables of the grammar on a side, with the calls as they are. -/
def build (s : Session) (side : Side) : Except BuildError Session := do
  let tables ← ParserTables.build (s.model side) s.calls
  return { s with tables }

def addRow (s : Session) (index : Nat) (row : TableRow) : Session :=
  { s with tables.tables := s.tables.tables.modify index fun table =>
      (table.1, table.2 ++ [row]) }

/-- Inserts a state before the one at an index, or at the end if there is none. -/
def addTableState (s : Session) (index : Nat) (state : String) : Session :=
  { s with tables.states := s.tables.states.take index ++ state :: s.tables.states.drop index }

def setStateId (s : Session) (state : String) (id : Int) : Session :=
  { s with tables.stateIds := s.tables.stateIds.insert state id }

def swapTables (s : Session) (i j : Nat) : Session :=
  match s.tables.tables[i]?, s.tables.tables[j]? with
  | some a, some b => { s with tables.tables := (s.tables.tables.set i b).set j a }
  | _, _ => s

end Session

end CommandGrammar
