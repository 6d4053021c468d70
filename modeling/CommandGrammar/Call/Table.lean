import CommandGrammar.Call.Template
import CommandGrammar.Grammar.Basic
import CommandGrammar.Text.Lines

/-!
The call table.

The calls of a grammar are numbered from zero in the order of the states and then of the rules,
with one count for the whole grammar. Resolving a grammar replaces each call by its number and
lists the calls in that order. Equal calls keep numbers of their own, since a rule finds its call
by position alone.
-/

set_option autoImplicit false
set_option relaxedAutoImplicit false

namespace CommandGrammar

open Text

/-- A call of the table: its number, its text for the real and the debug build, the state to
return to, and where it was written. -/
structure NumberedCall where
  id : Int
  invocation : String
  format : String
  arguments : String
  returnState : String
  state : String
  token : String
  line : Int
  deriving DecidableEq, Repr

structure CallSite where
  state : String
  rule : Rule
  clause : CallClause
  deriving DecidableEq, Repr

namespace NumberedCall

def ofSite (conv : Convention) (site : CallSite) (id : Nat) :
    Except NotInvocation NumberedCall := do
  let invocation ← conv.invocation site.clause.template
  return {
    id
    invocation := invocation.withContext conv.context
    format := Template.printFormat site.clause.template
    arguments := invocation.arguments
    returnState := site.clause.returnTarget
    state := site.state
    token := site.rule.token
    line := site.rule.line }

def display (e : NumberedCall) : String :=
  alignRight 4 (decimal e.id) ++ ": " ++ e.invocation ++ " ; " ++ e.returnState
    ++ "   [" ++ e.state ++ " " ++ e.token ++ ", line " ++ decimal e.line ++ "]"

def displayAll (calls : List NumberedCall) : String :=
  if calls.isEmpty then "(no calls)" else joinLines (calls.map display)

end NumberedCall

namespace Grammar

def callSites (g : Grammar) : List CallSite :=
  g.rules.filterMap fun (state, rule) =>
    match rule.action with
    | .call clause => some ⟨state, rule, clause⟩
    | _ => none

/-- Numbers the calls among the rules of a state, and gives the number after them. -/
def numberRules : Nat → List Rule → Nat × List Rule
  | next, [] => (next, [])
  | next, rule :: rules =>
    match rule.action with
    | .call clause =>
      let numbered := numberRules (next + 1) rules
      (numbered.1, rule.setAction (.dispatch next clause.returnTarget) :: numbered.2)
    | _ =>
      let numbered := numberRules next rules
      (numbered.1, rule :: numbered.2)

def numberCalls (g : Grammar) : Grammar :=
  { g with states := (g.states.thread (fun next _ rules => numberRules next rules) 0).2 }

def numberedCalls (g : Grammar) (conv : Convention) : Except NotInvocation (List NumberedCall) :=
  g.callSites.zipIdx.mapM fun (site, id) => NumberedCall.ofSite conv site id

def resolve (g : Grammar) (conv : Convention) :
    Except NotInvocation (Grammar × List NumberedCall) := do
  let calls ← g.numberedCalls conv
  return (g.numberCalls, calls)

end Grammar

end CommandGrammar
