import CommandGrammar.Grammar.Statement

set_option autoImplicit false
set_option relaxedAutoImplicit false

namespace CommandGrammar

open Text

def JoinedLine.fault (line : JoinedLine) (cause : Cause) (column : Nat) : Fault :=
  ⟨cause, line.line, some ⟨line.text, column⟩⟩

/-- The rules of a definition: one for each token, alike in all else. -/
def DefinitionParts.rules (parts : DefinitionParts) (line : JoinedLine) :
    Except Fault (List Rule) := do
  let tokens ← (readTokens parts.tokens).mapError (line.fault · parts.tokensColumn)
  let action ← (readAction parts.action).mapError (line.fault · parts.actionColumn)
  return tokens.map fun token => ⟨token, parts.identifier.map String.ofList, action, line.line⟩

namespace Grammar

structure Progress where
  grammar : Grammar
  current : Option String
  deriving DecidableEq

def Progress.initial : Progress := ⟨∅, none⟩

def Progress.step (p : Progress) (line : JoinedLine) : Except Fault Progress :=
  match Statement.of? line.text with
  | some (.declaration state) => .ok ⟨p.grammar.declare state line.line, some state⟩
  | some (.definition parts) =>
    match p.current with
    | none => .error (line.fault .definitionOutsideState 1)
    | some state => do
      let rules ← parts.rules line
      return { p with grammar := p.grammar.addRules state rules }
  | none => .error (line.fault .malformedDefinition 1)

def ofLines (lines : List JoinedLine) : Except Fault Grammar :=
  (lines.foldlM Progress.step Progress.initial).map Progress.grammar

def read (source : String) : Except Fault Grammar := do
  let lines ← JoinedLine.join (Text.lines source)
  ofLines lines

end Grammar

end CommandGrammar
