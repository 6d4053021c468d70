import CommandGrammar.Grammar.Basic
import CommandGrammar.JoinedLine
import CommandGrammar.Text.Cut
import CommandGrammar.Text.Word

/-!
What one joined line says.

A line is a declaration `state NAME:` or a definition `[identifier =] tokens -> action`. A
definition is cut at its first arrow; the tokens are what remains of the left part without its
blanks, separated by commas, and the action is the right part, trimmed. Each part is kept with the
column at which it begins, for a fault in it to point at.
-/

set_option autoImplicit false
set_option relaxedAutoImplicit false

namespace CommandGrammar

open Text

/-- The name of the state that a line declares: `state NAME:` and nothing but blanks after it. -/
def declaredState? (line : List Char) : Option (List Char) :=
  match List.isPrefixOf? "state ".toList line with
  | none => none
  | some rest =>
    let name := rest.takeWhile isStateChar
    match rest.dropWhile isStateChar with
    | ':' :: tail => if !name.isEmpty && tail.all isBlank then some name else none
    | _ => none

/-- The parts of a definition. The columns are those of the tokens and of the action. -/
structure DefinitionParts where
  identifier : Option (List Char)
  tokens : List Char
  tokensColumn : Nat
  action : List Char
  actionColumn : Nat
  deriving DecidableEq, Repr

namespace DefinitionParts

/-- An identifier with its equality sign, and the text after them without leading blanks. -/
def identifier? (text : List Char) : Option (List Char × List Char) :=
  let name := text.takeWhile isIdentifierChar
  match trimStart (text.dropWhile isIdentifierChar) with
  | '=' :: rest => if name.isEmpty then none else some (name, trimStart rest)
  | _ => none

def isOneLine (text : List Char) : Bool :=
  !(trim text).contains '\n'

/-- The texts before and after the first arrow. The arrow and what is before it must lie on the
first line of the text, and what follows must be one line; an arrow that fails the latter is
passed over. -/
def cutArrow : List Char → Option (List Char × List Char)
  | [] => none
  | c :: cs =>
    if c = '-' && cs.head? == some '>' && isOneLine cs.tail then some ([], cs.tail)
    else if c = '\n' then none
    else (cutArrow cs).map fun parts => (c :: parts.1, parts.2)

def columnOf (text rest : List Char) : Nat :=
  text.length - rest.length + 1

def of? (line : List Char) : Option DefinitionParts :=
  let body := trimStart line
  let (identifier, segment) := match identifier? body with
    | some (name, rest) => (some name, rest)
    | none => (none, body)
  (cutArrow segment).map fun (tokens, tail) => {
    identifier, tokens
    tokensColumn := columnOf line segment
    action := trim tail
    actionColumn := columnOf line (trimStart tail) }

end DefinitionParts

/-- A literal token: one or more characters between apostrophes, none of them an apostrophe. -/
def isLiteralToken : List Char → Bool
  | '\'' :: cs => cs.getLast? == some '\'' && isWord (· != '\'') cs.dropLast
  | _ => false

def readToken (token : List Char) : Except Cause String :=
  if isLiteralToken token || isName token then .ok (String.ofList token)
  else .error (.malformedToken (String.ofList token))

/-- The tokens of a definition. Blanks count for nothing, not even within a literal. -/
def readTokens (segment : List Char) : Except Cause (List String) :=
  match segment.filter fun c => !isBlank c with
  | [] => .error .noTokens
  | text => (text.splitOn ',').mapM readToken

/-- Whether a template is a name, then possibly blanks, then something in round brackets. -/
def isCallTemplate (template : List Char) : Bool :=
  isName (template.takeWhile isNameChar) &&
    match trimStart (template.dropWhile isNameChar) with
    | '(' :: rest => rest.getLast? == some ')' && !rest.contains '\n'
    | _ => false

/-- A template and the state named after the last semicolon, if a state name stands there and
something before it. Otherwise the whole text is the template. -/
def splitReturnState (text : List Char) : List Char × Option (List Char) :=
  match cutLast ';' text with
  | some (before, after) =>
    if !before.isEmpty && isWord isStateChar (trimStart after) then
      (trimEnd before, some (trimStart after))
    else (text, none)
  | none => (text, none)

/-- What an action means: nothing means staying, `call ` announces a call, and anything else has
to be a state name. -/
def readAction (action : List Char) : Except Cause Action :=
  if action.isEmpty then .ok .stay
  else
    match List.isPrefixOf? "call ".toList action with
    | some rest =>
      let (template, state) := splitReturnState (trimStart rest)
      if isCallTemplate template then
        .ok (.call ⟨String.ofList template, state.map String.ofList⟩)
      else .error (.malformedCall (String.ofList action))
    | none =>
      if isWord isStateChar action then .ok (.transition (String.ofList action))
      else .error (.malformedAction (String.ofList action))

/-- What a line says: it declares a state, or it defines rules. -/
inductive Statement where
  | declaration (state : String)
  | definition (parts : DefinitionParts)
  deriving DecidableEq, Repr

def Statement.of? (line : String) : Option Statement :=
  match declaredState? line.toList with
  | some name => some (.declaration (String.ofList name))
  | none => (DefinitionParts.of? line.toList).map .definition

end CommandGrammar
