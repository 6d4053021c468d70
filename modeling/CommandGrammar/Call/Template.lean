import CommandGrammar.Text.Quoted
import CommandGrammar.Text.Blank
import CommandGrammar.Text.Word

/-!
Call templates.

A template is the text of a function call in which `$name` stands for a captured token. It is read
once, from left to right, as a list of pieces: captures, quoted words such as `"number"`, and
single characters. The text of the real call and the format of the debug message are both written
from the pieces, the one by putting an accessor call for each capture, the other by putting `%s`
for each capture and each quoted word.

The real call has the arguments of the convention's context before those of the template.
-/

set_option autoImplicit false
set_option relaxedAutoImplicit false

namespace CommandGrammar

open Text

namespace Template

inductive Piece where
  | plain (c : Char)
  | capture (name : List Char)
  | word (text : List Char)
  deriving DecidableEq, Repr

def Piece.source : Piece → List Char
  | plain c => [c]
  | capture name => '$' :: name
  | word text => '"' :: text ++ ['"']

/-- What a piece puts into a format: `%s` for a captured or quoted word, and itself for all else,
where a per cent sign is written twice. -/
def Piece.format : Piece → List Char
  | plain c => if c = '%' then ['%', '%'] else [c]
  | capture _ => ['%', 's']
  | word _ => ['%', 's']

/-- What a piece puts into a call: the accessor applied to the name of a capture, and itself for
all else. -/
def Piece.expand (accessor : List Char) : Piece → List Char
  | capture name => accessor ++ '(' :: '"' :: name ++ ['"', ')']
  | piece => piece.source

/-- A capture after its `$`, and the text after it. The name is as long as possible. -/
def capture? (text : List Char) : Option (List Char × List Char) :=
  match text.takeWhile isIdentifierChar with
  | [] => none
  | c :: cs => some (c :: cs, text.dropWhile isIdentifierChar)

def word? (text : List Char) : Option (List Char × List Char) :=
  match text.takeWhile isQuotedWordChar, text.dropWhile isQuotedWordChar with
  | c :: cs, '"' :: rest => some (c :: cs, rest)
  | _, _ => none

theorem length_dropWhile_le (p : Char → Bool) (text : List Char) :
    (text.dropWhile p).length ≤ text.length :=
  (List.dropWhile_sublist p).length_le

theorem length_of_capture? {text name rest : List Char} (h : capture? text = some (name, rest)) :
    rest.length ≤ text.length := by
  unfold capture? at h
  split at h
  · cases h
  · cases h
    exact length_dropWhile_le _ _

theorem length_of_word? {text word rest : List Char} (h : word? text = some (word, rest)) :
    rest.length < text.length := by
  unfold word? at h
  split at h
  · next hd =>
    cases h
    have := length_dropWhile_le isQuotedWordChar text
    rw [hd] at this
    exact this
  · cases h

def pieces : List Char → List Piece
  | [] => []
  | c :: cs =>
    if c = '$' then
      match _ : capture? cs with
      | some (name, rest) => .capture name :: pieces rest
      | none => .plain c :: pieces cs
    else if c = '"' then
      match _ : word? cs with
      | some (text, rest) => .word text :: pieces rest
      | none => .plain c :: pieces cs
    else .plain c :: pieces cs
  termination_by text => text.length
  decreasing_by
    · have := length_of_capture? ‹_›
      simp only [List.length_cons]
      omega
    · simp
    · have := length_of_word? ‹_›
      simp only [List.length_cons]
      omega
    · simp
    · simp

theorem eq_of_capture? {text name rest : List Char} (h : capture? text = some (name, rest)) :
    text = name ++ rest := by
  unfold capture? at h
  split at h
  · cases h
  · next hn =>
    cases h
    rw [← hn, List.takeWhile_append_dropWhile]

theorem eq_of_word? {text word rest : List Char} (h : word? text = some (word, rest)) :
    text = word ++ '"' :: rest := by
  unfold word? at h
  split at h
  · next hn hr =>
    cases h
    rw [← hn, ← hr, List.takeWhile_append_dropWhile]
  · cases h

theorem flatMap_source_pieces (text : List Char) : (pieces text).flatMap Piece.source = text := by
  fun_induction pieces text with
  | case1 => rfl
  | case2 cs name rest h ih => simp [Piece.source, ih, eq_of_capture? h]
  | case3 cs h ih => simp [Piece.source, ih]
  | case4 cs word rest h _ ih => simp [Piece.source, ih, eq_of_word? h]
  | case5 cs _ h ih => simp [Piece.source, ih]
  | case6 c cs _ _ ih => simp [Piece.source, ih]

def printFormat (template : String) : String :=
  String.ofList ((pieces template.toList).flatMap Piece.format)

end Template

/-- How generated calls look: the arguments that every call begins with, and the function that
gives a captured token by its name. -/
structure Convention where
  context : List String := ["&current_match", "result"]
  accessor : String := "get_string"
  deriving DecidableEq, Repr

/-- A call expression taken apart: what precedes the first bracket, and the trimmed text between
the brackets. -/
structure Invocation where
  name : String
  arguments : String
  deriving DecidableEq, Repr

structure NotInvocation where
  expression : String
  deriving DecidableEq, Repr

def NotInvocation.message (e : NotInvocation) : String :=
  "calls: not a function call expression: " ++ quoted e.expression

namespace Invocation

/-- The text before a closing bracket that ends the text; one line feed may follow it. -/
def beforeClosing? (text : List Char) : Option (List Char) :=
  match text.reverse with
  | ')' :: rest => some rest.reverse
  | '\n' :: ')' :: rest => some rest.reverse
  | _ => none

/-- Takes an expression apart at its first opening and its last closing bracket. -/
def of? (expression : List Char) : Option Invocation :=
  match expression.takeWhile (· != '('), expression.dropWhile (· != '(') with
  | c :: name, _ :: rest =>
    (beforeClosing? rest).map fun arguments =>
      ⟨String.ofList (c :: name), String.ofList (trimMargin arguments)⟩
  | _, _ => none

def withContext (invocation : Invocation) (context : List String) : String :=
  let arguments := if invocation.arguments = "" then [] else [invocation.arguments]
  invocation.name ++ "(" ++ ", ".intercalate (context ++ arguments) ++ ")"

end Invocation

namespace Convention

def substitute (conv : Convention) (template : String) : String :=
  String.ofList ((Template.pieces template.toList).flatMap
    (Template.Piece.expand conv.accessor.toList))

def invocation (conv : Convention) (template : String) : Except NotInvocation Invocation :=
  let expression := conv.substitute template
  match Invocation.of? expression.toList with
  | some invocation => .ok invocation
  | none => .error ⟨expression⟩

def callText (conv : Convention) (template : String) : Except NotInvocation String :=
  (conv.invocation template).map (·.withContext conv.context)

def argumentText (conv : Convention) (template : String) : Except NotInvocation String :=
  (conv.invocation template).map (·.arguments)

end Convention

end CommandGrammar
