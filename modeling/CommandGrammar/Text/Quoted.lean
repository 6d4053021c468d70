import CommandGrammar.Text.Printable

/-!
Quoted texts and numbers, as diagnostics and dumps show them.

A quoted text stands between apostrophes, or between quotation marks when it holds an apostrophe
and no quotation mark. The backslash, the mark in use and every character that is not printable
are escaped, by the shortest of the forms `\xNN`, `\uNNNN` and `\UNNNNNNNN` unless a letter names
it.
-/

set_option autoImplicit false
set_option relaxedAutoImplicit false

namespace CommandGrammar.Text

def padStart (width : Nat) (c : Char) (cs : List Char) : List Char :=
  List.replicate (width - cs.length) c ++ cs

def alignRight (width : Nat) (text : String) : String :=
  String.ofList (padStart width ' ' text.toList)

/-- A whole number in decimal digits, with a sign only if it is negative. -/
def decimal (n : Int) : String :=
  toString n

def hexadecimal (width : Nat) (n : Nat) : List Char :=
  padStart width '0' (Nat.toDigits 16 n)

def quotationMark (cs : List Char) : Char :=
  if cs.contains '\'' && !cs.contains '"' then '"' else '\''

def quotedChar (mark c : Char) : List Char :=
  if c = mark || c = '\\' then ['\\', c]
  else if c = '\n' then ['\\', 'n']
  else if c = '\r' then ['\\', 'r']
  else if c = '\t' then ['\\', 't']
  else if isPrintable c then [c]
  else if c.toNat < 0x100 then '\\' :: 'x' :: hexadecimal 2 c.toNat
  else if c.toNat < 0x10000 then '\\' :: 'u' :: hexadecimal 4 c.toNat
  else '\\' :: 'U' :: hexadecimal 8 c.toNat

def quoted (text : String) : String :=
  let mark := quotationMark text.toList
  String.ofList (mark :: text.toList.flatMap (quotedChar mark) ++ [mark])

def bracketed (items : List String) : String :=
  "[" ++ ", ".intercalate items ++ "]"

end CommandGrammar.Text
