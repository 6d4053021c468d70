set_option autoImplicit false
set_option relaxedAutoImplicit false

namespace CommandGrammar.Text

def isStateChar (c : Char) : Bool :=
  c.isUpper || c == '_'

def isIdentifierChar (c : Char) : Bool :=
  c.isLower || c == '_'

def isQuotedWordChar (c : Char) : Bool :=
  isIdentifierChar c || c.isDigit

def isNameStart (c : Char) : Bool :=
  c.isAlpha || c == '_'

def isNameChar (c : Char) : Bool :=
  isNameStart c || c.isDigit

def isWord (p : Char → Bool) (cs : List Char) : Bool :=
  !cs.isEmpty && cs.all p

/-- A character that names begin with, followed by characters of names. -/
def isName : List Char → Bool
  | [] => false
  | c :: cs => isNameStart c && cs.all isNameChar

end CommandGrammar.Text
