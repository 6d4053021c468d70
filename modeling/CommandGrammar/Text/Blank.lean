import CommandGrammar.Text.Ranges

/-!
White space and trimming.

Two sets are in use. The *blank* characters are those with Unicode's White_Space property; they
separate the words of a grammar. The *margin* characters are the blank ones and the four
information separators U+001C to U+001F; they are trimmed from the arguments of a call.
-/

set_option autoImplicit false
set_option relaxedAutoImplicit false

namespace CommandGrammar.Text

/-- The characters with Unicode's White_Space property. -/
def isBlank (c : Char) : Bool :=
  Ranges.contains
    [(0x09, 0x0D), (0x20, 0x20), (0x85, 0x85), (0xA0, 0xA0), (0x1680, 0x1680), (0x2000, 0x200A),
     (0x2028, 0x2029), (0x202F, 0x202F), (0x205F, 0x205F), (0x3000, 0x3000)] c.toNat

def isMargin (c : Char) : Bool :=
  isBlank c || Ranges.contains [(0x1C, 0x1F)] c.toNat

def trimWhile (p : Char → Bool) (cs : List Char) : List Char :=
  ((cs.dropWhile p).reverse.dropWhile p).reverse

def trimStart (cs : List Char) : List Char :=
  cs.dropWhile isBlank

def trimEnd (cs : List Char) : List Char :=
  (cs.reverse.dropWhile isBlank).reverse

def trim (cs : List Char) : List Char :=
  trimWhile isBlank cs

def trimMargin (cs : List Char) : List Char :=
  trimWhile isMargin cs

end CommandGrammar.Text
