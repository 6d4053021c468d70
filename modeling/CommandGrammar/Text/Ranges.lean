set_option autoImplicit false
set_option relaxedAutoImplicit false

namespace CommandGrammar.Text

/-- Closed ranges of code points, in ascending order and disjoint. -/
abbrev Ranges := List (Nat × Nat)

def Ranges.contains : Ranges → Nat → Bool
  | [], _ => false
  | (low, high) :: ranges, n => low ≤ n && (n ≤ high || Ranges.contains ranges n)

end CommandGrammar.Text
