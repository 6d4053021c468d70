import CommandGrammar.Text.Quoted

/-!
UTF-8, with an exact account of what is wrong with octets that are not well formed.

A character is a first octet and the following octets that it announces. The first octet also
bounds the second, which keeps out the overlong forms, the surrogates and everything above
U+10FFFF. Reading goes octet by octet and stops at the first fault. The fault names the octets
from the first of the character up to the last that still fitted.
-/

set_option autoImplicit false
set_option relaxedAutoImplicit false

namespace CommandGrammar.Text.Utf8

inductive Reason where
  | invalidStart
  | invalidContinuation
  | unexpectedEnd
  deriving DecidableEq, Repr

/-- A malformed sequence: where it begins, its first octet, its length, and the reason. -/
structure Fault where
  position : Nat
  first : UInt8
  length : Nat
  reason : Reason
  deriving DecidableEq, Repr

def Reason.text : Reason → String
  | invalidStart => "invalid start byte"
  | invalidContinuation => "invalid continuation byte"
  | unexpectedEnd => "unexpected end of data"

/-- The octets of a fault in words: the octet itself if it is one, else where they begin and end. -/
def Fault.octets (f : Fault) : String :=
  if f.length = 1 then
    "byte 0x" ++ String.ofList (hexadecimal 2 f.first.toNat) ++ " in position "
      ++ decimal f.position
  else
    "bytes in position " ++ decimal f.position ++ "-" ++ decimal (f.position + f.length - 1)

def Fault.message (f : Fault) : String :=
  "'utf-8' codec can't decode " ++ f.octets ++ ": " ++ f.reason.text

/-- A character of which some octets have been read: the first octet, the number of octets read,
the bits that they contribute, the bounds of the next octet and the number of octets after the
next. -/
structure Unfinished where
  first : UInt8
  taken : Nat
  bits : Nat
  low : Nat
  high : Nat
  more : Nat
  deriving DecidableEq, Repr

/-- The state after a first octet above U+007F, if a character may begin with it. -/
def Unfinished.ofFirst (b : UInt8) : Option Unfinished :=
  let n := b.toNat
  if n < 0xC2 then none
  else if n < 0xE0 then some ⟨b, 1, n - 0xC0, 0x80, 0xBF, 0⟩
  else if n = 0xE0 then some ⟨b, 1, 0x0, 0xA0, 0xBF, 1⟩
  else if n = 0xED then some ⟨b, 1, 0xD, 0x80, 0x9F, 1⟩
  else if n < 0xF0 then some ⟨b, 1, n - 0xE0, 0x80, 0xBF, 1⟩
  else if n = 0xF0 then some ⟨b, 1, 0, 0x90, 0xBF, 2⟩
  else if n < 0xF4 then some ⟨b, 1, n - 0xF0, 0x80, 0xBF, 2⟩
  else if n = 0xF4 then some ⟨b, 1, 4, 0x80, 0x8F, 2⟩
  else none

/-- The fault of a character that breaks off before the octet at `position`. -/
def Unfinished.fault (u : Unfinished) (position : Nat) (reason : Reason) : Fault :=
  ⟨position - u.taken, u.first, u.taken, reason⟩

/-- Reads on from the octet at `position`, within a character or between two. -/
def decodeFrom (position : Nat) : Option Unfinished → List UInt8 → Except Fault (List Char)
  | none, [] => .ok []
  | some u, [] => .error (u.fault position .unexpectedEnd)
  | none, b :: bs =>
    if b.toNat < 0x80 then
      (decodeFrom (position + 1) none bs).map (Char.ofNat b.toNat :: ·)
    else
      match Unfinished.ofFirst b with
      | none => .error ⟨position, b, 1, .invalidStart⟩
      | some u => decodeFrom (position + 1) (some u) bs
  | some u, b :: bs =>
    if u.low ≤ b.toNat && b.toNat ≤ u.high then
      let bits := u.bits * 64 + (b.toNat - 0x80)
      match u.more with
      | 0 => (decodeFrom (position + 1) none bs).map (Char.ofNat bits :: ·)
      | more + 1 =>
        decodeFrom (position + 1) (some ⟨u.first, u.taken + 1, bits, 0x80, 0xBF, more⟩) bs
    else .error (u.fault position .invalidContinuation)

def decode (octets : List UInt8) : Except Fault (List Char) :=
  decodeFrom 0 none octets

def encode (cs : List Char) : List UInt8 :=
  cs.flatMap String.utf8EncodeChar

end CommandGrammar.Text.Utf8
