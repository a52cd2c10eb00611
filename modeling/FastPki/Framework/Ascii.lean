import Mathlib.Tactic.Common

namespace FastPki.Ascii

/-! What octets are as characters of ASCII. -/

def isDigit (c : UInt8) : Bool := 0x30 ≤ c && c ≤ 0x39

/-- The number that digits write. -/
def value (s : List UInt8) : Nat := s.foldl (fun n c => 10*n+(c.toNat-0x30)) 0

def isBlank (c : UInt8) : Bool := c = 0x20 || c = 0x09

/-- White space of a line or of several. -/
def isWhite (c : UInt8) : Bool := c = 0x20 || c = 0x09 || c = 0x0d || c = 0x0a

/-- `isspace` of the C locale. -/
def isSpace (c : UInt8) : Bool := c = 0x20 || (0x09 ≤ c && c ≤ 0x0d)

def stripLeft (p : UInt8 → Bool) (s : List UInt8) : List UInt8 := s.dropWhile p

def stripRight (p : UInt8 → Bool) (s : List UInt8) : List UInt8 := (s.reverse.dropWhile p).reverse

def strip (p : UInt8 → Bool) (s : List UInt8) : List UInt8 := stripRight p (stripLeft p s)

end FastPki.Ascii
