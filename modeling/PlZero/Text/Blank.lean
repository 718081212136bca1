/-!
# Blanks and line ends

The characters that separate lexemes: those with the property White_Space and
the control characters (category Cc). Three of them shape lines: a line feed, a
carriage return, or the two together end one line. No other character does,
whatever its name.
-/

namespace PlZero.Text

set_option autoImplicit false

/-- Inclusive ranges of the characters that are white space or control. -/
def blankRanges : List (Nat × Nat) :=
  [(0x0000, 0x0020), (0x007F, 0x00A0), (0x1680, 0x1680), (0x2000, 0x200A),
    (0x2028, 0x2029), (0x202F, 0x202F), (0x205F, 0x205F), (0x3000, 0x3000)]

def isBlank (char : Char) : Bool :=
  blankRanges.any fun range => range.1 ≤ char.toNat && char.toNat ≤ range.2

/-- How many lines end inside a text. A carriage return and the line feed right
after it end one line together. -/
def lineEnds : List Char → Nat
  | [] => 0
  | '\r' :: '\n' :: rest => lineEnds rest + 1
  | '\r' :: rest => lineEnds rest + 1
  | '\n' :: rest => lineEnds rest + 1
  | _ :: rest => lineEnds rest

end PlZero.Text
