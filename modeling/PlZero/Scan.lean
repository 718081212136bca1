import PlZero.Diagnostic
import PlZero.Layout
import PlZero.LineNumber

/-!
# Scanning

The pieces of a source text are read from left to right: the line ends among the
blanks are counted, then the lexeme is read. Scanning stops at the end of the
text or at the first number that is too large. The tokens read up to that point
and the line reached are kept in either case, so several texts can be scanned
one after another with one running line number.
-/

namespace PlZero

set_option autoImplicit false

structure Scan where
  /-- The tokens read, also those before a fault. -/
  tokens : List LocatedToken
  /-- The line reached: that of the end of the text, or that of the fault. -/
  line : Nat
  fault? : Option Fault
  deriving DecidableEq, Repr

namespace Scan

/-- The tokens of a text that was read to its end, else the fault. -/
def result (scan : Scan) : Except Fault (List LocatedToken) :=
  match scan.fault? with
  | none => .ok scan.tokens
  | some fault => .error fault

def cons (token : LocatedToken) (scan : Scan) : Scan :=
  ⟨token :: scan.tokens, scan.line, scan.fault?⟩

/-- Read the pieces of a text whose first character stands on `line`. -/
def ofPieces (line : Nat) (trailing : List Char) : List Piece → Scan
  | [] => ⟨[], lineAfter line (Text.lineEnds trailing), none⟩
  | piece :: rest =>
    let here := lineAfter line (Text.lineEnds piece.blanks)
    match Lexeme.token? piece.lexeme with
    | none => ⟨[], here, some (.invalidNumber (String.ofList piece.lexeme) here)⟩
    | some token => cons ⟨token, here⟩ (ofPieces here trailing rest)

def ofChars (line : Nat) (chars : List Char) : Scan :=
  let layout := Layout.ofChars chars
  ofPieces line layout.trailing layout.pieces

def ofSource (line : Nat) (source : String) : Scan :=
  ofChars line source.toList

end Scan

end PlZero
