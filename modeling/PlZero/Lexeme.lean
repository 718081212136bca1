import PlZero.Text.Blank
import PlZero.Token

/-!
# Lexemes

The pieces into which a source text falls between blanks. A lexeme is a word, a
run of digits, an operator of two characters ending in `=`, or any other single
character; at each point the longest one is taken. Cutting a lexeme off and
reading what it stands for are kept apart: the cut depends on characters only,
and the reading on the lexeme alone.
-/

namespace PlZero.Lexeme

set_option autoImplicit false

/-- Characters that, followed by `=`, begin an operator of two characters. -/
def startsComparison (char : Char) : Bool :=
  char == '=' || char == '>' || char == '<' || char == '!'

/-- The longest lexeme that begins with `first`, and what is left after it. -/
def cut (first : Char) (rest : List Char) : List Char × List Char :=
  if first.isAlpha then
    (first :: rest.takeWhile Char.isAlphanum, rest.dropWhile Char.isAlphanum)
  else if first.isDigit then
    (first :: rest.takeWhile Char.isDigit, rest.dropWhile Char.isDigit)
  else
    match rest with
    | '=' :: after =>
      if startsComparison first then ([first, '='], after) else ([first], rest)
    | _ => ([first], rest)

def comparison : Char → Keyword
  | '=' => .eqKw
  | '>' => .geKw
  | '<' => .leKw
  | _ => .neKw

def maxNumber : Nat := Nat.pow 2 63 - 1

def decimalValue (digits : List Char) : Nat :=
  Nat.ofDigitChars 10 digits 0

/-- The token that a lexeme stands for. Only a number can stand for none: its
value may be too large. -/
def token? : List Char → Option Token
  | [] => none
  | first :: tail =>
    if first.isAlpha then
      some (.ofWord (String.ofList (first :: tail)))
    else if first.isDigit then
      let value := decimalValue (first :: tail)
      if value ≤ maxNumber then some (.number value) else none
    else if tail.isEmpty then
      some (.symbol first)
    else
      some (.keyword (comparison first))

/-- Cutting loses nothing. -/
theorem cut_append (first : Char) (rest : List Char) :
    (cut first rest).1 ++ (cut first rest).2 = first :: rest := by
  unfold cut
  split
  · simp
  · split
    · simp
    · split
      · split <;> simp
      · simp

/-- A lexeme is never empty, so what is left is shorter than the text was. -/
theorem length_cut_snd_le (first : Char) (rest : List Char) :
    (cut first rest).2.length ≤ rest.length := by
  have lexemeNonempty : 0 < (cut first rest).1.length := by
    unfold cut
    split
    · simp
    · split
      · simp
      · split
        · split <;> simp
        · simp
  have lengths := congrArg List.length (cut_append first rest)
  simp only [List.length_append, List.length_cons] at lengths
  omega

end PlZero.Lexeme
