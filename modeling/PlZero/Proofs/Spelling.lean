import PlZero.Proofs.Lexical

/-!
# Spellings

How a token is written, and that it is read back from this as one whole lexeme. It need
not be the only spelling: `==` and the word `EQ` stand for the same token, and zeros may
come before a number.
-/

namespace PlZero

set_option autoImplicit false

def Token.spelling : Token → String
  | number value => toString value
  | word text _ => text
  | symbol char => String.singleton char

def reading? (lexeme : String) : Option Token :=
  if Lexeme.isWhole lexeme.toList then Lexeme.token? lexeme.toList else none

theorem reading?_eq_some {lexeme : String} {token : Token} (read : reading? lexeme = some token) :
    Lexeme.isWhole lexeme.toList = true ∧ Lexeme.token? lexeme.toList = some token := by
  unfold reading? at read
  split at read
  · next whole => exact ⟨whole, read⟩
  · cases read

theorem reading?_word {text : String} (isWord : IsWord text) :
    reading? text = some (.ofWord text) := by
  obtain ⟨first, tail, spelled, letter, others⟩ := isWord
  have whole : Lexeme.isWhole (first :: tail) = true :=
    Lexeme.isWhole_of_form (.word letter others)
  have same : String.ofList (first :: tail) = text := by rw [← spelled, String.ofList_toList]
  rw [reading?, spelled, if_pos whole, Lexeme.token?, if_pos letter, same]

theorem reading?_symbol {char : Char} (visible : Text.isBlank char = false)
    (other : char.isAlphanum = false) :
    reading? (String.singleton char) = some (.symbol char) := by
  obtain ⟨noLetter, noDigit⟩ := Bool.or_eq_false_iff.mp other
  have whole : Lexeme.isWhole [char] = true :=
    Lexeme.isWhole_of_form (.single visible noLetter noDigit)
  simp [reading?, whole, Lexeme.token?, noLetter, noDigit]

theorem toList_toString (number : Nat) :
    (toString (number : Int)).toList = Nat.toDigits 10 number := by
  rw [Int.toString_eq_repr]
  simp [Int.repr]

theorem reading?_number {value : Int} (low : 0 ≤ value) (high : value ≤ Lexeme.maxNumber) :
    reading? (toString value) = some (.number value) := by
  obtain ⟨number, rfl⟩ := Int.eq_ofNat_of_zero_le low
  have small : number ≤ Lexeme.maxNumber := Int.ofNat_le.mp high
  have allDigits : ∀ char ∈ Nat.toDigits 10 number, char.isDigit = true :=
    fun char member => Nat.isDigit_of_mem_toDigits (by decide) (by decide) member
  have back : Lexeme.decimalValue (Nat.toDigits 10 number) = number := Nat.ofDigitChars_ten_toDigits
  rw [reading?, toList_toString]
  cases digits : Nat.toDigits 10 number with
  | nil => exact (Nat.toDigits_ne_nil digits).elim
  | cons first tail =>
    rw [digits] at allDigits back
    obtain ⟨digit, others⟩ := List.forall_mem_cons.mp allDigits
    have noLetter := Lexeme.isAlpha_of_digit digit
    have whole : Lexeme.isWhole (first :: tail) = true :=
      Lexeme.isWhole_of_form (.number noLetter digit others)
    rw [if_pos whole, Lexeme.token?]
    simp only [noLetter, digit, if_true, Bool.false_eq_true, if_false, back, if_pos small]

/-- Every token that can be written is read back from its spelling. -/
theorem reading?_spelling {token : Token} (lexical : token.IsLexical) :
    reading? token.spelling = some token := by
  cases token with
  | number value => exact reading?_number lexical.1 lexical.2
  | word text id =>
    have own : Token.ofWord text = .word text id := lexical.2
    rw [Token.spelling, reading?_word lexical.1, own]
  | symbol char => exact reading?_symbol lexical.1 lexical.2

end PlZero
