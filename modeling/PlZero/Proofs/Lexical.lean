import PlZero.Proofs.Shape
import PlZero.Proofs.Spacing

/-!
# Tokens of texts

Not every token can come from a text. A text has no negative number and none that is
too large; its words begin with a letter and go on with letters and digits, and each
carries the number that belongs to its spelling; its symbols are visible characters
that are neither letters nor digits. Whatever a text is scanned to has this form, since
each piece of its layout is one whole lexeme.
-/

namespace PlZero

set_option autoImplicit false

def IsWord (text : String) : Prop :=
  ∃ first tail, text.toList = first :: tail ∧ first.isAlpha = true ∧
    ∀ char ∈ tail, char.isAlphanum = true

structure IsSolid (text : String) : Prop where
  nonempty : text.toList ≠ []
  inside : ∀ char ∈ text.toList, char.isAlphanum = true

theorem IsWord.isSolid {text : String} (isWord : IsWord text) : IsSolid text := by
  obtain ⟨first, tail, spelled, letter, others⟩ := isWord
  refine ⟨by simp [spelled], ?_⟩
  rw [spelled]
  exact List.forall_mem_cons.mpr ⟨by rw [Char.isAlphanum, letter, Bool.true_or], others⟩

theorem Keyword.spelling_isSolid (keyword : Keyword) : IsSolid keyword.spelling := by
  have letters : keyword.spelling.toList.all Char.isAlphanum = true := by cases keyword <;> rfl
  exact ⟨by cases keyword <;> decide, List.all_eq_true.mp letters⟩

theorem IsSolid.lacks {text : String} (solid : IsSolid text) {mark : Char}
    (other : mark.isAlphanum = false) : mark ∉ text.toList := by
  intro member
  rw [solid.inside mark member] at other
  cases other

def Token.IsLexical : Token → Prop
  | number value => 0 ≤ value ∧ value ≤ Lexeme.maxNumber
  | word text id => IsWord text ∧ ofWord text = word text id
  | symbol char => Text.isBlank char = false ∧ char.isAlphanum = false

def AreLexical (tokens : List LocatedToken) : Prop :=
  ∀ located ∈ tokens, located.token.IsLexical

theorem Token.ofWord_isLexical {text : String} (isWord : IsWord text) :
    (ofWord text).IsLexical := by
  cases reserved : Keyword.ofSpelling? text <;>
    simp [ofWord, identifier, IsLexical, reserved, isWord]

theorem Token.keyword_isLexical (reserved : Keyword) : (keyword reserved).IsLexical := by
  constructor
  · cases reserved <;> exact ⟨_, _, rfl, rfl, List.all_eq_true.mp rfl⟩
  · rw [ofWord, Keyword.ofSpelling?_spelling]

/-- A name in a text is a word that is not reserved. -/
theorem isName_of_lexical {name : String} (lexical : (Token.identifier name).IsLexical) :
    IsName name := by
  obtain ⟨⟨first, tail, spelled, letter, others⟩, unreserved⟩ := lexical
  refine ⟨first, tail, spelled, letter, others, ?_⟩
  cases reserved : Keyword.ofSpelling? name with
  | none => rfl
  | some keyword =>
    rw [Token.ofWord, reserved] at unreserved
    cases keyword <;> cases unreserved

namespace Lexeme

/-- A character that begins no operator here makes a lexeme of its own. -/
theorem alone_of_not_begun {first : Char} {rest : List Char}
    (begun : ¬ (startsComparison first = true ∧ rest.head? = some '=')) :
    ∀ next ∈ rest.head?, (startsComparison first && next == '=') = false := by
  intro next isNext
  rw [Bool.eq_false_iff]
  intro both
  obtain ⟨starts, isEqual⟩ := Bool.and_eq_true_iff.mp both
  exact begun ⟨starts, eq_of_beq isEqual ▸ isNext⟩

/-- What is cut off is a whole lexeme. -/
theorem isWhole_cut {first : Char} (visible : Text.isBlank first = false) (rest : List Char) :
    isWhole (cut first rest).1 = true := by
  apply isWhole_of_form
  have inside (test : Char → Bool) : ∀ char ∈ rest.takeWhile test, test char = true :=
    List.all_eq_true.mp List.all_takeWhile
  cases letter : first.isAlpha with
  | true =>
    have own : (cut first rest).1 = first :: rest.takeWhile Char.isAlphanum := by
      simp [cut, letter]
    rw [own]
    exact .word letter (inside Char.isAlphanum)
  | false =>
    cases digit : first.isDigit with
    | true =>
      have own : (cut first rest).1 = first :: rest.takeWhile Char.isDigit := by
        simp [cut, letter, digit]
      rw [own]
      exact .number letter digit (inside Char.isDigit)
    | false =>
      by_cases begun : startsComparison first = true ∧ rest.head? = some '='
      · obtain ⟨starts, isEqual⟩ := begun
        obtain ⟨after, rfl⟩ := List.head?_eq_some_iff.mp isEqual
        rw [cut_of_comparison after letter digit starts]
        exact .comparison visible letter digit starts
      · rw [cut_of_single letter digit (alone_of_not_begun begun)]
        exact .single visible letter digit

/-- What a whole lexeme stands for can be written. -/
theorem isLexical_of_whole {lexeme : List Char} {token : Token} (whole : isWhole lexeme = true)
    (read : token? lexeme = some token) : token.IsLexical := by
  cases form_of_whole whole with
  | @word first tail letter others =>
    simp only [token?, letter, if_true, Option.some.injEq] at read
    rw [← read]
    exact Token.ofWord_isLexical ⟨first, tail, String.toList_ofList, letter, others⟩
  | @number first tail noLetter digit others =>
    by_cases bounded : decimalValue (first :: tail) ≤ maxNumber
    · have own : Token.number (decimalValue (first :: tail)) = token := by
        simpa [token?, noLetter, digit, bounded] using read
      rw [← own]
      exact ⟨Int.natCast_nonneg _, Int.ofNat_le.mpr bounded⟩
    · simp [token?, noLetter, digit, bounded] at read
  | @single char visible noLetter noDigit =>
    obtain rfl : Token.symbol char = token := by simpa [token?, noLetter, noDigit] using read
    exact ⟨visible, by rw [Char.isAlphanum, noLetter, noDigit, Bool.or_self]⟩
  | @comparison first visible noLetter noDigit starts =>
    obtain rfl : Token.keyword (comparison first) = token := by
      simpa [token?, noLetter, noDigit] using read
    exact Token.keyword_isLexical (comparison first)

end Lexeme

theorem Layout.pieces_are_whole (chars : List Char) :
    ∀ piece ∈ (ofChars chars).pieces, Lexeme.isWhole piece.lexeme = true := by
  induction chars using ofChars.induct with
  | case1 chars blank =>
    rw [ofChars_of_blank blank]
    exact fun piece member => by cases member
  | case2 chars first rest visible _ ih =>
    rw [ofChars_of_visible visible]
    have notBlank : Text.isBlank first = false := by
      have stopped := List.head?_dropWhile_not Text.isBlank chars
      rwa [visible] at stopped
    exact List.forall_mem_cons.mpr ⟨Lexeme.isWhole_cut notBlank rest, ih⟩

namespace Scan

theorem ofPieces_isLexical (line : Nat) (trailing : List Char) {pieces : List Piece}
    (whole : ∀ piece ∈ pieces, Lexeme.isWhole piece.lexeme = true) :
    AreLexical (ofPieces line trailing pieces).tokens := by
  induction pieces generalizing line with
  | nil => exact fun located member => by cases member
  | cons piece rest ih =>
    obtain ⟨one, others⟩ := List.forall_mem_cons.mp whole
    rw [ofPieces]
    cases read : Lexeme.token? piece.lexeme with
    | none => exact fun located member => by cases member
    | some token =>
      exact List.forall_mem_cons.mpr ⟨Lexeme.isLexical_of_whole one read, ih _ others⟩

/-- All tokens of a text can be written, also those before a fault. -/
theorem ofSource_isLexical (line : Nat) (source : String) :
    AreLexical (ofSource line source).tokens :=
  ofPieces_isLexical line _ (Layout.pieces_are_whole source.toList)

theorem result_isLexical {line : Nat} {source : String} {tokens : List LocatedToken}
    (scanned : (ofSource line source).result = .ok tokens) : AreLexical tokens := by
  have lexical := ofSource_isLexical line source
  unfold result at scanned
  split at scanned
  · cases scanned
    exact lexical
  · cases scanned

end Scan

end PlZero
