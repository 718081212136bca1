import PlZero.Proofs.ExpressionTexts
import PlZero.Proofs.JoinedTexts
import PlZero.Proofs.Period
import PlZero.Proofs.Rendering.Names

/-!
# Shown arithmetic is scanned

Arithmetic is shown for a reader, with brackets around each operation and none around a sign.
Scanned as a text, it falls into just the tokens that were put there: every name and number is
followed by a blank or a bracket, and the brackets and operators are lexemes of their own
whatever comes behind them.
-/

namespace PlZero

set_option autoImplicit false

def tokenString (marks : List Mark) : List Token := (tokensOf marks).map LocatedToken.token

@[simp] theorem tokenString_nil : tokenString [] = [] := rfl

@[simp] theorem tokenString_append (first second : List Mark) :
    tokenString (first ++ second) = tokenString first ++ tokenString second := by
  rw [tokenString, tokensOf_append, List.map_append, tokenString, tokenString]

@[simp] theorem tokenString_plain (located : LocatedToken) (marks : List Mark) :
    tokenString (.plain located :: marks) = located.token :: tokenString marks := rfl

@[simp] theorem tokenString_keyword (keyword : Keyword) (text : String) (line : Nat)
    (marks : List Mark) :
    tokenString (.keyword keyword text line :: marks) =
      .word text keyword.id :: tokenString marks := rfl

@[simp] theorem tokenString_symbol (char : Char) (line : Nat) (marks : List Mark) :
    tokenString (.symbol char line :: marks) = .symbol char :: tokenString marks := rfl

@[simp] theorem tokenString_use (usage : Usage) (name : String) (line : Nat) (marks : List Mark) :
    tokenString (.use usage name line :: marks) = .identifier name :: tokenString marks := rfl

def ScansTo (chars : List Char) (tokens : List Token) : Prop :=
  ∀ line, ∃ located last, Scan.ofChars line chars = ⟨located, last, none⟩ ∧
    located.map LocatedToken.token = tokens

section Texts

variable {rest : List Char} {tokens : List Token}

theorem scansTo_nil : ScansTo [] [] := fun line =>
  ⟨[], line, Scan.ofChars_of_blank line rfl, rfl⟩

theorem scansTo_blank (further : ScansTo rest tokens) : ScansTo (' ' :: rest) tokens := by
  intro line
  have allBlank : ∀ char ∈ [' '], Text.isBlank char = true := List.forall_mem_singleton.mpr rfl
  have moved : Scan.ofChars line ([' '] ++ rest) = _ :=
    Scan.ofChars_after_blanks line allBlank (by decide)
  obtain ⟨located, last, scanned, spelled⟩ := further (lineAfter line (Text.lineEnds [' ']))
  exact ⟨located, last, moved.trans scanned, spelled⟩

/-- A whole lexeme in front of a text is read first, if it does not run on into the text. -/
theorem scansTo_lexeme {lexeme : String} {token : Token} (read : reading? lexeme = some token)
    (ends : Lexeme.EndsBefore lexeme.toList rest) (further : ScansTo rest tokens) :
    ScansTo (lexeme.toList ++ rest) (token :: tokens) := by
  intro line
  obtain ⟨whole, own⟩ := reading?_eq_some read
  generalize lexeme.toList = chars at whole own ends ⊢
  cases chars with
  | nil => cases whole
  | cons first tail =>
    have visible := Lexeme.visible_of_whole whole first List.mem_cons_self
    have begins : (first :: tail ++ rest).dropWhile Text.isBlank = first :: (tail ++ rest) :=
      List.dropWhile_cons_of_neg (by simp [visible])
    obtain ⟨located, last, scanned, spelled⟩ :=
      further (lineAfter line (Text.lineEnds ((first :: tail ++ rest).takeWhile Text.isBlank)))
    rw [Scan.ofChars_of_visible line begins, Lexeme.cut_of_whole whole ends]
    simp only [own, scanned]
    exact ⟨_, _, rfl, congrArg (token :: ·) spelled⟩

theorem IsSolid.endsBefore {text : String} (solid : IsSolid text) (parted : PartsWords rest) :
    Lexeme.EndsBefore text.toList rest := by
  obtain ⟨first, tail, spelled, inside⟩ := solid.begins
  intro next isNext
  have other := parted next isNext
  have noDigit : next.isDigit = false := (Bool.or_eq_false_iff.mp other).2
  rw [spelled, Lexeme.runsOn]
  cases letter : first.isAlpha with
  | true => simpa using other
  | false =>
    have digit : first.isDigit = true := by simpa [Char.isAlphanum, letter] using inside
    simpa [digit] using noDigit

/-- A character that is a lexeme, whatever comes behind it. -/
def Lexeme.standsAlone (char : Char) : Bool :=
  !Text.isBlank char && !char.isAlphanum && !startsComparison char

theorem scansTo_symbol {char : Char} (alone : Lexeme.standsAlone char = true)
    (further : ScansTo rest tokens) : ScansTo (char :: rest) (.symbol char :: tokens) := by
  simp only [Lexeme.standsAlone, Bool.and_eq_true, Bool.not_eq_true'] at alone
  obtain ⟨⟨visible, other⟩, starts⟩ := alone
  obtain ⟨noLetter, noDigit⟩ := Bool.or_eq_false_iff.mp other
  have ends : Lexeme.EndsBefore (String.singleton char).toList rest := by
    intro next _
    simp [Lexeme.runsOn, noLetter, noDigit, starts]
  have scanned := scansTo_lexeme (reading?_symbol visible other) ends further
  simpa using scanned

end Texts

namespace Expression

def shownMarks : Expression → List Mark
  | number value => [.plain ⟨.number value, 0⟩]
  | identifier name => [.use .integer name 0]
  | arithmetic operator left right =>
    .symbol '(' 0 ::
      (left.shownMarks ++ .symbol operator.char 0 :: (right.shownMarks ++ [.symbol ')' 0]))
  | relation comparison left right =>
    left.shownMarks ++ .plain ⟨comparison.token, 0⟩ :: right.shownMarks
  | negate operand => .symbol '-' 0 :: operand.shownMarks
  | odd operand => .keyword .oddKw "ODD" 0 :: operand.shownMarks

def shownTokens (expression : Expression) : List Token := tokenString expression.shownMarks

theorem shownTokens_arithmetic (operator : ArithmeticOperator) (left right : Expression) :
    (arithmetic operator left right).shownTokens =
      .symbol '(' :: (left.shownTokens ++
        .symbol operator.char :: (right.shownTokens ++ [.symbol ')'])) := by
  simp [shownTokens, shownMarks]

theorem shownTokens_negate (operand : Expression) :
    (negate operand).shownTokens = .symbol '-' :: operand.shownTokens := rfl

theorem scansTo_leaf {leaf : Expression} {token : Token} {rest : List Char} {tokens : List Token}
    (arithmetic : leaf.IsArithmetic) (own : leaf.token? = some token) (parted : PartsWords rest)
    (further : ScansTo rest tokens) : ScansTo (leaf.text.toList ++ rest) (token :: tokens) := by
  obtain ⟨solid, reads⟩ := leaf_reads arithmetic own
  exact scansTo_lexeme reads (solid.endsBefore parted) further

/-- In front of a text that no word goes on into, shown arithmetic is scanned to its tokens. -/
theorem scansTo_shown {expression : Expression} (arithmetic : expression.IsArithmetic)
    {rest : List Char} {tokens : List Token} (parted : PartsWords rest)
    (further : ScansTo rest tokens) :
    ScansTo (expression.text.toList ++ rest) (expression.shownTokens ++ tokens) := by
  induction expression generalizing rest tokens with
  | number value => exact scansTo_leaf arithmetic rfl parted further
  | identifier name => exact scansTo_leaf arithmetic rfl parted further
  | arithmetic operator left right ihLeft ihRight =>
    have alone : Lexeme.standsAlone operator.char = true := by cases operator <;> decide
    have closing : ScansTo (')' :: rest) (.symbol ')' :: tokens) :=
      scansTo_symbol (by decide) further
    have second := ihRight arithmetic.2 (partsWords_cons (by decide) rest) closing
    have operated := scansTo_symbol alone (scansTo_blank second)
    have first := ihLeft arithmetic.1 (partsWords_blank _) (scansTo_blank operated)
    have opened : ScansTo ('(' :: _) (.symbol '(' :: _) := scansTo_symbol (by decide) first
    rw [toList_arithmetic, shownTokens_arithmetic]
    simpa using opened
  | negate operand ih =>
    rw [toList_negate, shownTokens_negate]
    exact scansTo_symbol (by decide) (ih arithmetic parted further)
  | relation | odd => exact arithmetic.elim

theorem height_lt_shown (expression : Expression) :
    expression.height < expression.shownTokens.length := by
  unfold shownTokens
  induction expression <;> simp only [height, shownMarks, tokenString_append, tokenString_symbol,
    tokenString_plain, tokenString_use, tokenString_keyword, tokenString_nil, List.length_append,
    List.length_cons, List.length_nil] <;> omega

theorem period_not_shown (expression : Expression) :
    Token.symbol '.' ∉ expression.shownTokens := by
  unfold shownTokens
  induction expression with
  | number | identifier => simp [shownMarks, Token.identifier]
  | arithmetic operator left right ihLeft ihRight =>
    have other : '.' ≠ operator.char := by cases operator <;> decide
    simp [shownMarks, ihLeft, ihRight, other]
  | relation comparison left right ihLeft ihRight =>
    have other : Token.symbol '.' ≠ comparison.token := by cases comparison <;> decide
    simp [shownMarks, ihLeft, ihRight, other]
  | negate operand ih | odd operand ih => simp [shownMarks, ih]

/-- Where the names that arithmetic uses stand for integers, the pass over them meets nothing. -/
theorem pass_shownMarks {outer : String → Option SymbolKind} {scopes : Scopes}
    (expression : Expression)
    (known : ∀ name ∈ expression.names, Scopes.Allows outer scopes .integer name) :
    Scopes.pass outer scopes expression.shownMarks = .ok scopes := by
  induction expression with
  | number value => rfl
  | identifier name => exact Scopes.pass_use (known name (by simp [names])) 0 []
  | arithmetic operator left right ihLeft ihRight | relation comparison left right ihLeft ihRight =>
    simp only [names, List.mem_append] at known
    have first := ihLeft fun name member => known name (.inl member)
    have second := ihRight fun name member => known name (.inr member)
    simp [shownMarks, Scopes.pass_append, first, second]
  | negate operand ih | odd operand ih =>
    have inside := ih known
    simp [shownMarks, inside]

end Expression

end PlZero
