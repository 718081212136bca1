import PlZero.Proofs.Lexical

/-!
# The longest lexeme at each point

What the lexemes are and what they stand for is said here without a cut: as a list of their
forms. A text is split as it should be when blanks and lexemes take turns in it and no lexeme
is followed by a character that would lengthen it. Every text is split so in one way only,
and a scan reads the tokens off this split.
-/

namespace PlZero

set_option autoImplicit false

namespace Text

/-- The characters with the property White_Space. -/
def IsWhiteSpace (char : Char) : Prop :=
  (0x0009 ≤ char.toNat ∧ char.toNat ≤ 0x000D) ∨ char.toNat = 0x0020 ∨ char.toNat = 0x0085 ∨
    char.toNat = 0x00A0 ∨ char.toNat = 0x1680 ∨ (0x2000 ≤ char.toNat ∧ char.toNat ≤ 0x200A) ∨
    char.toNat = 0x2028 ∨ char.toNat = 0x2029 ∨ char.toNat = 0x202F ∨ char.toNat = 0x205F ∨
    char.toNat = 0x3000

/-- The characters of category Cc. -/
def IsControl (char : Char) : Prop :=
  char.toNat ≤ 0x001F ∨ (0x007F ≤ char.toNat ∧ char.toNat ≤ 0x009F)

theorem isBlank_iff {char : Char} : isBlank char = true ↔ IsWhiteSpace char ∨ IsControl char := by
  simp only [isBlank, blankRanges, List.any_cons, List.any_nil, Bool.or_false, Bool.or_eq_true,
    Bool.and_eq_true, decide_eq_true_eq, IsWhiteSpace, IsControl]
  omega

theorem isBlank_eq_false_iff {char : Char} :
    isBlank char = false ↔ ¬ IsWhiteSpace char ∧ ¬ IsControl char := by
  rw [← not_or, ← isBlank_iff, Bool.not_eq_true]

end Text

namespace Lexeme

/-- The forms of lexemes, and the token of each. Numbers are not limited here. -/
inductive StandsFor : List Char → Token → Prop
  | reserved (keyword : Keyword) : StandsFor keyword.spelling.toList (.keyword keyword)
  | name {first : Char} {tail : List Char} (letter : first.isAlpha = true)
      (others : ∀ char ∈ tail, char.isAlphanum = true)
      (free : ∀ keyword : Keyword, keyword.spelling ≠ String.ofList (first :: tail)) :
      StandsFor (first :: tail) (.word (String.ofList (first :: tail)) identifierId)
  | number {digits : List Char} (nonempty : digits ≠ [])
      (decimal : ∀ char ∈ digits, char.isDigit = true) :
      StandsFor digits (.number (decimalValue digits))
  | equal : StandsFor ['=', '='] (.keyword .eqKw)
  | atLeast : StandsFor ['>', '='] (.keyword .geKw)
  | atMost : StandsFor ['<', '='] (.keyword .leKw)
  | unequal : StandsFor ['!', '='] (.keyword .neKw)
  | symbol {char : Char} (noWhiteSpace : ¬ Text.IsWhiteSpace char)
      (noControl : ¬ Text.IsControl char) (noLetter : char.isAlpha = false)
      (noDigit : char.isDigit = false) : StandsFor [char] (.symbol char)

/-- Nothing longer than this lexeme stands for a token at the same point of the text. -/
def IsLongest (lexeme after : List Char) : Prop :=
  ∀ longer token, StandsFor longer token → longer <+: lexeme ++ after →
    longer.length ≤ lexeme.length

/-- Each form is cut off as a whole. -/
theorem isWhole_of_standsFor {lexeme : List Char} {token : Token}
    (stands : StandsFor lexeme token) : isWhole lexeme = true := by
  cases stands with
  | reserved keyword => cases keyword <;> decide +kernel
  | name letter others free => exact isWhole_of_form (.word letter others)
  | number nonempty decimal =>
    obtain ⟨first, tail, rfl⟩ := List.exists_cons_of_ne_nil nonempty
    obtain ⟨digit, others⟩ := List.forall_mem_cons.mp decimal
    exact isWhole_of_form (.number (isAlpha_of_digit digit) digit others)
  | equal => decide
  | atLeast => decide
  | atMost => decide
  | unequal => decide
  | symbol noWhiteSpace noControl noLetter noDigit =>
    have visible := Text.isBlank_eq_false_iff.mpr ⟨noWhiteSpace, noControl⟩
    exact isWhole_of_form (.single visible noLetter noDigit)

/-- A lexeme is read as the token that it stands for, unless that is too large a number. -/
theorem token?_of_standsFor {lexeme : List Char} {token : Token}
    (stands : StandsFor lexeme token) :
    token? lexeme = some token ∨
      (token? lexeme = none ∧ token = .number (decimalValue lexeme)) := by
  cases stands with
  | reserved keyword =>
    left
    cases keyword <;> decide +kernel
  | @name first tail letter others free =>
    have unreserved : Keyword.ofSpelling? (String.ofList (first :: tail)) = none := by
      rw [Option.eq_none_iff_forall_ne_some]
      intro keyword found
      exact free keyword (Keyword.ofSpelling?_eq_some_iff.mp found)
    left
    simp only [token?, letter, if_true, Token.ofWord, unreserved, Token.identifier]
  | @number digits nonempty decimal =>
    obtain ⟨first, tail, rfl⟩ := List.exists_cons_of_ne_nil nonempty
    have digit := decimal first List.mem_cons_self
    by_cases bounded : decimalValue (first :: tail) ≤ maxNumber
    · left
      simp [token?, isAlpha_of_digit digit, digit, bounded]
    · right
      simp [token?, isAlpha_of_digit digit, digit, bounded]
  | equal => exact .inl rfl
  | atLeast => exact .inl rfl
  | atMost => exact .inl rfl
  | unequal => exact .inl rfl
  | symbol noWhiteSpace noControl noLetter noDigit =>
    left
    simp [token?, noLetter, noDigit]

theorem standsFor_unique {lexeme : List Char} {token other : Token}
    (stands : StandsFor lexeme token) (too : StandsFor lexeme other) : other = token := by
  rcases token?_of_standsFor stands with read | ⟨unread, isNumber⟩
  · rcases token?_of_standsFor too with same | ⟨unread, _⟩
    · rw [read] at same
      exact (Option.some.inj same).symm
    · rw [unread] at read
      cases read
  · rcases token?_of_standsFor too with read | ⟨_, same⟩
    · rw [unread] at read
      cases read
    · rw [same, isNumber]

theorem standsFor_comparison {first : Char} (starts : startsComparison first = true) :
    StandsFor [first, '='] (.keyword (comparison first)) := by
  simp only [startsComparison, Bool.or_eq_true, beq_iff_eq] at starts
  rcases starts with ((rfl | rfl) | rfl) | rfl
  · exact .equal
  · exact .atLeast
  · exact .atMost
  · exact .unequal

theorem standsFor_word {first : Char} {tail : List Char} (letter : first.isAlpha = true)
    (others : ∀ char ∈ tail, char.isAlphanum = true) :
    ∃ token, StandsFor (first :: tail) token := by
  by_cases taken : ∃ keyword : Keyword, keyword.spelling = String.ofList (first :: tail)
  · obtain ⟨keyword, spelled⟩ := taken
    have same : keyword.spelling.toList = first :: tail := by
      rw [spelled, String.toList_ofList]
    rw [← same]
    exact ⟨_, .reserved keyword⟩
  · exact ⟨_, .name letter others fun keyword spelled => taken ⟨keyword, spelled⟩⟩

/-- Every whole lexeme stands for a token. -/
theorem standsFor_of_whole {lexeme : List Char} (whole : isWhole lexeme = true) :
    ∃ token, StandsFor lexeme token := by
  cases form_of_whole whole with
  | word letter others => exact standsFor_word letter others
  | @number first tail noLetter digit others =>
    have decimal : ∀ char ∈ first :: tail, char.isDigit = true :=
      List.forall_mem_cons.mpr ⟨digit, others⟩
    exact ⟨_, .number (List.cons_ne_nil first tail) decimal⟩
  | single visible noLetter noDigit =>
    obtain ⟨noWhiteSpace, noControl⟩ := Text.isBlank_eq_false_iff.mp visible
    exact ⟨_, .symbol noWhiteSpace noControl noLetter noDigit⟩
  | comparison visible noLetter noDigit starts => exact ⟨_, standsFor_comparison starts⟩

/-- A lexeme ends where it cannot be lengthened. -/
theorem endsBefore_cut (first : Char) (rest : List Char) :
    EndsBefore (cut first rest).1 (cut first rest).2 := by
  have stops (test : Char → Bool) : ∀ next ∈ (rest.dropWhile test).head?, test next = false := by
    intro next isNext
    have stopped := List.head?_dropWhile_not test rest
    rw [isNext] at stopped
    exact stopped
  unfold EndsBefore
  cases letter : first.isAlpha with
  | true => simpa [cut, runsOn, letter] using stops Char.isAlphanum
  | false =>
    cases digit : first.isDigit with
    | true => simpa [cut, runsOn, letter, digit] using stops Char.isDigit
    | false =>
      by_cases begun : startsComparison first = true ∧ rest.head? = some '='
      · obtain ⟨starts, isEqual⟩ := begun
        obtain ⟨after, rfl⟩ := List.head?_eq_some_iff.mp isEqual
        rw [cut_of_comparison after letter digit starts]
        simp [runsOn, letter, digit]
      · have alone := alone_of_not_begun begun
        rw [cut_of_single letter digit alone]
        simpa [runsOn, letter, digit] using alone

/-- With more of the text in view, a lexeme that ends there would be cut off in two lengths. -/
theorem isLongest_of_ends {lexeme after : List Char} (whole : isWhole lexeme = true)
    (ends : EndsBefore lexeme after) : IsLongest lexeme after := by
  intro longer token stands begins
  have wholeToo := isWhole_of_standsFor stands
  by_cases shorter : longer.length ≤ lexeme.length
  · exact shorter
  · have inside : lexeme <+: longer :=
      List.prefix_of_prefix_length_le (List.prefix_append lexeme after) begins (by omega)
    obtain ⟨extra, rfl⟩ := inside
    have next : extra <+: after := (List.prefix_append_right_inj lexeme).mp begins
    cases extra with
    | nil => simp
    | cons head extra =>
      obtain ⟨others, rfl⟩ := next
      have endsHere : EndsBefore lexeme (head :: extra) := ends
      cases lexeme with
      | nil => cases whole
      | cons first tail =>
        have cutOff := cut_of_whole whole endsHere
        simp only [List.cons_append, isWhole, Bool.and_eq_true, beq_iff_eq] at wholeToo
        rw [wholeToo.2] at cutOff
        cases (Prod.mk.inj cutOff).2

end Lexeme

namespace Layout

/-- Blanks and lexemes take turns, each lexeme stands for its token, and none is followed by a
character that would lengthen it: a word by no letter or digit, a number by no digit, and a
lone `=`, `>`, `<` or `!` by no `=`. -/
inductive IsMunched (trailing : List Char) : List Piece → List Token → Prop
  | done (blank : ∀ char ∈ trailing, Text.IsWhiteSpace char ∨ Text.IsControl char) :
      IsMunched trailing [] []
  | next {piece : Piece} {token : Token} {pieces : List Piece} {tokens : List Token}
      (blank : ∀ char ∈ piece.blanks, Text.IsWhiteSpace char ∨ Text.IsControl char)
      (stands : Lexeme.StandsFor piece.lexeme token)
      (ends : Lexeme.EndsBefore piece.lexeme (Layout.mk pieces trailing).chars)
      (further : IsMunched trailing pieces tokens) :
      IsMunched trailing (piece :: pieces) (token :: tokens)

variable {trailing : List Char} {pieces : List Piece} {tokens : List Token}

theorem IsMunched.whole (munched : IsMunched trailing pieces tokens) :
    ∀ piece ∈ pieces, Lexeme.isWhole piece.lexeme = true := by
  induction munched with
  | done blank => exact fun piece member => by cases member
  | next blank stands ends further ih =>
    exact List.forall_mem_cons.mpr ⟨Lexeme.isWhole_of_standsFor stands, ih⟩

theorem IsMunched.arePieces (munched : IsMunched trailing pieces tokens) :
    ArePieces trailing pieces := by
  induction munched with
  | done blank => exact fun char member => Text.isBlank_iff.mpr (blank char member)
  | next blank stands ends further ih =>
    exact ⟨fun char member => Text.isBlank_iff.mpr (blank char member), ends, ih⟩

/-- So a text has no second split. -/
theorem IsMunched.layout (munched : IsMunched trailing pieces tokens) :
    ofChars (Layout.mk pieces trailing).chars = ⟨pieces, trailing⟩ :=
  ofChars_pieces munched.arePieces munched.whole

theorem IsMunched.tokens_unique {others : List Token}
    (munched : IsMunched trailing pieces tokens) (too : IsMunched trailing pieces others) :
    others = tokens := by
  induction munched generalizing others with
  | done blank =>
    cases too
    rfl
  | next blank stands ends further ih =>
    cases too with
    | next blankToo standsToo endsToo furtherToo =>
      rw [Lexeme.standsFor_unique stands standsToo, ih furtherToo]

theorem IsMunched.isLongest (munched : IsMunched trailing pieces tokens) {before after : List Piece}
    {piece : Piece} (split : pieces = before ++ piece :: after) :
    Lexeme.IsLongest piece.lexeme (Layout.mk after trailing).chars := by
  induction munched generalizing before with
  | done blank => simp at split
  | next blank stands ends further ih =>
    cases before with
    | nil =>
      obtain ⟨rfl, rfl⟩ := List.cons.inj split
      exact Lexeme.isLongest_of_ends (Lexeme.isWhole_of_standsFor stands) ends
    | cons first before => exact ih (List.cons.inj split).2

theorem blanks_of_takeWhile (chars : List Char) :
    ∀ char ∈ chars.takeWhile Text.isBlank, Text.IsWhiteSpace char ∨ Text.IsControl char := by
  intro char member
  have every : (chars.takeWhile Text.isBlank).all Text.isBlank = true := List.all_takeWhile
  exact Text.isBlank_iff.mp (List.all_eq_true.mp every char member)

/-- The layout of a text is a split of it. -/
theorem isMunched_ofChars (chars : List Char) :
    ∃ tokens, IsMunched (ofChars chars).trailing (ofChars chars).pieces tokens := by
  induction chars using ofChars.induct with
  | case1 chars blank =>
    rw [ofChars_of_blank blank]
    exact ⟨[], .done (blanks_of_takeWhile chars)⟩
  | case2 chars first rest visible _ ih =>
    obtain ⟨tokens, further⟩ := ih
    have notBlank : Text.isBlank first = false := by
      have stopped := List.head?_dropWhile_not Text.isBlank chars
      rwa [visible] at stopped
    obtain ⟨token, stands⟩ := Lexeme.standsFor_of_whole (Lexeme.isWhole_cut notBlank rest)
    have ends : Lexeme.EndsBefore (Lexeme.cut first rest).1
        (ofChars (Lexeme.cut first rest).2).chars := by
      rw [chars_ofChars]
      exact Lexeme.endsBefore_cut first rest
    rw [ofChars_of_visible visible]
    exact ⟨token :: tokens, .next (blanks_of_takeWhile chars) stands ends further⟩

end Layout

/-- Where no number is too large, the tokens of the pieces are those of the split. -/
theorem Scan.tokens_of_munched {trailing : List Char} {pieces : List Piece} {tokens : List Token}
    (munched : Layout.IsMunched trailing pieces tokens) (line : Nat)
    (unharmed : (ofPieces line trailing pieces).fault? = none) :
    (ofPieces line trailing pieces).tokens.map LocatedToken.token = tokens := by
  induction munched generalizing line with
  | done blank => rfl
  | @next piece token pieces tokens blank stands ends further ih =>
    rw [ofPieces] at unharmed ⊢
    rcases Lexeme.token?_of_standsFor stands with read | ⟨unread, _⟩
    · rw [read] at unharmed ⊢
      have others := ih (lineAfter line (Text.lineEnds piece.blanks)) unharmed
      simp only [cons, List.map_cons, others]
    · rw [unread] at unharmed
      cases unharmed

/-- Every text is split in exactly one way into blanks and lexemes that cannot be lengthened, and
none of them could be longer. When a scan of the text succeeds, from whatever line on, its tokens
are those for which the lexemes of this split stand. -/
theorem scan_reads_only_split (source : String) :
    ∃ (layout : Layout) (tokens : List Token),
      layout.chars = source.toList ∧
      Layout.IsMunched layout.trailing layout.pieces tokens ∧
      (∀ before piece after, layout.pieces = before ++ piece :: after →
        Lexeme.IsLongest piece.lexeme (Layout.mk after layout.trailing).chars) ∧
      (∀ (other : Layout) (others : List Token), other.chars = source.toList →
        Layout.IsMunched other.trailing other.pieces others → other = layout ∧ others = tokens) ∧
      ∀ line located, (Scan.ofSource line source).result = .ok located →
        located.map LocatedToken.token = tokens := by
  obtain ⟨tokens, munched⟩ := Layout.isMunched_ofChars source.toList
  refine ⟨Layout.ofChars source.toList, tokens, Layout.chars_ofChars _, munched, ?_, ?_, ?_⟩
  · intro before piece after split
    exact munched.isLongest split
  · intro other others whole munchedToo
    have same : other = Layout.ofChars source.toList := by
      rw [← whole]
      exact munchedToo.layout.symm
    subst same
    exact ⟨rfl, munched.tokens_unique munchedToo⟩
  · intro line located scanned
    have read := Scan.tokens_of_munched munched line
    change (Scan.ofSource line source).fault? = none →
      (Scan.ofSource line source).tokens.map LocatedToken.token = tokens at read
    unfold Scan.result at scanned
    split at scanned
    · next unharmed =>
      cases scanned
      exact read unharmed
    · cases scanned

def crowded : String := "a1<==12b"

theorem crowded_has_one_reading :
    let reading : List Token :=
      [.identifier "a1", .keyword .leKw, .symbol '=', .number 12, .identifier "b"]
    (Scan.ofSource 7 crowded).result = .ok (reading.map fun token => ⟨token, 7⟩) ∧
      ∀ (other : Layout) (others : List Token), other.chars = crowded.toList →
        Layout.IsMunched other.trailing other.pieces others → others = reading := by
  intro reading
  have scan : Scan.ofSource 7 crowded = ⟨reading.map fun token => ⟨token, 7⟩, 7, none⟩ := by
    decide +kernel
  have scanned : (Scan.ofSource 7 crowded).result =
      .ok (reading.map fun token => ⟨token, 7⟩) := by
    rw [scan]
    rfl
  obtain ⟨layout, tokens, _, _, _, only, reads⟩ := scan_reads_only_split crowded
  refine ⟨scanned, ?_⟩
  intro other others whole munched
  rw [(only other others whole munched).2, ← reads 7 _ scanned]
  rfl

end PlZero
