import PlZero.Scan

/-!
# Spaced lexemes

A text that is put together from lexemes falls into these lexemes again when it is
scanned, as long as no lexeme is followed at once by a character that would be taken
into it. A blank never is, so blanks between all lexemes are enough, but few of them
are needed. How the text is laid out decides the lines and nothing else.
-/

namespace PlZero

set_option autoImplicit false

namespace Lexeme

/-- This character right after a lexeme would be taken into it. -/
def runsOn : List Char → Char → Bool
  | [], _ => false
  | first :: tail, next =>
    if first.isAlpha then next.isAlphanum
    else if first.isDigit then next.isDigit
    else tail.isEmpty && startsComparison first && next == '='

/-- What is taken as one lexeme when nothing comes after it. -/
def isWhole : List Char → Bool
  | [] => false
  | first :: tail => !Text.isBlank first && cut first tail == (first :: tail, [])

theorem takeWhile_of_boundary {test : Char → Bool} {body after : List Char}
    (inside : ∀ char ∈ body, test char = true)
    (boundary : ∀ next ∈ after.head?, test next = false) :
    (body ++ after).takeWhile test = body ∧ (body ++ after).dropWhile test = after := by
  rw [List.takeWhile_append_of_pos inside, List.dropWhile_append_of_pos inside]
  cases after with
  | nil => exact ⟨by simp, rfl⟩
  | cons next after =>
    have stops : ¬ test next = true := by simp [boundary next rfl]
    rw [List.takeWhile_cons_of_neg stops, List.dropWhile_cons_of_neg stops]
    exact ⟨by simp, rfl⟩

/-- Two runs that end at a boundary are the same where they begin the same text. -/
theorem runs_determined {test : Char → Bool} {first second rest left : List Char}
    (one : ∀ char ∈ first, test char = true) (other : ∀ char ∈ second, test char = true)
    (boundary : ∀ next ∈ rest.head?, test next = false)
    (alsoBoundary : ∀ next ∈ left.head?, test next = false)
    (same : first ++ rest = second ++ left) : first = second ∧ rest = left := by
  obtain ⟨taken, dropped⟩ := takeWhile_of_boundary one boundary
  obtain ⟨alsoTaken, alsoDropped⟩ := takeWhile_of_boundary other alsoBoundary
  rw [same] at taken dropped
  exact ⟨taken.symm.trans alsoTaken, dropped.symm.trans alsoDropped⟩

theorem run_taken {test : Char → Bool} {run : List Char}
    (inside : ∀ char ∈ run, test char = true) :
    run.takeWhile test = run ∧ run.dropWhile test = [] := by
  have boundary : ∀ next ∈ ([] : List Char).head?, test next = false := by simp
  have taken := takeWhile_of_boundary inside boundary
  rwa [List.append_nil] at taken

theorem all_of_takeWhile {test : Char → Bool} {body : List Char}
    (same : body.takeWhile test = body) : ∀ char ∈ body, test char = true := by
  have every : (body.takeWhile test).all test = true := List.all_takeWhile
  rw [same] at every
  exact List.all_eq_true.mp every

theorem cut_of_single {first : Char} {after : List Char} (noWord : first.isAlpha = false)
    (noNumber : first.isDigit = false)
    (alone : ∀ next ∈ after.head?, (startsComparison first && next == '=') = false) :
    cut first after = ([first], after) := by
  unfold cut
  rw [if_neg (by simp [noWord]), if_neg (by simp [noNumber])]
  split
  · next rest =>
    have unstarted : startsComparison first = false := by simpa using alone '=' rfl
    rw [if_neg (by simp [unstarted])]
  · rfl

theorem cut_of_comparison {first : Char} (after : List Char) (noWord : first.isAlpha = false)
    (noNumber : first.isDigit = false) (starts : startsComparison first = true) :
    cut first ('=' :: after) = ([first, '='], after) := by
  simp [cut, noWord, noNumber, starts]

theorem comparison_of_whole {first second : Char} {tail : List Char}
    (noWord : first.isAlpha = false) (noNumber : first.isDigit = false)
    (alone : cut first (second :: tail) = (first :: second :: tail, [])) :
    startsComparison first = true ∧ second = '=' ∧ tail = [] := by
  by_cases begun : (startsComparison first && second == '=') = true
  · obtain ⟨starts, isEqual⟩ := Bool.and_eq_true_iff.mp begun
    obtain rfl := eq_of_beq isEqual
    rw [cut_of_comparison tail noWord noNumber starts] at alone
    exact ⟨starts, rfl, (Prod.mk.inj alone).2⟩
  · have single : cut first (second :: tail) = ([first], second :: tail) := by
      apply cut_of_single noWord noNumber
      intro next isNext
      cases isNext
      exact Bool.eq_false_iff.mpr begun
    rw [single] at alone
    cases alone

theorem isAlpha_iff_toNat {char : Char} : char.isAlpha = true ↔
    (65 ≤ char.toNat ∧ char.toNat ≤ 90) ∨ (97 ≤ char.toNat ∧ char.toNat ≤ 122) := by
  have upper : char.isUpper = true ↔ 65 ≤ char.toNat ∧ char.toNat ≤ 90 := decide_eq_true_iff
  have lower : char.isLower = true ↔ 97 ≤ char.toNat ∧ char.toNat ≤ 122 := by
    have bounds : char.isLower = (decide (97 ≤ char.toNat) && decide (char.toNat ≤ 122)) := rfl
    rw [bounds, Bool.and_eq_true, decide_eq_true_eq, decide_eq_true_eq]
  have letter : char.isAlpha = (char.isUpper || char.isLower) := rfl
  rw [letter, Bool.or_eq_true, upper, lower]

theorem isDigit_iff_toNat {char : Char} :
    char.isDigit = true ↔ 48 ≤ char.toNat ∧ char.toNat ≤ 57 := Char.isDigit_iff_toNat

theorem isAlphanum_of_blank {char : Char} (blank : Text.isBlank char = true) :
    char.isAlphanum = false := by
  rw [Bool.eq_false_iff]
  intro visible
  simp only [Text.isBlank, Text.blankRanges, List.any_cons, List.any_nil, Bool.or_false,
    Bool.or_eq_true, Bool.and_eq_true, decide_eq_true_eq] at blank
  rw [Char.isAlphanum, Bool.or_eq_true, isAlpha_iff_toNat, isDigit_iff_toNat] at visible
  omega

theorem visible_of_alphanum {char : Char} (visible : char.isAlphanum = true) :
    Text.isBlank char = false := by
  rw [Bool.eq_false_iff]
  intro blank
  rw [isAlphanum_of_blank blank] at visible
  cases visible

theorem isAlpha_of_digit {char : Char} (digit : char.isDigit = true) : char.isAlpha = false := by
  rw [Bool.eq_false_iff]
  intro letter
  rw [isDigit_iff_toNat] at digit
  rw [isAlpha_iff_toNat] at letter
  omega

inductive Form : List Char → Prop
  | word {first : Char} {tail : List Char} (letter : first.isAlpha = true)
      (others : ∀ char ∈ tail, char.isAlphanum = true) : Form (first :: tail)
  | number {first : Char} {tail : List Char} (noLetter : first.isAlpha = false)
      (digit : first.isDigit = true) (others : ∀ char ∈ tail, char.isDigit = true) :
      Form (first :: tail)
  | single {char : Char} (visible : Text.isBlank char = false) (noLetter : char.isAlpha = false)
      (noDigit : char.isDigit = false) : Form [char]
  | comparison {first : Char} (visible : Text.isBlank first = false)
      (noLetter : first.isAlpha = false) (noDigit : first.isDigit = false)
      (starts : startsComparison first = true) : Form [first, '=']

theorem form_of_whole {lexeme : List Char} (whole : isWhole lexeme = true) : Form lexeme := by
  cases lexeme with
  | nil => cases whole
  | cons first tail =>
    simp only [isWhole, Bool.and_eq_true, Bool.not_eq_true', beq_iff_eq] at whole
    obtain ⟨visible, alone⟩ := whole
    cases letter : first.isAlpha with
    | true =>
      simp only [cut, letter, if_true, Prod.mk.injEq, List.cons.injEq, true_and] at alone
      exact .word letter (all_of_takeWhile alone.1)
    | false =>
      cases digit : first.isDigit with
      | true =>
        simp only [cut, letter, digit, if_true, if_false, Bool.false_eq_true, Prod.mk.injEq,
          List.cons.injEq, true_and] at alone
        exact .number letter digit (all_of_takeWhile alone.1)
      | false =>
        cases tail with
        | nil => exact .single visible letter digit
        | cons second tail =>
          obtain ⟨starts, rfl, rfl⟩ := comparison_of_whole letter digit alone
          exact .comparison visible letter digit starts

theorem isWhole_of_form {lexeme : List Char} (form : Form lexeme) : isWhole lexeme = true := by
  cases form with
  | word letter others =>
    have visible := visible_of_alphanum (by rw [Char.isAlphanum, letter, Bool.true_or])
    obtain ⟨taken, dropped⟩ := run_taken others
    simp [isWhole, visible, cut, letter, taken, dropped]
  | number noLetter digit others =>
    have visible := visible_of_alphanum (by rw [Char.isAlphanum, digit, Bool.or_true])
    obtain ⟨taken, dropped⟩ := run_taken others
    simp [isWhole, visible, cut, noLetter, digit, taken, dropped]
  | @single char visible noLetter noDigit =>
    have alone : cut char [] = ([char], []) := cut_of_single noLetter noDigit (by simp)
    simp [isWhole, visible, alone]
  | comparison visible noLetter noDigit starts =>
    simp [isWhole, visible, cut_of_comparison [] noLetter noDigit starts]

/-- The text right after a lexeme does not begin with a character that would be taken into it. -/
def EndsBefore (lexeme after : List Char) : Prop :=
  ∀ next ∈ after.head?, runsOn lexeme next = false

theorem cut_of_whole {first : Char} {tail after : List Char}
    (whole : isWhole (first :: tail) = true) (ends : EndsBefore (first :: tail) after) :
    cut first (tail ++ after) = (first :: tail, after) := by
  unfold EndsBefore runsOn at ends
  cases form_of_whole whole with
  | word letter others =>
    simp only [letter, if_true] at ends
    obtain ⟨taken, dropped⟩ := takeWhile_of_boundary others ends
    simp [cut, letter, taken, dropped]
  | number noLetter digit others =>
    simp only [noLetter, digit, if_true, if_false, Bool.false_eq_true] at ends
    obtain ⟨taken, dropped⟩ := takeWhile_of_boundary others ends
    simp [cut, noLetter, digit, taken, dropped]
  | single visible noLetter noDigit =>
    simp only [noLetter, noDigit, if_false, Bool.false_eq_true] at ends
    exact cut_of_single noLetter noDigit ends
  | comparison visible noLetter noDigit starts =>
    exact cut_of_comparison after noLetter noDigit starts

theorem nonempty_of_whole {lexeme : List Char} (whole : isWhole lexeme = true) : lexeme ≠ [] := by
  rintro rfl
  cases whole

/-- A lexeme holds no blanks, so no line ends in it. -/
theorem visible_of_whole {lexeme : List Char} (whole : isWhole lexeme = true) :
    ∀ char ∈ lexeme, Text.isBlank char = false := by
  cases form_of_whole whole with
  | word letter others =>
    have visible := visible_of_alphanum (by rw [Char.isAlphanum, letter, Bool.true_or])
    exact List.forall_mem_cons.mpr ⟨visible, fun char member =>
      visible_of_alphanum (others char member)⟩
  | number noLetter digit others =>
    have visible {char : Char} (isDigit : char.isDigit = true) : Text.isBlank char = false :=
      visible_of_alphanum (by rw [Char.isAlphanum, isDigit, Bool.or_true])
    exact List.forall_mem_cons.mpr ⟨visible digit, fun char member => visible (others char member)⟩
  | single visible noLetter noDigit => simpa using visible
  | comparison visible noLetter noDigit starts =>
    have equals : Text.isBlank '=' = false := rfl
    simp [visible, equals]

/-- A blank is never taken into a lexeme. -/
theorem endsBefore_blank (lexeme : List Char) {next : Char} (after : List Char)
    (blank : Text.isBlank next = true) : EndsBefore lexeme (next :: after) := by
  have strange := isAlphanum_of_blank blank
  have other : (next == '=') = false := by
    rw [beq_eq_false_iff_ne]
    rintro rfl
    cases blank
  intro head isHead
  cases isHead
  cases lexeme with
  | nil => rfl
  | cons first tail =>
    have noDigit : next.isDigit = false := by
      rw [Char.isAlphanum, Bool.or_eq_false_iff] at strange
      exact strange.2
    simp [runsOn, strange, noDigit, other]

theorem endsBefore_blanks (lexeme : List Char) {blanks : List Char}
    (allBlank : ∀ char ∈ blanks, Text.isBlank char = true) : EndsBefore lexeme blanks := by
  intro next isNext
  exact endsBefore_blank lexeme [] (allBlank next (List.mem_of_mem_head? isNext)) next rfl

end Lexeme

namespace Layout

/-- Pieces and what comes after them have only blanks for blanks, and no lexeme runs on into what
follows it. -/
def ArePieces (trailing : List Char) : List Piece → Prop
  | [] => ∀ char ∈ trailing, Text.isBlank char = true
  | piece :: rest => (∀ char ∈ piece.blanks, Text.isBlank char = true) ∧
      Lexeme.EndsBefore piece.lexeme (Layout.mk rest trailing).chars ∧ ArePieces trailing rest

/-- There are blanks wherever two lexemes would run together, and anywhere else at will. -/
def IsSpaced (layout : Layout) : Prop := ArePieces layout.trailing layout.pieces

/-- Blanks before every lexeme are enough. -/
theorem spaced_of_blanks {trailing : List Char} {pieces : List Piece}
    (trailingBlank : ∀ char ∈ trailing, Text.isBlank char = true)
    (apart : ∀ piece ∈ pieces, piece.blanks ≠ [] ∧
      ∀ char ∈ piece.blanks, Text.isBlank char = true) :
    IsSpaced ⟨pieces, trailing⟩ := by
  change ArePieces trailing pieces
  induction pieces with
  | nil => exact trailingBlank
  | cons piece rest ih =>
    have further : ArePieces trailing rest :=
      ih fun other member => apart other (List.mem_cons_of_mem _ member)
    refine ⟨(apart piece List.mem_cons_self).2, ?_, further⟩
    cases rest with
    | nil =>
      have last : (Layout.mk [] trailing).chars = trailing := by simp [chars]
      rw [last]
      exact Lexeme.endsBefore_blanks piece.lexeme trailingBlank
    | cons next others =>
      obtain ⟨blanks, lexeme⟩ := next
      obtain ⟨some, allBlank⟩ := apart ⟨blanks, lexeme⟩ (by simp)
      obtain ⟨blank, more, rfl⟩ := List.exists_cons_of_ne_nil some
      exact Lexeme.endsBefore_blank piece.lexeme _ (allBlank blank List.mem_cons_self)

theorem ofChars_pieces {trailing : List Char} {pieces : List Piece}
    (spaced : ArePieces trailing pieces)
    (whole : ∀ piece ∈ pieces, Lexeme.isWhole piece.lexeme = true) :
    ofChars (Layout.mk pieces trailing).chars = ⟨pieces, trailing⟩ := by
  induction pieces with
  | nil =>
    obtain ⟨taken, dropped⟩ := Lexeme.run_taken spaced
    have all : (Layout.mk [] trailing).chars = trailing := by simp [chars]
    rw [all, ofChars_of_blank dropped, taken]
  | cons piece rest ih =>
    obtain ⟨blanks, ends, further⟩ := spaced
    obtain ⟨before, lexeme⟩ := piece
    have one : Lexeme.isWhole lexeme = true := whole _ List.mem_cons_self
    have others := ih further fun piece member => whole piece (List.mem_cons_of_mem _ member)
    cases lexeme with
    | nil => cases one
    | cons first tail =>
      have visible : Text.isBlank first = false := by
        have both := Bool.and_eq_true_iff.mp one
        simpa using both.1
      have all : (Layout.mk (⟨before, first :: tail⟩ :: rest) trailing).chars =
          before ++ first :: (tail ++ (Layout.mk rest trailing).chars) := by
        simp [chars]
      have boundary : ∀ next ∈ (first :: (tail ++ (Layout.mk rest trailing).chars)).head?,
          Text.isBlank next = false := by
        intro next isNext
        cases isNext
        exact visible
      obtain ⟨taken, dropped⟩ := Lexeme.takeWhile_of_boundary blanks boundary
      rw [all, ofChars_of_visible dropped, taken, Lexeme.cut_of_whole one ends, others]
      rfl

end Layout

namespace Scan

theorem ofPieces_tokens (line : Nat) (trailing : List Char) {pieces : List Piece}
    {tokens : List Token}
    (reads : pieces.map (fun piece => Lexeme.token? piece.lexeme) = tokens.map some) :
    ∃ located last, ofPieces line trailing pieces = ⟨located, last, none⟩ ∧
      located.map LocatedToken.token = tokens := by
  induction pieces generalizing line tokens with
  | nil =>
    obtain rfl := List.map_eq_nil_iff.mp reads.symm
    exact ⟨[], _, rfl, rfl⟩
  | cons piece rest ih =>
    obtain ⟨token, others, rfl, same, further⟩ := List.map_eq_cons_iff.mp reads.symm
    obtain ⟨located, last, outcome, spelled⟩ :=
      ih (lineAfter line (Text.lineEnds piece.blanks)) further.symm
    have read : Lexeme.token? piece.lexeme = some token := same.symm
    rw [ofPieces, read]
    simp only [outcome]
    exact ⟨_, _, rfl, congrArg (token :: ·) spelled⟩

/-- The text of a spaced layout of whole lexemes is scanned to the tokens that they stand for. -/
theorem ofChars_tokens (line : Nat) {layout : Layout} {tokens : List Token}
    (spaced : layout.IsSpaced) (whole : ∀ piece ∈ layout.pieces, Lexeme.isWhole piece.lexeme = true)
    (reads : layout.pieces.map (fun piece => Lexeme.token? piece.lexeme) = tokens.map some) :
    ∃ located last, ofChars line layout.chars = ⟨located, last, none⟩ ∧
      located.map LocatedToken.token = tokens := by
  rw [ofChars, Layout.ofChars_pieces spaced whole]
  exact ofPieces_tokens line layout.trailing reads

end Scan

end PlZero
