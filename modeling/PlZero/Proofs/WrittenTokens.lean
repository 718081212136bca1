import PlZero.Proofs.LineEnds
import PlZero.Proofs.Spelling

/-!
# Tokens written as a text

Any tokens that can be written, on any lines that never decrease, are those of some text:
each one is put after the line feeds that lead to its line and a space. What a text is
scanned to is of this kind as long as there are line numbers left, so scanning reaches all
of it and nothing else.
-/

namespace PlZero

set_option autoImplicit false

/-- The lines of the tokens never decrease, from this line on. -/
def LinesAscend (line : Nat) (tokens : List LocatedToken) : Prop :=
  (line :: tokens.map LocatedToken.line).Pairwise (· ≤ ·)

theorem linesAscend_nil (line : Nat) : LinesAscend line [] := List.pairwise_singleton _ line

theorem linesAscend_cons {line : Nat} {located : LocatedToken} {rest : List LocatedToken} :
    LinesAscend line (located :: rest) ↔
      line ≤ located.line ∧ LinesAscend located.line rest := by
  unfold LinesAscend
  rw [List.map_cons, List.pairwise_cons]
  constructor
  · rintro ⟨least, further⟩
    exact ⟨least _ List.mem_cons_self, further⟩
  · rintro ⟨least, further⟩
    refine ⟨List.forall_mem_cons.mpr ⟨least, ?_⟩, further⟩
    intro later member
    exact Nat.le_trans least (List.rel_of_pairwise_cons further member)

theorem Text.lineEnds_feeds (count : Nat) :
    lineEnds (List.replicate count '\n' ++ [' ']) = count := by
  induction count with
  | zero => rfl
  | succ count ih =>
    rw [List.replicate_succ, List.cons_append]
    exact congrArg (· + 1) ih

namespace Layout

/-- Each token in its spelling, after the line feeds that lead to its line and a space. -/
def piecesOf (line : Nat) : List LocatedToken → List Piece
  | [] => []
  | located :: rest =>
    ⟨List.replicate (located.line - line) '\n' ++ [' '], located.token.spelling.toList⟩ ::
      piecesOf located.line rest

/-- The layout of a text that begins on `line` and has these tokens on their lines. -/
def ofTokens (line : Nat) (tokens : List LocatedToken) : Layout := ⟨piecesOf line tokens, []⟩

theorem ofTokens_isSpaced (line : Nat) (tokens : List LocatedToken) :
    (ofTokens line tokens).IsSpaced := by
  apply spaced_of_blanks
  · intro char member
    cases member
  · induction tokens generalizing line with
    | nil =>
      intro piece member
      cases member
    | cons located rest ih =>
      refine List.forall_mem_cons.mpr ⟨⟨by simp, ?_⟩, ih located.line⟩
      intro char member
      rcases List.mem_append.mp member with feed | space
      · rw [List.eq_of_mem_replicate feed]
        rfl
      · rw [List.mem_singleton.mp space]
        rfl

theorem piecesOf_areWhole (line : Nat) {tokens : List LocatedToken} (lexical : AreLexical tokens) :
    ∀ piece ∈ piecesOf line tokens, Lexeme.isWhole piece.lexeme = true := by
  induction tokens generalizing line with
  | nil =>
    intro piece member
    cases member
  | cons located rest ih =>
    obtain ⟨one, others⟩ := List.forall_mem_cons.mp lexical
    have whole := (reading?_eq_some (reading?_spelling one)).1
    exact List.forall_mem_cons.mpr ⟨whole, ih located.line others⟩

/-- A written text falls into the pieces that it was written in. -/
theorem ofChars_ofTokens (line : Nat) {tokens : List LocatedToken} (lexical : AreLexical tokens) :
    ofChars (ofTokens line tokens).chars = ofTokens line tokens :=
  ofChars_pieces (ofTokens_isSpaced line tokens) (piecesOf_areWhole line lexical)

end Layout

namespace Scan

/-- The line feeds before a token lead from the line before it to its own. -/
theorem ofPieces_piecesOf {line : Nat} {tokens : List LocatedToken} (lexical : AreLexical tokens)
    (ascend : LinesAscend line tokens)
    (inRange : ∀ located ∈ tokens, located.line < lineNumbers) :
    ∃ last, ofPieces line [] (Layout.piecesOf line tokens) = ⟨tokens, last, none⟩ := by
  induction tokens generalizing line with
  | nil => exact ⟨line, rfl⟩
  | cons located rest ih =>
    obtain ⟨one, others⟩ := List.forall_mem_cons.mp lexical
    obtain ⟨further, ascendToo⟩ := linesAscend_cons.mp ascend
    obtain ⟨inRangeHere, inRangeToo⟩ := List.forall_mem_cons.mp inRange
    obtain ⟨last, outcome⟩ := ih others ascendToo inRangeToo
    have read := (reading?_eq_some (reading?_spelling one)).2
    have sum : line + (located.line - line) = located.line := Nat.add_sub_of_le further
    have here : lineAfter line (located.line - line) = located.line := by
      rw [lineAfter_of_fits (by rwa [sum]), sum]
    rw [Layout.piecesOf, ofPieces]
    simp only [read, Text.lineEnds_feeds, here, outcome]
    exact ⟨last, rfl⟩

theorem ofPieces_ascend (line : Nat) (trailing : List Char) {pieces : List Piece}
    (whole : ∀ piece ∈ pieces, Lexeme.isWhole piece.lexeme = true)
    (fits : line + Text.lineEnds (Layout.mk pieces trailing).chars < lineNumbers) :
    LinesAscend line (ofPieces line trailing pieces).tokens := by
  induction pieces generalizing line with
  | nil => exact linesAscend_nil line
  | cons piece rest ih =>
    obtain ⟨one, others⟩ := List.forall_mem_cons.mp whole
    rw [Layout.lineEnds_cons one, ← Nat.add_assoc] at fits
    have reached := lineAfter_of_fits (Nat.lt_of_le_of_lt (Nat.le_add_right _ _) fits)
    rw [ofPieces, reached]
    cases Lexeme.token? piece.lexeme with
    | none => exact linesAscend_nil line
    | some token => exact linesAscend_cons.mpr ⟨Nat.le_add_right _ _, ih _ others fits⟩

end Scan

def largestThenName : List LocatedToken :=
  [⟨.number Lexeme.maxNumber, 3⟩, ⟨.keyword .leKw, 5⟩, ⟨.identifier "x2", 5⟩]

end PlZero
